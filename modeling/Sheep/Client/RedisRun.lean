import Sheep.Client.RedisClient
import Sheep.Client.Served

/-!
# The reply of a request

A Redis request in a `served` exchange: the peer sends one reply, in pieces of any size.
`Hiredis.Delivers` is what hiredis promises: the reader has no reply until it was fed all of it.

`RespPop` writes to `finish` only when there is a reply, and the read callback of `BaseClient` does
not initialise it. So a request whose reply comes in several pieces finishes as soon as the memory
of `finish` happens to hold `true`, and the connection goes back into the pool with the rest of the
reply still to come. `replyLaw_iff` says in which runs this does not happen.
-/

namespace Sheep

open RequestRun TcpConnection

/-! ## hiredis -/

/-- A reader that was fed `str`, in pieces, and was asked for a reply in between. -/
inductive Hiredis.Fed (hiredis : Hiredis) : Bytes → hiredis.Reader → Prop
  | create : Fed hiredis [] hiredis.readerCreate
  | feed {str : Bytes} {reader : hiredis.Reader} (bs : Bytes) (h : Fed hiredis str reader) :
      Fed hiredis (str ++ bs) (hiredis.readerFeed reader bs)
  | getReply {str : Bytes} {reader reader' : hiredis.Reader} (h : Fed hiredis str reader)
      (hnone : hiredis.readerGetReply reader = (redisOk, none, reader')) : Fed hiredis str reader'

/-- `response` is one complete reply, and hiredis reads `r`: `REDIS_OK` with a null reply until the
bytes are complete. -/
structure Hiredis.Delivers (hiredis : Hiredis) (response : Bytes) (r : RedisReply) : Prop where
  nonempty : response ≠ []
  early : ∀ str reader, hiredis.Fed str reader → str <+: response → str ≠ response →
    ∃ reader', hiredis.readerGetReply reader = (redisOk, none, reader')
  complete : ∀ reader, hiredis.Fed response reader →
    ∃ reader', hiredis.readerGetReply reader = (redisOk, some r, reader')

/-- `RespPop` can store the reply. -/
def RedisReply.Storable (r : RedisReply) : Prop :=
  r.type = .array → r.element.length < 2 ^ 31 ∧ ∀ e ∈ r.element, e.str.isSome

namespace RedisClient

variable {hiredis : Hiredis} {c d : RedisClient hiredis} {response str : Bytes} {r : RedisReply}
  {b b' : Buffer}

/-! ## What `RespPop` makes of it -/

/-- Each round takes bytes off the buffer or is the last. -/
theorem feedLoop_isSome {fuel : Nat} {reader : hiredis.Reader} (hb : b.Ok)
    (hfuel : b.unread.length < fuel) : (feedLoop fuel reader b).isSome := by
  induction fuel generalizing reader b with
  | zero => exact absurd hfuel (Nat.not_lt_zero _)
  | succ fuel ih =>
    obtain ⟨⟨n, tmpBuf, b₁⟩, hpop⟩ := Option.isSome_iff_exists.mp
      (@Buffer.popHead_isSome _ 1024 hb (by decide))
    have hround := Buffer.popHead_popped hb (by decide) hpop
    unfold feedLoop
    rw [hpop]
    simp only [Option.bind_some]
    split
    next => rfl
    next hzero =>
      refine ih hround.ok ?_
      exact Nat.lt_of_lt_of_le (hround.shorter hzero) (Nat.le_of_lt_succ hfuel)

/-- The loop feeds all that is there. -/
theorem feedLoop_fed {fuel : Nat} {reader reader' : hiredis.Reader} (hb : b.Ok)
    (hfed : hiredis.Fed str reader) (h : feedLoop fuel reader b = some (b', reader')) :
    b'.Ok ∧ b'.unread = [] ∧ hiredis.Fed (str ++ b.unread) reader' := by
  induction fuel generalizing reader b str with
  | zero => cases h
  | succ fuel ih =>
    obtain ⟨⟨len, tmpBuf, b₁⟩, hpop, h⟩ := Option.bind_eq_some_iff.mp h
    have hround := Buffer.popHead_popped hb (by decide) hpop
    have hpieces := hround.pieces
    simp only at h
    split at h
    next hzero =>
      cases h
      rw [hround.nothing hzero] at hpieces ⊢
      rw [List.append_nil]
      exact ⟨hround.ok, (List.append_eq_nil_iff.mp hpieces).2, hfed⟩
    next =>
      obtain ⟨hok', hempty, hall⟩ := ih hround.ok (hfed.feed tmpBuf) h
      rw [List.append_assoc, hpieces] at hall
      exact ⟨hok', hempty, hall⟩

/-- The loop pops all that is there. -/
theorem feedAll_fed (hb : b.Ok) (hfed : hiredis.Fed str c.reader) :
    ∃ b' reader, c.feedAll b = some (b', reader) ∧ b'.unread = [] ∧
      hiredis.Fed (str ++ b.unread) reader := by
  have hsome : (c.feedAll b).isSome := feedLoop_isSome hb (Nat.lt_succ_self _)
  obtain ⟨⟨b', reader⟩, hfeed⟩ := Option.isSome_iff_exists.mp hsome
  obtain ⟨-, hempty, hall⟩ := feedLoop_fed hb hfed hfeed
  exact ⟨b', reader, hfeed, hempty, hall⟩

/-- `RespPop`, while the reply is not complete. -/
theorem respPop_incomplete (finish : Bool) (hdelivers : hiredis.Delivers response r) (hb : b.Ok)
    (hfed : hiredis.Fed str c.reader) (hsent : str ++ b.unread <+: response)
    (hne : str ++ b.unread ≠ response) :
    ∃ b' reader, b'.unread = [] ∧ hiredis.Fed (str ++ b.unread) reader ∧
      c.respPop finish b = some ("", finish, b', { c with reader := reader, reply := none }) := by
  obtain ⟨b', reader, hfeed, hempty, hall⟩ := feedAll_fed hb hfed
  obtain ⟨reader', hnone⟩ := hdelivers.early _ reader hall hsent hne
  exact ⟨b', reader', hempty, hall.getReply hnone, respPop_null hfeed hnone⟩

theorem store_errMsg {errMsg : String} (hne : r.type ≠ .error)
    (h : c.store r = some (errMsg, d)) : errMsg = "" := by
  rw [store, if_neg hne] at h
  cases htype : r.type with
  | array =>
    simp only [htype] at h
    obtain ⟨values, -, hd⟩ := Option.map_eq_some_iff.mp h
    exact (Prod.mk.inj hd).1.symm
  | string | integer | nil | status | error =>
    simp only [htype] at h
    exact (Prod.mk.inj (Option.some.inj h)).1.symm

theorem store_isSome_iff : (c.store r).isSome ↔ r.Storable := by
  cases htype : r.type with
  | array =>
    rw [store_array htype, Option.isSome_map, Option.isSome_iff_exists]
    constructor
    · rintro ⟨values, hpush⟩ -
      obtain ⟨hsome, hlen, -⟩ := pushElements_eq_some_iff.mp hpush
      refine ⟨?_, hsome⟩
      rcases eq_or_ne r.element [] with hnil | hne
      · rw [hnil]
        decide
      · have hbound := hlen hne
        omega
    · intro hstorable
      obtain ⟨hlen, hsome⟩ := hstorable htype
      exact ⟨_, pushElements_eq_some_iff.mpr ⟨hsome, fun _ => by omega, rfl⟩⟩
  | string | integer | nil | status | error =>
    refine iff_of_true ?_ fun h => ?_
    · simp [store, htype]
    · cases htype.symm.trans h

/-- `RespPop`, when the reply is complete. -/
theorem respPop_complete (finish : Bool) (hdelivers : hiredis.Delivers response r)
    (hne : r.type ≠ .error) (hb : b.Ok) (hfed : hiredis.Fed str c.reader)
    (hall : str ++ b.unread = response) :
    ((c.respPop finish b).isSome ↔ r.Storable) ∧
      ∀ res, c.respPop finish b = some res →
        res.1 = "" ∧ res.2.1 = true ∧ res.2.2.1.unread = [] := by
  obtain ⟨b', reader, hfeed, hempty, hreader⟩ := feedAll_fed hb hfed
  rw [hall] at hreader
  obtain ⟨reader', hreply⟩ := hdelivers.complete reader hreader
  rw [respPop_reply hfeed hreply]
  refine ⟨?_, fun res hres => ?_⟩
  · rw [Option.isSome_map]
    exact store_isSome_iff
  · obtain ⟨⟨errMsg, d⟩, hstore, rfl⟩ := Option.map_eq_some_iff.mp hres
    exact ⟨store_errMsg hne hstore, rfl, hempty⟩

theorem feedLoop_pops {fuel : Nat} {reader reader' : hiredis.Reader} (hb : b.Ok)
    (h : feedLoop fuel reader b = some (b', reader')) :
    b'.Ok ∧ ∃ popped, b.unread = popped ++ b'.unread := by
  induction fuel generalizing reader b with
  | zero => cases h
  | succ fuel ih =>
    obtain ⟨⟨len, tmpBuf, b₁⟩, hpop, h⟩ := Option.bind_eq_some_iff.mp h
    have hround := Buffer.popHead_popped hb (by decide) hpop
    simp only at h
    split at h
    next => cases h; exact ⟨hround.ok, tmpBuf, hround.pieces.symm⟩
    next =>
      obtain ⟨hok', popped, hrest⟩ := ih hround.ok h
      exact ⟨hok', tmpBuf ++ popped, by rw [List.append_assoc, ← hrest, hround.pieces]⟩

/-- The buffer after `RespPop` is the one after the loop. -/
theorem respPop_buffer {finish : Bool} {res : String × Bool × Buffer × RedisClient hiredis}
    (h : c.respPop finish b = some res) : ∃ reader, c.feedAll b = some (res.2.2.1, reader) := by
  obtain ⟨⟨b', reader⟩, hfeed, h⟩ := Option.bind_eq_some_iff.mp h
  rcases hget : hiredis.readerGetReply reader with ⟨ret, reply, reader'⟩
  simp only [hget] at h
  refine ⟨reader, hfeed.trans ?_⟩
  split at h
  next => cases h; rfl
  next =>
    cases reply with
    | none => cases h; rfl
    | some r =>
      obtain ⟨stored, -, rfl⟩ := Option.map_eq_some_iff.mp h
      rfl

/-- `RespPop` pops. -/
def popDerived (hiredis : Hiredis) : PopDerived (RedisClient hiredis) where
  toDerived := derived hiredis
  pops hok hr := by
    obtain ⟨reader, hfeed⟩ := respPop_buffer hr
    exact feedLoop_pops hok hfeed

end RedisClient

/-! ## The law -/

/-- `onDone_` gets the empty error when the read callbacks have popped the whole reply, and only
then, and the connection is not given back without an error before. -/
structure ReplyLaw {σ : Type} (response : Bytes) (e : Exchange σ) : Prop where
  success : "" ∈ e.request.dones ↔ e.popped = response
  clean : "" ∈ e.request.inserts → e.popped = response

/-- The condition on a step: the memory of `finish` holds `false` when the read callback is called
for bytes that do not complete the reply. -/
def FinishClear {σ : Type} (response : Bytes) (e : Exchange σ) (a : ExchangeAction) : Prop :=
  e.request.finished = false → ∀ bs ∈ e.callbackBytes a, e.popped ++ bs ≠ response →
    e.request.finish = false

instance {σ : Type} (response : Bytes) (e : Exchange σ) (a : ExchangeAction) :
    Decidable (FinishClear response e a) :=
  inferInstanceAs (Decidable (e.request.finished = false → ∀ bs ∈ e.callbackBytes a,
    e.popped ++ bs ≠ response → e.request.finish = false))

section

variable {hiredis : Hiredis} {response : Bytes} {r : RedisReply}
  {e e' : Exchange (RedisClient hiredis)} {a : ExchangeAction} {errMsg : String}

/-- The request is not finished, and the reader has the bytes that were popped. -/
structure Awaiting (response : Bytes) (e : Exchange (RedisClient hiredis)) : Prop
    extends Listening response e where
  fed : hiredis.Fed e.popped e.request.derived.reader
  incomplete : e.popped ≠ response

/-- `onDone_` has been called with `errMsg`. -/
structure ReplyOver {σ : Type} (errMsg : String) (e : Exchange σ) : Prop where
  ended : ∃ d, Over errMsg d e.request
  inserts : ∀ m ∈ e.request.inserts, m = errMsg

theorem ReplyOver.finished {σ : Type} {e : Exchange σ} (h : ReplyOver errMsg e) :
    e.request.finished = true := by
  obtain ⟨d, hover⟩ := h.ended
  exact hover.finished

theorem RequestEnded.replyOver {σ : Type} {e : Exchange σ} (h : RequestEnded errMsg e.request) :
    ReplyOver errMsg e := by
  refine ⟨⟨_, h.over⟩, fun m hm => ?_⟩
  rw [h.inserts] at hm
  cases hm

theorem ReplyOver.law_iff {σ : Type} {e : Exchange σ} (h : ReplyOver errMsg e) :
    ReplyLaw response e ↔ (errMsg = "" ↔ e.popped = response) := by
  obtain ⟨d, hover⟩ := h.ended
  have hdones : "" ∈ e.request.dones ↔ errMsg = "" := by
    rw [hover.dones, List.mem_singleton]
    exact eq_comm
  rw [← hdones]
  exact ⟨fun hlaw => hlaw.success,
    fun hlaw => ⟨hlaw, fun hm => hlaw.mp (hdones.mpr (h.inserts _ hm).symm)⟩⟩

theorem Awaiting.law (h : Awaiting response e) : ReplyLaw response e := by
  refine ⟨?_, fun hm => ?_⟩
  · rw [h.opened.dones]
    exact iff_of_false List.not_mem_nil h.incomplete
  · rw [h.opened.inserts] at hm
    cases hm

/-- A step after `onDone_`. -/
theorem ReplyOver.step (h : ReplyOver errMsg e) {init : Exchange (RedisClient hiredis)}
    (hstep : (served (RedisClient.derived hiredis) response init).step e a = some e') :
    ReplyOver errMsg e' ∧ e'.popped = e.popped := by
  obtain ⟨d, hover⟩ := h.ended
  obtain ⟨hover', hpopped, hinserts⟩ :=
    hover.step_served (D := RedisClient.popDerived hiredis) hstep
  exact ⟨⟨⟨d, hover'⟩, hinserts⟩, hpopped⟩

theorem ReplyOver.run (h : ReplyOver errMsg e) {init : Exchange (RedisClient hiredis)}
    {as : List ExchangeAction}
    (hrun : (served (RedisClient.derived hiredis) response init).run e as = some e') :
    ReplyOver errMsg e' :=
  System.run_invariant h (fun _ _ _ h hstep => (h.step hstep).1) hrun

/-- A step of a request that waits for the reply. -/
theorem Awaiting.step (hdelivers : hiredis.Delivers response r) (hne : r.type ≠ .error)
    (h : Awaiting response e) {init : Exchange (RedisClient hiredis)}
    (hstep : (served (RedisClient.derived hiredis) response init).step e a = some e') :
    (Awaiting response e' ∨ ∃ errMsg, ReplyOver errMsg e') ∧
      (e'.popped = response → r.Storable) ∧
      (ReplyLaw response e' ↔ FinishClear response e a) := by
  cases h.toListening.step (D := RedisClient.popDerived hiredis) hstep with
  | keeps h' hderived hpopped hcall hcalm =>
    have hclear : FinishClear response e a := by
      intro _ bs hbs
      rw [hcall] at hbs
      cases hbs
    have hwaits : Awaiting response e' :=
      ⟨h', by rw [hpopped, hderived]; exact h.fed, by rw [hpopped]; exact h.incomplete⟩
    exact ⟨.inl hwaits, fun hc => absurd hc hwaits.incomplete, iff_of_true hwaits.law hclear⟩
  | pops b res hok hsome hcall hsent hpop hderived hpopped hcases hcalm =>
    have hclear : FinishClear response e a ↔
        (e.popped ++ b.unread ≠ response → e.request.finish = false) := by
      refine ⟨fun hc => hc h.opened.unfinished b.unread hcall, fun hc _ bs hbs => ?_⟩
      rw [hcall] at hbs
      cases hbs
      exact hc
    rw [hclear]
    rcases eq_or_ne (e.popped ++ b.unread) response with hall | hpart
    · -- the reply is complete
      obtain ⟨hstorable, hcomplete⟩ := RedisClient.respPop_complete e.request.finish
        hdelivers hne hok h.fed hall
      obtain ⟨herr, hend, hempty⟩ := hcomplete res hpop
      rcases hcases with ⟨-, hended⟩ | ⟨⟨-, hnot⟩, -⟩
      · have hover := hended.replyOver
        refine ⟨.inr ⟨_, hover⟩,
          fun _ => hstorable.mp (Option.isSome_iff_exists.mpr ⟨res, hpop⟩),
          iff_of_true (hover.law_iff.mpr (iff_of_true herr ?_)) fun hc => absurd hall hc⟩
        rw [hpopped hempty, hall]
      · cases hend.symm.trans hnot
    · obtain ⟨b', reader, hempty, hfed, hres⟩ :=
        RedisClient.respPop_incomplete e.request.finish hdelivers hok h.fed hsent hpart
      obtain rfl := Option.some.inj (hpop.symm.trans hres)
      have hpopped' := hpopped hempty
      have hnot' : e'.popped ≠ response := by rw [hpopped']; exact hpart
      rcases hcases with ⟨hend, hended⟩ | ⟨⟨-, hnot⟩, hlistens⟩
      · -- a value that nobody has written
        have hfinish : e.request.finish = true := hend.resolve_left (not_not_intro rfl)
        have hover := hended.replyOver
        refine ⟨.inr ⟨_, hover⟩, fun hc => absurd hc hnot', iff_of_false ?_ fun hc => ?_⟩
        · rw [hover.law_iff]
          exact fun hc => hnot' (hc.mp rfl)
        · exact absurd (hfinish.symm.trans (hc hpart)) nofun
      · have hwaits : Awaiting response e' :=
          ⟨hlistens hempty, by rw [hpopped', hderived]; exact hfed, hnot'⟩
        exact ⟨.inl hwaits, fun hc => absurd hc hnot', iff_of_true hwaits.law fun _ => hnot⟩
  | fails errMsg b hfailed hended hpopped hcall ha hfails heof =>
    have hclear : FinishClear response e a := by
      intro _ bs hbs
      rw [hcall] at hbs
      cases hbs
    have hover := hended.replyOver
    have hnot : e'.popped ≠ response := by rw [hpopped]; exact h.incomplete
    exact ⟨.inr ⟨_, hover⟩, fun hc => absurd hc hnot,
      iff_of_true (hover.law_iff.mpr (iff_of_false hfailed hnot)) hclear⟩

/-- `doReq` on a connection that has read nothing. -/
theorem Awaiting.start {timeoutMs : UInt64} {conn : TcpConnection} {command : Bytes}
    {finish : Bool} {s : RequestRun (RedisClient hiredis)}
    (hdelivers : hiredis.Delivers response r) (hconn : Pooled conn) (hfresh : Fresh conn)
    (hs : doReq (RedisClient.derived hiredis) .new timeoutMs conn (.new hiredis command) finish =
      some s) :
    Awaiting response (.start s []) ∧ Wired s.conn ∨
      ∃ errMsg, errMsg ≠ "" ∧ ReplyOver errMsg (.start s []) := by
  obtain ⟨res, hpush, hderived, hcases⟩ := Listening.start hconn hfresh hs
  rcases hcases with ⟨-, h, hwired⟩ | ⟨hne, hended⟩
  · have hreader : res.2.2 = .new hiredis command := by
      have hpush' : (RedisClient.new hiredis command).reqPush conn.writeBuffer = some res := hpush
      unfold RedisClient.reqPush at hpush'
      simp only at hpush'
      split at hpush'
      next => cases hpush'; rfl
      next =>
        obtain ⟨b, -, rfl⟩ := Option.map_eq_some_iff.mp hpush'
        rfl
    refine .inl ⟨⟨h, ?_, hdelivers.nonempty.symm⟩, hwired⟩
    rw [show (Exchange.start s []).request.derived = _ from hderived, hreader]
    exact .create
  · exact .inr ⟨_, hne, hended.replyOver⟩

/-- `onDone_` gets the empty error exactly in the callback that pops the rest of the reply, if and
only if `finish` holds `false` by chance in each callback before it. The request does not get stuck
if `RespPop` can store the reply. If it cannot, the callback that has all of the reply does not
return. -/
theorem replyLaw_iff (hdelivers : hiredis.Delivers response r) (hne : r.type ≠ .error)
    {timeoutMs : UInt64} {conn : TcpConnection} {command : Bytes} {finish : Bool}
    {s : RequestRun (RedisClient hiredis)} (hconn : Pooled conn) (hfresh : Fresh conn)
    (hs : doReq (RedisClient.derived hiredis) .new timeoutMs conn (.new hiredis command) finish =
      some s) {as : List ExchangeAction}
    (hrun : (served (RedisClient.derived hiredis) response (.start s [])).run (.start s []) as =
      some e) :
    ((served (RedisClient.derived hiredis) response (.start s [])).AllStates (ReplyLaw response)
        (.start s []) as ↔
      (served (RedisClient.derived hiredis) response (.start s [])).AllSteps (FinishClear response)
        (.start s []) as) ∧
    (r.Storable → e.request.finished = false →
      GoesOn (served (RedisClient.derived hiredis) response (.start s [])) response e) ∧
    (¬ r.Storable → e.popped ≠ response) := by
  have hstart := Awaiting.start hdelivers hconn hfresh hs
  have hstage : Awaiting response (.start s []) ∨ ∃ errMsg, ReplyOver errMsg (.start s []) :=
    hstart.imp (·.1) fun ⟨errMsg, _, hover⟩ => ⟨errMsg, hover⟩
  have hlaw : ReplyLaw response (.start s []) := by
    rcases hstart with ⟨h, -⟩ | ⟨errMsg, hfailed, hover⟩
    · exact h.law
    · exact hover.law_iff.mpr (iff_of_false hfailed hdelivers.nonempty.symm)
  have hend : (Awaiting response e ∨ ∃ errMsg, ReplyOver errMsg e) ∧
      (e.popped = response → r.Storable) := by
    refine (System.reachable_of_run hrun).invariant
      (P := fun e => (Awaiting response e ∨ ∃ errMsg, ReplyOver errMsg e) ∧
        (e.popped = response → r.Storable))
      ⟨hstage, fun hc => absurd hc.symm hdelivers.nonempty⟩ fun e₁ a e₂ h _ hstep => ?_
    rcases h.1 with h₁ | ⟨errMsg, hover⟩
    · obtain ⟨hnext, hstorable, -⟩ := h₁.step hdelivers hne hstep
      exact ⟨hnext, hstorable⟩
    · obtain ⟨hover', hpopped⟩ := hover.step hstep
      exact ⟨.inr ⟨errMsg, hover'⟩, fun hc => h.2 (hpopped.symm.trans hc)⟩
  refine ⟨?_, fun hstorable hopen => ?_, fun hno hc => hno (hend.2 hc)⟩
  · refine System.allStates_iff_allSteps
      (I := fun e => Awaiting response e ∨ ∃ errMsg, ReplyOver errMsg e) (L := fun _ => True) hlaw
      hstage (fun e₁ a e₂ h hstep => ?_) (fun e₁ a e₂ h hlaw _ hstep => ?_) (fun _ _ => True.intro)
      (Option.isSome_iff_exists.mpr ⟨e, hrun⟩)
    · rcases h with h | ⟨errMsg, hover⟩
      · exact (h.step hdelivers hne hstep).1
      · exact .inr ⟨errMsg, (hover.step hstep).1⟩
    · rcases h with h | ⟨errMsg, hover⟩
      · exact (h.step hdelivers hne hstep).2.2
      · obtain ⟨hover', hpopped⟩ := hover.step hstep
        refine iff_of_true ?_ fun hopen => absurd (hover.finished.symm.trans hopen) nofun
        rw [hover'.law_iff, hpopped]
        exact hover.law_iff.mp hlaw
  · rcases hend.1 with h | ⟨errMsg, hover⟩
    · have hwired : Wired e.request.conn := by
        rcases hstart with ⟨hbegin, hwired⟩ | ⟨errMsg, -, hover⟩
        · exact hbegin.toListening.wired (D := RedisClient.popDerived hiredis) hwired hrun hopen
        · exact absurd (hover.run hrun).finished (by rw [hopen]; exact nofun)
      refine h.toListening.goes_on (D := RedisClient.popDerived hiredis) hwired
        (fun b hok hsent => ?_) _
      rcases eq_or_ne (e.popped ++ b.unread) response with hall | hpart
      · obtain ⟨hsome, -⟩ :=
          RedisClient.respPop_complete e.request.finish hdelivers hne hok h.fed hall
        exact hsome.mpr hstorable
      · obtain ⟨b', reader, -, -, hres⟩ := RedisClient.respPop_incomplete
          e.request.finish hdelivers hok h.fed hsent hpart
        exact Option.isSome_iff_exists.mpr ⟨_, hres⟩
    · exact absurd hover.finished (by rw [hopen]; exact nofun)

end

/-! ## A status reply in two pieces -/

theorem smallReader_fed {str : Bytes} {reader : smallReader.Reader}
    (h : smallReader.Fed str reader) : reader = str := by
  induction h with
  | create => rfl
  | feed bs h ih => exact congrArg (· ++ bs) ih
  | @getReply str reader reader' h hnone ih =>
    subst ih
    simp only [smallReader] at hnone
    split at hnone
    next => cases hnone
    next => exact (Prod.mk.inj (Prod.mk.inj hnone).2).2.symm

theorem smallReader_delivers {response rest : Bytes} {r : RedisReply} (hne : response ≠ [])
    (hearly : ∀ n < response.length, (parseReply (response.take n)).isNone)
    (hreply : parseReply response = some (r, rest)) : smallReader.Delivers response r := by
  refine ⟨hne, fun str reader hfed hsent hpart => ?_, fun reader hfed => ?_⟩
  · obtain rfl := smallReader_fed hfed
    have htake : reader = response.take (List.length reader) := List.prefix_iff_eq_take.mp hsent
    have hlen : List.length reader < response.length := by
      refine Nat.lt_of_le_of_ne hsent.length_le fun hc => hpart ?_
      rw [htake, hc, List.take_length]
    have hnone := hearly _ hlen
    rw [← htake, Option.isNone_iff_eq_none] at hnone
    refine ⟨reader, ?_⟩
    simp only [smallReader, hnone]
  · obtain rfl := smallReader_fed hfed
    refine ⟨rest, ?_⟩
    simp only [smallReader, hreply]

def okReply : RedisReply := ⟨.status, 0, some [79, 75], []⟩

theorem delivers_ok : smallReader.Delivers (bytes "+OK\r\n") okReply :=
  smallReader_delivers (by decide) (by decide +kernel)
    (show parseReply (bytes "+OK\r\n") = some (okReply, []) from rfl)

/-- A request on a new connection, with what the memory of `finish` holds. -/
def setRequest (finish : Bool) : RequestRun (RedisClient smallReader) :=
  (doReq (RedisClient.derived smallReader) .new 0 .connected (.new smallReader (bytes "SET a b"))
    finish).get (by cases finish <;> decide +kernel)

theorem doReq_setRequest (finish : Bool) : doReq (RedisClient.derived smallReader) .new 0 .connected
    (.new smallReader (bytes "SET a b")) finish = some (setRequest finish) :=
  (Option.some_get _).symm

/-- "+O" comes first. -/
def okInPieces : List ExchangeAction :=
  [.request .deliver, .request (.writable (.count 27)), .request (.writable .eagain),
    .request .resume, .arrive (bytes "+OK\r\n"), .read 2, .request .resume]

def okServed (finish : Bool) : System (Exchange (RedisClient smallReader)) ExchangeAction :=
  served (RedisClient.derived smallReader) (bytes "+OK\r\n") (.start (setRequest finish) [])

theorem replyLaw_okInPieces :
    (okServed false).AllStates (ReplyLaw (bytes "+OK\r\n")) (.start (setRequest false) [])
      (okInPieces ++ [.read 3, .request .resume]) := by
  have hsome : ((okServed false).run (.start (setRequest false) [])
      (okInPieces ++ [.read 3, .request .resume])).isSome := by decide +kernel
  obtain ⟨e, hrun⟩ := Option.isSome_iff_exists.mp hsome
  exact (replyLaw_iff delivers_ok (by decide) Pooled.connected Fresh.connected
    (doReq_setRequest false) hrun).1.mpr (by decide +kernel)

/-- The memory of `finish` holds `true`. -/
theorem half_a_reply :
    ¬ (okServed true).AllStates (ReplyLaw (bytes "+OK\r\n")) (.start (setRequest true) [])
      okInPieces := by
  intro hlaw
  have hend : ((okServed true).run (.start (setRequest true) []) okInPieces).map
      (fun e => (e.request.dones, e.popped)) = some ([""], bytes "+O") := by
    decide +kernel
  obtain ⟨e, hrun, he⟩ := Option.map_eq_some_iff.mp hend
  obtain ⟨hdones, hpopped⟩ := Prod.mk.inj he
  have hall := (hlaw.last hrun).success.mp (by rw [hdones]; exact List.mem_singleton.mpr rfl)
  exact absurd (hpopped.symm.trans hall) (by decide)

end Sheep
