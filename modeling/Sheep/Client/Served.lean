import Sheep.Client.PooledReuse

/-!
# A peer that sends one response

`served` is an exchange whose peer sends the bytes of a response and then closes its end. The bytes
arrive when they please and are read in pieces of any size, and the end of the stream comes behind
them.

`Listening` is a request that is not finished: nothing of the response is lost.
`Listening.step` says what a step does to it: the read callback is called or not, or the request
fails. `Over` is the request once `onDone_` has been called.
-/

namespace Sheep

open RequestRun TcpConnection

/-! ## What a step reads -/

/-- The bytes that wait for the read callback. They are counted until it is registered, and then
each call takes all. -/
structure ReadCounted (c : TcpConnection) : Prop where
  ok : c.readBuffer.Ok
  ahead : c.userReadHandler = none → c.readedSize.toNat = c.readBuffer.unread.length
  caughtUp : c.userReadHandler ≠ none → c.readBuffer.unread = []

/-- The end of the stream, an error of the socket, or the timeout. `writeHandler` calls `::write`
only if there is something to write. -/
def RequestAction.Fails {σ : Type} (s : RequestRun σ) : RequestAction → Prop
  | .readable (.bytes bs) => bs = []
  | .readable (.error _) | .expire _ => True
  | .writable (.error _) => s.conn.writeBuffer.readIndex ≠ s.conn.writeBuffer.writeIndex
  | _ => False

instance {σ : Type} (s : RequestRun σ) : ∀ a, Decidable (RequestAction.Fails s a)
  | .readable (.bytes bs) => inferInstanceAs (Decidable (bs = []))
  | .writable (.error _) => inferInstanceAs (Decidable
      (s.conn.writeBuffer.readIndex ≠ s.conn.writeBuffer.writeIndex))
  | .readable (.error _) | .expire _ => isTrue True.intro
  | .readable .eagain | .writable (.count _) | .writable .eagain | .deliver | .timerDeliver _
  | .resume | .destroy | .stack _ => isFalse id

/-- The bytes that the read callback is called for in a step, `none` if it is not called or gets an
error. -/
def RequestAction.callbackBytes {σ : Type} (s : RequestRun σ) : RequestAction → Option Bytes
  | .readable (.bytes bs) =>
    if bs ≠ [] ∧ s.conn.userReadHandler ≠ none then some (s.conn.readBuffer.unread ++ bs) else none
  | .writable _ =>
    if s.conn.writeBuffer.readIndex = s.conn.writeBuffer.writeIndex ∧ s.conn.readedSize ≠ 0 then
      some s.conn.readBuffer.unread
    else none
  | _ => none

/-- What a step does to the response of a request that is not finished. -/
inductive Turn {σ : Type} (D : Derived σ) (s : RequestRun σ) (a : RequestAction)
    (t : RequestRun σ) : Prop
  | keeps (hfinished : t.finished = false) (hderived : t.derived = s.derived)
      (hcounted : ReadCounted t.conn)
      (hunread : t.conn.readBuffer.unread = s.conn.readBuffer.unread ++ a.bytes)
      (hfails : ¬ a.Fails s) (hcall : a.callbackBytes s = none)
  /-- the read callback takes what there is -/
  | pops (b : Buffer) (r : String × Bool × Buffer × σ) (hok : b.Ok)
      (hunread : b.unread = s.conn.readBuffer.unread ++ a.bytes) (hsome : b.unread ≠ [])
      (hpop : D.respPop s.derived s.finish b = some r) (hderived : t.derived = r.2.2.2)
      (hbuffer : t.conn.readBuffer = r.2.2.1) (hwaits : t.conn.userReadHandler ≠ none)
      (hfinished : t.finished = true ↔ r.1 ≠ "" ∨ r.2.1 = true)
      (hdones : t.finished = true → t.dones = [r.1]) (hfails : ¬ a.Fails s)
      (hcall : a.callbackBytes s = some b.unread)
  | fails (errMsg : String) (hne : errMsg ≠ "") (hended : RequestEnded errMsg t)
      (hfails : a.Fails s)

section

variable {σ : Type} {D : Derived σ} {s t : RequestRun σ} {o : Outcome} {errMsg : String}

/-- The read callback without an error. -/
theorem RequestBegun.onRead_pops (hs : RequestBegun s) (ht : s.onRead D "" = some t) :
    ∃ r, D.respPop s.derived s.finish s.conn.readBuffer = some r ∧ t.derived = r.2.2.2 ∧
      t.conn = { s.conn with readBuffer := r.2.2.1 } ∧
      (t.finished = true ↔ r.1 ≠ "" ∨ r.2.1 = true) ∧ (t.finished = true → t.dones = [r.1]) := by
  rcases onRead_cases hs.inserts ht with ⟨hne, -⟩ | ⟨-, errMsg, finish, b, derived, hpop, hcases⟩
  · exact absurd rfl hne
  · refine ⟨_, hpop, ?_⟩
    rw [cancelTimer_eq] at hcases
    rcases hcases with ⟨hend, rfl⟩ | ⟨rfl, rfl, rfl⟩
    · rw [callDone_eq (by exact hs.unfinished)]
      exact ⟨rfl, rfl, ⟨fun _ => hend, fun _ => rfl⟩, fun _ => congrArg (errMsg :: ·) hs.dones⟩
    · have hnot : s.finished ≠ true := by rw [hs.unfinished]; exact nofun
      refine ⟨rfl, rfl, ⟨fun hc => absurd hc hnot, fun hc => ?_⟩, fun hc => absurd hc hnot⟩
      rcases hc with hc | hc
      · exact absurd rfl hc
      · cases hc

/-- The bytes of a read are added to those that are counted. -/
theorem ReadCounted.readedSize_add {c : TcpConnection} {b : Buffer} {buf : List UInt8}
    (hc : ReadCounted c) (hread : c.userReadHandler = none) (hok : b.Ok)
    (hunread : b.unread = c.readBuffer.unread ++ buf) :
    (c.readedSize + toUInt64 buf.length).toNat = b.unread.length := by
  have hmax : vectorMaxSize < 2 ^ 63 := by decide
  have hlen := Buffer.unread_length hok
  have hwrite := hok.write_le
  have hsize := hok.size_le
  have hsum : b.unread.length = c.readedSize.toNat + buf.length := by
    rw [hunread, List.length_append, hc.ahead hread]
  have hcast : (toUInt64 buf.length).toNat = buf.length := by
    unfold toUInt64
    rw [UInt64.toNat_ofNat']
    omega
  rw [UInt64.toNat_add, hcast]
  omega

/-- `writeHandler` with bytes in the buffer fails if `::write` does. -/
theorem writeHandler_sends {c : TcpConnection} {r : SysResult} {sent : List UInt8}
    (hne : c.writeBuffer.readIndex ≠ c.writeBuffer.writeIndex)
    (ho : c.writeHandler r = some (o, sent)) :
    (∃ e h b errMsg, r = .error e ∧ c.userWriteHandler = some h ∧ errMsg ≠ "" ∧
      o = ⟨{ c with writeBuffer := b, writeDone := true },
        some (.write h errMsg, .callFinish errMsg)⟩) ∨
    ((∀ e, r ≠ .error e) ∧ ∃ b, o = return_ { c with writeBuffer := b }) := by
  unfold TcpConnection.writeHandler at ho
  obtain ⟨⟨count, buf⟩, hread, ho⟩ := Option.bind_eq_some_iff.mp ho
  have hcount : count ≠ 0 := Buffer.read_ne_zero hne (by decide) hread
  simp only [hcount, if_false] at ho
  cases r with
  | count n =>
    cases ho
    exact .inr ⟨nofun, _, rfl⟩
  | eagain =>
    cases ho
    exact .inr ⟨nofun, _, rfl⟩
  | error e =>
    have herr : Socket.formatErrMsg "read" e ≠ "" := by simp [Socket.formatErrMsg]
    simp only [Socket.write, ne_eq, herr, not_false_eq_true, if_true] at ho
    obtain ⟨h, hh, ho⟩ := Option.bind_eq_some_iff.mp ho
    cases ho
    exact .inl ⟨e, h, _, _, rfl, hh, herr, rfl⟩

/-- The connection returns without a call, and has read nothing. -/
theorem RequestOpen.turn_keeps {a : RequestAction} {c : TcpConnection} {frames : List RequestFrame}
    (hs : RequestOpen s) (hc : ReadCounted s.conn) (hread : c.readBuffer = s.conn.readBuffer)
    (hsize : c.readedSize = s.conn.readedSize) (hhandler : c.userReadHandler =
      s.conn.userReadHandler) (hbytes : a.bytes = []) (hfails : ¬ a.Fails s)
    (hcall : a.callbackBytes s = none) : Turn D s a { s with conn := c, frames := frames } := by
  refine .keeps hs.unfinished rfl ⟨?_, ?_, ?_⟩ ?_ hfails hcall
  · exact hread ▸ hc.ok
  · rw [hread, hsize, hhandler]
    exact hc.ahead
  · rw [hread, hhandler]
    exact hc.caughtUp
  · rw [hread, hbytes, List.append_nil]

/-- A chunk of the response, or bytes that nobody waits for yet. -/
theorem RequestOpen.turn_chunk {buf : List UInt8} {b : Buffer} (hs : RequestOpen s)
    (hc : ReadCounted s.conn) (hne : buf ≠ []) (hb : s.conn.readBuffer.write buf = some b)
    (ht : s.leave D (readDone { s.conn with
      readBuffer := b, readedSize := s.conn.readedSize + toUInt64 buf.length }) = some t) :
    Turn D s (.readable (.bytes buf)) t := by
  obtain ⟨hok, hunread⟩ := Buffer.write_spec hc.ok hb
  cases hs.phase with
  | undelivered h hund hread | writing h hund hread =>
    -- the bytes are counted, for `AsyncReadAny` to find them
    have hsum := hc.readedSize_add hread hok hunread
    simp only [readDone, hread, return_] at ht
    cases ht
    exact .keeps hs.unfinished rfl ⟨hok, fun _ => hsum, fun hc => absurd rfl hc⟩ hunread hne
      (if_neg fun hc => hc.2 hread)
  | waiting h hund hread hany hdone hnotify =>
    rw [readDone_any hread hany] at ht
    obtain ⟨r, hpop, hderived, hconn, hfinished, hdones⟩ := RequestBegun.onRead_pops
      (s := { s with
        conn := resetRead { s.conn with
          readBuffer := b, readedSize := s.conn.readedSize + toUInt64 buf.length }
        frames := .conn .done :: s.frames })
      ⟨hs.unfinished, hs.dones, hs.inserts, hs.again⟩ ht
    have hsome : s.conn.userReadHandler ≠ none := Option.ne_none_iff_exists'.mpr ⟨h, hread⟩
    refine .pops b r hok hunread ?_ hpop hderived (congrArg (·.readBuffer) hconn) ?_ hfinished
      hdones hne ?_
    · rw [hunread]
      exact List.append_ne_nil_of_right_ne_nil _ hne
    · rw [hconn]
      exact hsome
    · rw [hunread]
      exact if_pos ⟨hne, hsome⟩

/-- A readable event. -/
theorem RequestOpen.turn_readable {r : SysRead} (hs : RequestOpen s) (hc : ReadCounted s.conn)
    (hframes : s.frames = []) (ho : s.conn.readHandler r = some o)
    (ht : s.leave D o = some t) : Turn D s (.readable r) t := by
  cases r with
  | eagain =>
    cases ho
    cases ht
    exact hs.turn_keeps hc rfl rfl rfl rfl id rfl
  | error strerror =>
    rw [readHandler_error] at ho
    cases ho
    obtain ⟨errMsg, hne, hended, -⟩ := hs.readFailed hframes (by simp [Socket.formatErrMsg]) ht
    exact .fails errMsg hne hended True.intro
  | bytes buf =>
    by_cases hne : buf = []
    · subst hne
      rw [readHandler_eof] at ho
      cases ho
      obtain ⟨errMsg, hne, hended, -⟩ := hs.readFailed hframes (by decide) ht
      exact .fails errMsg hne hended rfl
    · rw [readHandler_bytes (List.length_pos_of_ne_nil hne)] at ho
      obtain ⟨b, hb, rfl⟩ := Option.map_eq_some_iff.mp ho
      exact hs.turn_chunk hc hne hb ht

/-- The write is over: the request waits for the response, or takes what is there. -/
theorem RequestOpen.turn_written {h : Handler} {e : Event} {r : SysResult} (hs : RequestOpen s)
    (hc : ReadCounted s.conn) (hread : s.conn.userReadHandler = none)
    (hempty : s.conn.writeBuffer.readIndex = s.conn.writeBuffer.writeIndex)
    (ht : s.leave D
      ⟨{ s.conn with writeDone := true, event := some { e with writeNotify := false } },
        some (.write h "", .done)⟩ = some t) : Turn D s (.writable r) t := by
  have hfails : ¬ RequestAction.Fails s (.writable r) := by
    cases r with
    | count n | eagain => exact id
    | error e => exact fun hc => hc hempty
  have hcount := hc.ahead hread
  rcases onWrite_cases (s := { s with
      conn := { s.conn with writeDone := true, event := some { e with writeNotify := false } }
      frames := .conn .done :: s.frames }) hs.inserts ht with ⟨hsize, rfl⟩ | ⟨hsize, ht⟩
  · have hnil : s.conn.readBuffer.unread = [] := by
      rw [show s.conn.readedSize = 0 from hsize] at hcount
      exact List.length_eq_zero_iff.mp hcount.symm
    exact .keeps hs.unfinished rfl ⟨hc.ok, nofun, fun _ => hnil⟩ (List.append_nil _).symm hfails
      (if_neg fun hc => hc.2 hsize)
  · obtain ⟨r', hpop, hderived, hconn, hfinished, hdones⟩ := RequestBegun.onRead_pops
      (s := { s with
        conn := resetRead { s.conn with
          writeDone := true
          event := some { e with writeNotify := false }
          anyFlag := true
          userReadHandler := some readCallback }
        frames := .conn .done :: .conn .done :: s.frames })
      ⟨hs.unfinished, hs.dones, hs.inserts, hs.again⟩ ht
    refine .pops s.conn.readBuffer r' hc.ok (List.append_nil _).symm ?_ hpop hderived
      (congrArg (·.readBuffer) hconn) ?_ hfinished hdones hfails (if_pos ⟨hempty, hsize⟩)
    · intro hnil
      rw [hnil] at hcount
      exact hsize (UInt64.toNat_inj.mp hcount)
    · rw [hconn]
      exact Option.some_ne_none _

/-- A writable event. -/
theorem RequestOpen.turn_writable {r : SysResult} {sent : List UInt8} (hs : RequestOpen s)
    (hc : ReadCounted s.conn) (hframes : s.frames = []) (hnotify : s.conn.writeNotify = true)
    (ho : s.conn.writeHandler r = some (o, sent)) (ht : s.leave D o = some t) :
    Turn D s (.writable r) t := by
  have hread : s.conn.undelivered = none → s.conn.userReadHandler = none := by
    intro hund
    cases hs.phase with
    | undelivered k hund' => exact absurd (hund'.symm.trans hund) nofun
    | writing k _ hread => exact hread
    | waiting k _ _ _ _ hoff => exact absurd (hoff.symm.trans hnotify) nofun
  have hund : ∀ h, s.conn.userWriteHandler = some h → s.conn.undelivered = none := by
    intro h hh
    cases hs.phase with
    | undelivered k _ _ hwrite => exact absurd (hwrite.symm.trans hh) nofun
    | writing k hund | waiting k hund => exact hund
  rcases eq_or_ne s.conn.writeBuffer.readIndex s.conn.writeBuffer.writeIndex with hempty | hempty
  · obtain ⟨h, e, hh, -, rfl⟩ := writeHandler_empty hempty ho
    exact hs.turn_written hc (hread (hund h hh)) hempty ht
  · rcases writeHandler_sends hempty ho with ⟨e, h, b, errMsg, rfl, hh, he, rfl⟩ |
      ⟨hok, b, rfl⟩
    · have hsettled : Settled { s.conn with writeBuffer := b, writeDone := true } :=
        ⟨hund h hh, nofun⟩
      have hend := hs.toRequestBegun.writeError (f := .callFinish errMsg) hframes nofun he hsettled
        (fun hc => absurd (hs.conn.symm.trans hc) nofun) ht
      exact .fails errMsg he hend.1 hempty
    · cases ht
      refine hs.turn_keeps hc rfl rfl rfl rfl ?_ (if_neg fun hc => hempty hc.1)
      cases r with
      | count n | eagain => exact id
      | error e => exact absurd rfl (hok e)

/-- A step of a request that is not finished. -/
theorem RequestOpen.turn {a : RequestAction} (hs : RequestOpen s) (htimer : TimerOk s)
    (hc : ReadCounted s.conn) (hstep : s.step D a = some t) : Turn D s a t := by
  cases a with
  | deliver =>
    obtain ⟨hframes, ho⟩ := Option.ite_none_right_eq_some.mp hstep
    obtain ⟨o, ho, ht⟩ := Option.bind_eq_some_iff.mp ho
    rcases deliver_cases ho with ⟨h, e, hh, -, rfl⟩ | ⟨h, hnone, rfl⟩
    · cases ht
      exact hs.turn_keeps hc rfl rfl rfl rfl id rfl
    · cases ht
      exact hs.turn_keeps hc rfl rfl rfl rfl id rfl
  | readable r =>
    obtain ⟨⟨hframes, -⟩, ho⟩ := Option.ite_none_right_eq_some.mp hstep
    obtain ⟨o, ho, ht⟩ := Option.bind_eq_some_iff.mp ho
    exact hs.turn_readable hc hframes ho ht
  | writable r =>
    obtain ⟨⟨hframes, hnotify⟩, ho⟩ := Option.ite_none_right_eq_some.mp hstep
    obtain ⟨⟨o, sent⟩, ho, ht⟩ := Option.bind_eq_some_iff.mp ho
    exact hs.turn_writable hc hframes hnotify ho ht
  | timerDeliver now =>
    obtain ⟨-, ho⟩ := Option.ite_none_right_eq_some.mp hstep
    obtain ⟨t', -, rfl⟩ := Option.map_eq_some_iff.mp ho
    exact .keeps hs.unfinished rfl hc (List.append_nil _).symm id rfl
  | expire now =>
    obtain ⟨-, t', rfl⟩ := expire_cases htimer hstep
    rw [uses_eq hs.inserts]
    exact .fails "timeout" (by decide) hs.timeout True.intro
  | resume =>
    rcases resume_cases hstep with ⟨f, fs, o, hframes, ho, ht⟩ | ⟨e, fs, hframes, -⟩
    · have hf := hs.frames (.conn f) (hframes ▸ List.mem_cons_self)
      cases hf
      cases ho
      cases ht
      exact hs.turn_keeps hc rfl rfl rfl rfl id rfl
    · cases hs.frames (.onDone e) (hframes ▸ List.mem_cons_self)
  | destroy =>
    obtain ⟨⟨-, hdones⟩, -⟩ := Option.ite_none_right_eq_some.mp hstep
    exact absurd hs.dones hdones
  | stack finish =>
    cases hstep
    exact .keeps hs.unfinished rfl hc (List.append_nil _).symm id rfl

end

/-! ## The peer -/

/-- The loop reads the end of the stream. -/
def ExchangeAction.eof : ExchangeAction := .request (.readable (.bytes []))

/-- The peer sends the bytes of `response`, and closes its end behind them. -/
def Exchange.Sent {σ : Type} (response : Bytes) (e : Exchange σ) : ExchangeAction → Prop
  | .arrive bs => e.arrived ++ bs <+: response
  | .request (.readable (.bytes _)) => e.arrived = response
  | _ => True

instance {σ : Type} (response : Bytes) (e : Exchange σ) : ∀ a, Decidable (e.Sent response a)
  | .arrive bs => inferInstanceAs (Decidable (e.arrived ++ bs <+: response))
  | .request (.readable (.bytes _)) => inferInstanceAs (Decidable (e.arrived = response))
  | .request (.readable .eagain) | .request (.readable (.error _)) | .request .deliver
  | .request (.writable _) | .request (.timerDeliver _) | .request (.expire _) | .request .resume
  | .request .destroy | .request (.stack _) | .read _ => isTrue True.intro

/-- An exchange with a peer that sends `response`. -/
def served {σ : Type} (D : Derived σ) (response : Bytes) (e : Exchange σ) :
    System (Exchange σ) ExchangeAction where
  init := e
  step e a := if e.Sent response a then e.step D a else none

theorem served_step {σ : Type} {D : Derived σ} {response : Bytes} {init e : Exchange σ}
    {a : ExchangeAction} (h : e.Sent response a) :
    (served D response init).step e a = e.step D a :=
  if_pos h

/-- A connection that has read nothing. -/
structure Fresh (c : TcpConnection) : Prop where
  opened : c.finished = false
  event : ∃ writeNotify, c.event = some ⟨true, writeNotify⟩
  ok : c.readBuffer.Ok
  unread : c.readBuffer.unread = []
  readedSize : c.readedSize = 0

theorem Fresh.connected : Fresh .connected := ⟨rfl, ⟨false, rfl⟩, Buffer.ok_new, rfl, rfl⟩

theorem Fresh.reset {c : TcpConnection} (h : ∃ writeNotify, c.event = some ⟨true, writeNotify⟩) :
    Fresh c.reset :=
  ⟨rfl, h, Buffer.ok_reset, rfl, rfl⟩

/-- The exchange is not stuck in `e`: a handler that runs can return, and when none runs the loop
can read the next bytes, for which the buffer has room, or the end of the stream. -/
structure GoesOn {σ : Type} (S : System (Exchange σ) ExchangeAction) (response : Bytes)
    (e : Exchange σ) : Prop where
  resume : e.request.frames ≠ [] → (S.step e (.request .resume)).isSome
  eof : e.request.frames = [] → e.arrived = response → e.socket = [] → (S.step e .eof).isSome
  read : ∀ n, e.request.frames = [] → 1 ≤ n → n ≤ 1024 → n ≤ e.socket.length →
    e.request.conn.readBuffer.buffer.length + n ≤ vectorMaxSize → (S.step e (.read n)).isSome

/-! ## After `onDone_` -/

section

variable {σ : Type} {D : PopDerived σ} {s t : RequestRun σ} {o : Outcome} {errMsg : String}

theorem callDone_finished (hfin : s.finished = true) (errMsg : String) :
    s.callDone errMsg = s := if_pos hfin

theorem onRead_dones (hfin : s.finished = true) (ht : s.onRead D.toDerived errMsg = some t) :
    t.dones = s.dones := by
  have hcases := onRead_branches ht
  rw [cancelTimer_eq] at hcases
  rcases hcases with ⟨-, rfl⟩ | ⟨-, errMsg, finish, b, derived, -, ⟨-, rfl⟩ | ⟨-, -, rfl⟩⟩
  · rw [callDone_finished (by exact hfin)]
    rfl
  · rw [callDone_finished (by exact hfin)]
    rfl
  · rfl

theorem onWrite_dones (hfin : s.finished = true) (ht : s.onWrite D.toDerived errMsg = some t) :
    t.dones = s.dones := by
  rcases onWrite_branches ht with ⟨-, rfl⟩ | ⟨-, -, rfl⟩ | ⟨-, -, hread⟩
  · rw [callDone_finished (by exact hfin)]
    rfl
  · rfl
  · have hdones := onRead_dones (by exact hfin) hread
    exact hdones

/-- `Finish` does not call `onDone_` again. -/
theorem leave_dones (hfin : s.finished = true) (ht : s.leave D.toDerived o = some t) :
    t.dones = s.dones := by
  obtain ⟨c, _ | ⟨call, f⟩⟩ := o
  · cases ht
    rfl
  · cases call with
    | read h e =>
      exact onRead_dones (s := { s with conn := c, frames := .conn f :: s.frames }) hfin ht
    | write h e =>
      exact onWrite_dones (s := { s with conn := c, frames := .conn f :: s.frames }) hfin ht
    | finish e =>
      cases ht
      rfl

/-- `onDone_` has been called with `errMsg`, and the derived class was `d`. -/
structure Over (errMsg : String) (d : σ) (s : RequestRun σ) : Prop where
  finished : s.finished = true
  dones : s.dones = [errMsg]
  derived : errMsg = "" → s.derived = d
  ended : s.inserts = [] → RequestEnded errMsg s

theorem RequestEnded.over (hs : RequestEnded errMsg s) : Over errMsg s.derived s :=
  ⟨hs.finished, hs.dones, fun _ => rfl, fun _ => hs⟩

theorem Over.step {a : RequestAction} {d : σ} (hs : Over errMsg d s) (hopen : s.inserts = [])
    (hstep : s.step D.toDerived a = some t) : Over errMsg d t := by
  have hfin := (later_step hstep).finished hs.finished
  rcases (hs.ended hopen).step_cases hstep with ⟨fs, -, ht⟩ | ⟨timer, finish, alive, rfl, hended⟩
  · unfold RequestRun.insert at ht
    split at ht
    next hne =>
      have hdones := leave_dones (s := { s with frames := fs, inserts := errMsg :: s.inserts })
        hs.finished ht
      refine ⟨hfin, hdones.trans hs.dones, fun hempty => absurd hempty hne, fun hins => ?_⟩
      rw [(leave_left ht).2] at hins
      cases hins
    next =>
      cases ht
      exact ⟨hfin, hs.dones, hs.derived, fun hins => absurd hins (List.cons_ne_nil _ _)⟩
  · exact ⟨hfin, hs.dones, hs.derived, fun _ => hended⟩

end

/-! ## Until `onDone_` -/

/-- The bytes that the read callback is called for. -/
def Exchange.callbackBytes {σ : Type} (e : Exchange σ) : ExchangeAction → Option Bytes
  | .arrive _ => none
  | .read n => RequestAction.callbackBytes e.request (.readable (.bytes (e.socket.take n)))
  | .request b => b.callbackBytes e.request

/-- The request is not finished, and no byte that has arrived is lost. -/
structure Listening {σ : Type} (response : Bytes) (e : Exchange σ) : Prop where
  opened : RequestOpen e.request
  timer : TimerOk e.request
  counted : ReadCounted e.request.conn
  accounts : e.Accounts []
  arrived : e.arrived <+: response

/-- What a step does to a request that is not finished: no callback gets bytes, the read callback
gets the next bytes of the response, or the request fails. -/
inductive ListenStep {σ : Type} (D : Derived σ) (response : Bytes) (e : Exchange σ)
    (a : ExchangeAction) (e' : Exchange σ) : Prop
  | keeps (h : Listening response e') (hderived : e'.request.derived = e.request.derived)
      (hpopped : e'.popped = e.popped) (hcall : e.callbackBytes a = none)
      (hcalm : ∀ b, a = .request b → ¬ b.Fails e.request)
  | pops (b : Buffer) (r : String × Bool × Buffer × σ) (hok : b.Ok) (hsome : b.unread ≠ [])
      (hcall : e.callbackBytes a = some b.unread) (hsent : e.popped ++ b.unread <+: response)
      (hpop : D.respPop e.request.derived e.request.finish b = some r)
      (hderived : e'.request.derived = r.2.2.2)
      (hpopped : r.2.2.1.unread = [] → e'.popped = e.popped ++ b.unread)
      (hcases : (r.1 ≠ "" ∨ r.2.1 = true) ∧ RequestEnded r.1 e'.request ∨
        (r.1 = "" ∧ r.2.1 = false) ∧ (r.2.2.1.unread = [] → Listening response e'))
      (hcalm : ∀ b, a = .request b → ¬ b.Fails e.request)
  | fails (errMsg : String) (b : RequestAction) (hne : errMsg ≠ "")
      (hended : RequestEnded errMsg e'.request) (hpopped : e'.popped = e.popped)
      (hcall : e.callbackBytes a = none) (ha : a = .request b) (hfails : b.Fails e.request)
      (heof : b = .readable (.bytes []) → e.arrived = response ∧ e.socket = [])

section

variable {σ : Type} {D : PopDerived σ} {s t : RequestRun σ} {o : Outcome} {response : Bytes}
  {e e' : Exchange σ} {a : ExchangeAction}

/-- A callback that gets an error leaves the connection alone. -/
theorem leave_conn (herr : ∀ call f, o.pending = some (call, f) → call.errMsg ≠ "")
    (ht : s.leave D.toDerived o = some t) : t.conn = o.conn := by
  obtain ⟨c, _ | ⟨call, f⟩⟩ := o
  · cases ht
    rfl
  · have hne := herr call f rfl
    cases call with
    | read h errMsg =>
      rcases onRead_branches (s := { s with conn := c, frames := .conn f :: s.frames }) ht with
        ⟨-, rfl⟩ | ⟨hempty, -⟩
      · rw [cancelTimer_eq, callDone_conn]
        rfl
      · exact absurd hempty hne
    | write h errMsg =>
      rcases onWrite_branches (s := { s with conn := c, frames := .conn f :: s.frames }) ht with
        ⟨-, rfl⟩ | ⟨hempty, -⟩ | ⟨hempty, -⟩
      · rw [callDone_conn]
        rfl
      · exact absurd hempty hne
      · exact absurd hempty hne
    | finish errMsg =>
      cases ht
      rfl

/-- `Finish` with an error calls every handler with an error. -/
theorem finish_pending {errMsg : String} (hne : errMsg ≠ "") {c : TcpConnection} {call : Call}
    {f : Frame} (h : (c.finish errMsg).pending = some (call, f)) : call.errMsg ≠ "" := by
  cases hfin : c.finished with
  | true =>
    rw [TcpConnection.finish_finished errMsg hfin] at h
    cases h
  | false =>
    rcases TcpConnection.finish_cases errMsg hfin with ⟨k, -, heq⟩ | ⟨a, -, -, heq⟩
    · rw [heq] at h
      cases h
      exact (by decide : "Asyncer Canceled" ≠ "")
    · rw [heq] at h
      rcases TcpConnection.finishWrite_cases errMsg { c with finished := true, asyncer := a } with
        ⟨k, -, -, hwrite⟩ | ⟨-, htail⟩
      · rw [hwrite] at h
        cases h
        exact (by decide : "Finished" ≠ "")
      · rw [htail] at h
        cases h
        exact hne

theorem readFailed_pending {errMsg : String} (hne : errMsg ≠ "") {c : TcpConnection} {call : Call}
    {f : Frame} (h : (c.readFailed errMsg).pending = some (call, f)) : call.errMsg ≠ "" := by
  unfold readFailed at h
  split at h
  next =>
    cases h
    exact hne
  next => exact finish_pending hne h

/-- The request fails without a look at the bytes. -/
theorem failed_readBuffer {b : RequestAction} (hstep : s.step D.toDerived b = some t)
    (hfails : b.Fails s) : t.conn.readBuffer = s.conn.readBuffer := by
  have hfailed : ∀ {errMsg : String}, errMsg ≠ "" →
      s.leave D.toDerived (s.conn.readFailed errMsg) = some t →
      t.conn.readBuffer = s.conn.readBuffer := by
    intro errMsg hne ht
    rw [leave_conn (fun _ _ => readFailed_pending hne) ht]
    exact readFailed_readBuffer errMsg s.conn
  cases b with
  | readable r =>
    obtain ⟨-, ho⟩ := Option.ite_none_right_eq_some.mp hstep
    obtain ⟨o, ho, ht⟩ := Option.bind_eq_some_iff.mp ho
    cases r with
    | eagain => exact hfails.elim
    | error strerror =>
      rw [readHandler_error] at ho
      cases ho
      exact hfailed (by simp [Socket.formatErrMsg]) ht
    | bytes bs =>
      cases (show bs = [] from hfails)
      rw [readHandler_eof] at ho
      cases ho
      exact hfailed (by decide) ht
  | writable r =>
    obtain ⟨-, ho⟩ := Option.ite_none_right_eq_some.mp hstep
    obtain ⟨⟨o, sent⟩, ho, ht⟩ := Option.bind_eq_some_iff.mp ho
    cases r with
    | count n | eagain => exact hfails.elim
    | error e =>
      rcases writeHandler_sends hfails ho with ⟨e, h, b, errMsg, -, -, hne, rfl⟩ | ⟨hno, -⟩
      · rw [leave_conn (fun _ _ h => by cases h; exact hne) ht]
      · exact absurd rfl (hno e)
  | expire now =>
    obtain ⟨-, ho⟩ := Option.ite_none_right_eq_some.mp hstep
    obtain ⟨⟨timer, calls⟩, -, rfl⟩ := Option.map_eq_some_iff.mp ho
    rw [(foldl_onTimer_conn calls { s with timer := some timer }).1]
  | deliver | timerDeliver | resume | destroy | stack => exact hfails.elim

/-- A step that fails is none in which the read callback gets bytes. -/
theorem RequestAction.Fails.callbackBytes {b : RequestAction} (h : b.Fails s) :
    b.callbackBytes s = none := by
  cases b with
  | readable r =>
    cases r with
    | bytes bs => exact if_neg fun hc => hc.1 h
    | eagain | error e => rfl
  | writable r =>
    cases r with
    | error e => exact if_neg fun hc => h hc.1
    | count n | eagain => exact h.elim
  | expire now => rfl
  | deliver | timerDeliver | resume | destroy | stack => exact h.elim

/-- A step of the request. -/
theorem Listening.step_request (h : Listening response e) {b : RequestAction}
    {socket : List UInt8} (hb : e.request.step D.toDerived b = some t)
    (hsocket : e.socket = b.bytes ++ socket)
    (hcall : e.callbackBytes a = b.callbackBytes e.request)
    (heof : b = .readable (.bytes []) → e.arrived = response ∧ e.socket = [])
    (ha : a = .request b ∨ (∀ b, a ≠ .request b) ∧ ¬ b.Fails e.request) :
    ListenStep D.toDerived response e a { e with
      request := t
      socket := socket
      popped := e.popped ++
        Exchange.taken (e.request.conn.readBuffer.unread ++ b.bytes) t } := by
  have haccounts := h.accounts.step_request h.opened.inserts hb hsocket
  have hsound := (RequestSound.mk h.timer fun _ => h.opened).step hb
  have hnext := h.opened.step h.timer hb
  have hcalm : ¬ b.Fails e.request → ∀ c, a = .request c → ¬ c.Fails e.request := by
    rintro hfails c rfl
    rcases ha with ha | ⟨ha, -⟩
    · cases ha
      exact hfails
    · exact absurd rfl (ha c)
  have hsent : e.popped ++ (e.request.conn.readBuffer.unread ++ b.bytes) <+: response := by
    obtain ⟨-, hall⟩ := h.accounts.held h.opened.inserts
    refine List.IsPrefix.trans ⟨socket, ?_⟩ h.arrived
    rw [hsocket, List.nil_append] at hall
    rw [← hall]
    simp only [List.append_assoc]
  cases h.opened.turn h.timer h.counted hb with
  | keeps hfinished hderived hcounted hunread hfails hquiet =>
    have hopen := hsound.opened hfinished
    have hnothing : e.request.conn.readBuffer.unread ++ b.bytes = [] ++ t.conn.readBuffer.unread :=
      hunread.symm
    have htaken := Exchange.taken_eq hopen.inserts hnothing
    refine .keeps ⟨hopen, hsound.timer, hcounted, haccounts, h.arrived⟩ hderived ?_
      (hcall.trans hquiet) (hcalm hfails)
    simp only [htaken, List.append_nil]
  | pops b' r hok hunread hsome hpop hderived hbuffer hwaits hfinished hdones hfails hcalls =>
    have hpopped : t.inserts = [] → r.2.2.1.unread = [] →
        Exchange.taken (e.request.conn.readBuffer.unread ++ b.bytes) t = b'.unread := by
      intro hins hempty
      refine Exchange.taken_eq hins ?_
      rw [hbuffer, hempty, List.append_nil, hunread]
    rw [← hunread] at hsent
    cases hend : t.finished with
    | true =>
      obtain ⟨errMsg, hended⟩ : ∃ errMsg, RequestEnded errMsg t := by
        cases hnext with
        | goesOn hopen | popped hopen => cases hopen.unfinished.symm.trans hend
        | ended errMsg hended => exact ⟨errMsg, hended⟩
      obtain rfl : errMsg = r.1 := (List.cons.inj (hended.dones.symm.trans (hdones hend))).1
      refine .pops b' r hok hsome (hcall.trans hcalls) hsent hpop hderived (fun hempty => ?_)
        (.inl ⟨hfinished.mp hend, hended⟩) (hcalm hfails)
      simp only [hpopped hended.inserts hempty]
    | false =>
      have hopen := hsound.opened hend
      refine .pops b' r hok hsome (hcall.trans hcalls) hsent hpop hderived (fun hempty => ?_)
        (.inr ⟨?_, fun hempty => ?_⟩) (hcalm hfails)
      · simp only [hpopped hopen.inserts hempty]
      · rw [← Bool.not_eq_true, hfinished, not_or, not_not, Bool.not_eq_true] at hend
        exact hend
      · refine ⟨hopen, hsound.timer, ⟨(haccounts.held hopen.inserts).1, fun hc => absurd hc hwaits,
          fun _ => ?_⟩, haccounts, h.arrived⟩
        rw [hbuffer]
        exact hempty
  | fails errMsg hne hended hfails =>
    rcases ha with rfl | ⟨-, hno⟩
    · have hnone : b.bytes = [] := by
        cases b with
        | readable r =>
          cases r with
          | bytes bs => exact hfails
          | eagain | error e => rfl
        | _ => rfl
      refine .fails errMsg b hne hended ?_ (hcall.trans hfails.callbackBytes) rfl hfails heof
      have hsame : e.request.conn.readBuffer.unread ++ b.bytes =
          [] ++ t.conn.readBuffer.unread := by
        rw [hnone, List.append_nil, failed_readBuffer hb hfails, List.nil_append]
      simp only [Exchange.taken_eq hended.inserts hsame, List.append_nil]
    · exact absurd hfails hno

/-- A step of the exchange. -/
theorem Listening.step {init : Exchange σ} (h : Listening response e)
    (hstep : (served D.toDerived response init).step e a = some e') :
    ListenStep D.toDerived response e a e' := by
  obtain ⟨hsent, hstep⟩ := Option.ite_none_right_eq_some.mp hstep
  have haccounts := h.accounts.step hstep
  unfold Exchange.step at hstep
  rw [if_neg (not_not_intro h.opened.inserts)] at hstep
  cases a with
  | arrive bs =>
    cases hstep
    exact .keeps ⟨h.opened, h.timer, h.counted, haccounts, hsent⟩ rfl rfl rfl nofun
  | read n =>
    obtain ⟨⟨hpos, -, hle⟩, hstep⟩ := Option.ite_none_right_eq_some.mp hstep
    obtain ⟨t, hb, rfl⟩ := Option.map_eq_some_iff.mp hstep
    have hne : e.socket.take n ≠ [] :=
      List.ne_nil_of_length_pos (by rw [List.length_take, Nat.min_eq_left hle]; exact hpos)
    refine h.step_request hb (List.take_append_drop n e.socket).symm rfl (fun heof => ?_)
      (.inr ⟨nofun, hne⟩)
    exact absurd (SysRead.bytes.inj (RequestAction.readable.inj heof)) hne
  | request b =>
    obtain ⟨hoffered, hstep⟩ := Option.ite_none_right_eq_some.mp hstep
    obtain ⟨t, hb, rfl⟩ := Option.map_eq_some_iff.mp hstep
    have hnone := hoffered.bytes
    have hsocket : e.socket = b.bytes ++ e.socket := by rw [hnone]; rfl
    have hgoal := h.step_request (a := .request b) hb hsocket rfl
      (by rintro rfl; exact ⟨hsent, hoffered.2⟩) (.inl rfl)
    rwa [hnone, List.append_nil] at hgoal

/-- `doReq` on a connection that has read nothing. -/
theorem Listening.start {D : Derived σ} {timeoutMs : UInt64} {conn : TcpConnection} {derived : σ}
    {finish : Bool} (hconn : Pooled conn) (hfresh : Fresh conn)
    (hs : doReq D .new timeoutMs conn derived finish = some s) :
    ∃ r, D.reqPush derived conn.writeBuffer = some r ∧ s.derived = r.2.2 ∧
      (r.1 = "" ∧ Listening response (.start s []) ∧ Wired s.conn ∨
        r.1 ≠ "" ∧ RequestEnded r.1 s) := by
  obtain ⟨htimer, hcases⟩ := doReq_cases hconn hs
  obtain ⟨⟨errMsg, b, derived'⟩, hpush, hs⟩ := Option.bind_eq_some_iff.mp hs
  refine ⟨_, hpush, ?_⟩
  simp only at hs
  split at hs
  next hne =>
    cases hs
    rcases hcases with ⟨hopen, -⟩ | ⟨e, hended, -⟩
    · cases hopen.dones
    · obtain rfl : errMsg = e := (List.cons.inj hended.dones).1
      exact ⟨rfl, .inr ⟨hne, hended⟩⟩
  next hempty =>
    obtain ⟨o, ho, hs⟩ := Option.bind_eq_some_iff.mp hs
    rw [startTimer_eq] at hs
    rcases asyncWrite_cases ho with ⟨hfin, -⟩ | ⟨-, old, hold, -⟩ | ⟨-, -, rfl⟩
    · exact absurd (hfresh.opened.symm.trans hfin) nofun
    · exact absurd (hconn.undelivered.symm.trans hold) nofun
    · cases hs
      refine ⟨rfl, .inl ⟨not_not.mp hempty, ?_, ⟨hfresh.event, true, rfl⟩⟩⟩
      rcases hcases with ⟨hopen, -⟩ | ⟨e, hended, -⟩
      · refine ⟨hopen, htimer, ⟨hfresh.ok, fun _ => ?_, fun _ => hfresh.unread⟩,
          ⟨⟨[], rfl⟩, fun _ => ⟨hfresh.ok, ?_⟩⟩, List.nil_prefix⟩
        · show conn.readedSize.toNat = conn.readBuffer.unread.length
          rw [hfresh.readedSize, hfresh.unread]
          rfl
        · show [] ++ conn.readBuffer.unread ++ [] = _
          rw [hfresh.unread]
          rfl
      · cases hended.finished

/-- What a step leaves once `onDone_` has been called: no byte is popped, and `Insert` gets the same
error. -/
theorem Over.step_rest {errMsg : String} {d : σ} {b : RequestAction} (hs : Over errMsg d s)
    (hopen : s.inserts = []) (hstep : s.step D.toDerived b = some t) :
    Exchange.taken (s.conn.readBuffer.unread ++ b.bytes) t = [] ∧ ∀ m ∈ t.inserts, m = errMsg := by
  have hended := hs.ended hopen
  obtain ⟨fs, hframes, -⟩ := hended.frames
  rcases hended.step_cases hstep with ⟨fs, -, ht⟩ | ⟨timer, finish, alive, rfl, -⟩
  · have hins : t.inserts = [errMsg] := by
      unfold RequestRun.insert at ht
      split at ht
      next =>
        rw [(leave_left ht).2]
        exact congrArg (errMsg :: ·) hopen
      next =>
        cases ht
        exact congrArg (errMsg :: ·) hopen
    rw [hins]
    refine ⟨if_neg ?_, fun m hm => List.mem_singleton.mp hm⟩
    rw [hins]
    exact List.cons_ne_nil _ _
  · have hnone : b.bytes = [] := by
      cases b with
      | readable r =>
        obtain ⟨⟨hnil, -⟩, -⟩ := Option.ite_none_right_eq_some.mp hstep
        rw [hframes] at hnil
        cases hnil
      | _ => rfl
    refine ⟨Exchange.taken_eq hopen ?_, fun m hm => ?_⟩
    · rw [hnone, List.append_nil]
      rfl
    · rw [show s.inserts = [] from hopen] at hm
      cases hm

/-- A step of the exchange after `onDone_`. -/
theorem Over.step_served {errMsg : String} {d : σ} {e e' init : Exchange σ} {a : ExchangeAction}
    (hs : Over errMsg d e.request)
    (hstep : (served D.toDerived response init).step e a = some e') :
    Over errMsg d e'.request ∧ e'.popped = e.popped ∧ ∀ m ∈ e'.request.inserts, m = errMsg := by
  obtain ⟨hopen, hcases⟩ := exchange_step (Option.ite_none_right_eq_some.mp hstep).2
  cases hcases with
  | arrives bs ha he =>
    rw [he]
    exact ⟨hs, rfl, fun m hm => absurd (hopen ▸ hm) List.not_mem_nil⟩
  | runs b t socket hb hsocket ha he =>
    obtain ⟨hnone, hinserts⟩ := hs.step_rest hopen hb
    rw [he]
    refine ⟨hs.step hopen hb, ?_, hinserts⟩
    simp only [hnone, List.append_nil]

/-! ## Reading goes on -/

theorem onRead_isSome {errMsg : String}
    (hpop : (D.respPop s.derived s.finish s.conn.readBuffer).isSome) :
    (s.onRead D.toDerived errMsg).isSome := by
  unfold onRead
  split
  next => rfl
  next => rwa [Option.isSome_map]

/-- The callbacks throw nothing if `RespPop` does not. -/
theorem leave_isSome (hpop : (D.respPop s.derived s.finish o.conn.readBuffer).isSome) :
    (s.leave D.toDerived o).isSome := by
  obtain ⟨c, _ | ⟨call, f⟩⟩ := o
  · rfl
  · cases call with
    | read h errMsg => exact onRead_isSome hpop
    | write h errMsg =>
      show (onWrite D.toDerived errMsg { s with conn := c, frames := .conn f :: s.frames }).isSome
      unfold onWrite asyncReadAny
      split
      next => rfl
      next =>
        by_cases hsize : c.readedSize ≠ 0
        · rw [if_pos hsize]
          exact onRead_isSome hpop
        · rw [if_neg hsize]
          rfl
    | finish errMsg => rfl

/-- The read event stays on until the request is finished. -/
theorem Listening.wired (h : Listening response e) (hwired : Wired e.request.conn)
    {init : Exchange σ} {as : List ExchangeAction}
    (hrun : (served D.toDerived response init).run e as = some e')
    (hopen : e'.request.finished = false) : Wired e'.request.conn := by
  have hany : (served D.toDerived response init).AllSteps (fun _ _ => True) e as :=
    System.AllSteps.trivial
  have hall := hany.allStates
    (P := fun e => RequestSound e.request ∧ (e.request.finished = false → Wired e.request.conn))
    ⟨⟨h.timer, fun _ => h.opened⟩, fun _ => hwired⟩ fun e₁ a e₂ hsound _ hstep => ?_
  · exact (hall.last hrun).2 hopen
  · obtain ⟨-, hcases⟩ := exchange_step (Option.ite_none_right_eq_some.mp hstep).2
    cases hcases with
    | arrives bs ha he =>
      rw [he]
      exact hsound
    | runs b t socket hb hsocket ha he =>
      rw [he]
      refine ⟨hsound.1.step hb, fun hopen => ?_⟩
      have hbefore : e₁.request.finished = false := by
        cases hfin : e₁.request.finished with
        | false => rfl
        | true => exact absurd (((later_step hb).finished hfin).symm.trans hopen) nofun
      exact (hsound.1.opened hbefore).wired (hsound.2 hbefore) hb

/-- The loop reads what comes next, for which the buffer has room. -/
theorem readable_isSome {r : SysRead} (hframes : s.frames = []) (hwired : Wired s.conn)
    (hok : s.conn.readBuffer.Ok)
    (hroom : ∀ bs, r = .bytes bs → s.conn.readBuffer.buffer.length + bs.length ≤ vectorMaxSize)
    (hpop : ∀ b : Buffer, b.Ok →
      b.unread = s.conn.readBuffer.unread ++ RequestAction.bytes (.readable r) →
      (D.respPop s.derived s.finish b).isSome) :
    (s.step D.toDerived (.readable r)).isSome := by
  obtain ⟨writeNotify, hevent⟩ := hwired.event
  have hnotify : s.conn.event.any (·.readNotify) = true := by rw [hevent]; rfl
  obtain ⟨o, ho⟩ : ∃ o, s.conn.readHandler r = some o := by
    cases r with
    | eagain => exact ⟨_, rfl⟩
    | error strerror => exact ⟨_, readHandler_error strerror s.conn⟩
    | bytes bs =>
      by_cases hne : bs = []
      · exact ⟨_, hne ▸ readHandler_eof s.conn⟩
      · refine Option.isSome_iff_exists.mp ?_
        rw [readHandler_bytes (List.length_pos_of_ne_nil hne), Option.isSome_map, Buffer.write,
          if_neg (Nat.not_lt.mpr (hroom bs rfl))]
        rfl
  obtain ⟨hafter, hunread⟩ := (ConnStep.readable hframes ho).readBuffer hok
  show (if s.frames = [] ∧ _ then _ else none : Option (RequestRun σ)).isSome
  rw [if_pos ⟨hframes, hnotify⟩, ho]
  exact leave_isSome (hpop o.conn.readBuffer hafter hunread)

/-- A request that is not finished does not get stuck if `RespPop` takes the next bytes of the
response. -/
theorem Listening.goes_on (h : Listening response e) (hwired : Wired e.request.conn)
    (hpop : ∀ b : Buffer, b.Ok → e.popped ++ b.unread <+: response →
      (D.respPop e.request.derived e.request.finish b).isSome) (init : Exchange σ) :
    GoesOn (served D.toDerived response init) response e := by
  have hins : ¬ e.request.inserts ≠ [] := not_not_intro h.opened.inserts
  obtain ⟨-, hall⟩ := h.accounts.held h.opened.inserts
  have hnext : ∀ {bs socket : Bytes}, bs ++ socket = e.socket → ∀ b : Buffer, b.Ok →
      b.unread = e.request.conn.readBuffer.unread ++ bs →
      (D.respPop e.request.derived e.request.finish b).isSome := by
    intro bs socket hsocket b hok hunread
    refine hpop b hok (List.IsPrefix.trans ⟨socket, ?_⟩ h.arrived)
    rw [hunread, ← List.append_assoc, List.append_assoc, hsocket]
    exact hall
  refine ⟨fun hframes => ?_, fun hframes harrived hsocket => ?_,
    fun n hframes hpos hmax hle hroom => ?_⟩
  · obtain ⟨f, fs, hfs⟩ := List.exists_cons_of_ne_nil hframes
    have hf := h.opened.frames f (hfs ▸ List.mem_cons_self)
    have hresume : (e.request.step D.toDerived .resume).isSome := by
      unfold RequestRun.step
      rw [hfs, hf]
      rfl
    rw [served_step (by exact True.intro)]
    unfold Exchange.step
    rw [if_neg hins]
    simpa [RequestAction.Offered] using hresume
  · have hread := readable_isSome (r := .bytes []) hframes hwired h.counted.ok (by
      rintro bs ⟨⟩
      exact h.counted.ok.size_le) (hnext (List.nil_append _))
    rw [served_step (by exact harrived)]
    unfold Exchange.step
    rw [if_neg hins]
    simpa [RequestAction.Offered, hsocket, ExchangeAction.eof] using hread
  · have hread := readable_isSome (r := .bytes (e.socket.take n)) hframes hwired h.counted.ok (by
      rintro bs ⟨⟩
      rw [List.length_take, Nat.min_eq_left hle]
      exact hroom) (hnext (List.take_append_drop n e.socket))
    rw [served_step (by exact True.intro)]
    unfold Exchange.step
    rw [if_neg hins]
    simpa [hpos, hmax, hle] using hread

end

end Sheep
