import Sheep.Lib.System
import Sheep.Net.TcpConnection

/-!
# `AsyncRead` and `AsyncReadAny`

`reads` is a connection whose user issues one read request after the other, a new one only after
the handler of the last one was called, while chunks arrive and `ReadBufferPopHead` takes bytes
out at any time.

`ReadLaw` is the contract: a handler is called at the first moment the unread bytes suffice, and
a handler given to `AsyncRead` is called at most once. The code breaks it in three ways.

* `ResetRead` sets `readedSize_` to zero although bytes stay in the buffer.
* `ReadBufferPopHead` takes bytes out and leaves `readedSize_` as it is.
* `readHandler` calls `userReadHandler_` and keeps it.

So `readedSize_` is the number of the bytes that arrived since the last handler call, modulo 2^64,
while the unread bytes are these and the ones that were left at that call, less those popped since
(`ReadInv.counted`, `ReadInv.balance`). `readLaw_iff`: a run keeps the law exactly when the two
numbers are never on different sides of the size that a request asks for, and no chunk arrives
without a request while the last handler that the connection took is one of `AsyncRead`.
-/

namespace Sheep

inductive ReadRequest
  | asyncRead (expectSize : UInt64)
  | asyncReadAny
  deriving DecidableEq, Repr

/-- The number of unread bytes that a request waits for. -/
def ReadRequest.need : ReadRequest → Nat
  | .asyncRead expectSize => expectSize.toNat
  | .asyncReadAny => 1

/-- A call of a read handler, with the number of unread bytes at the call. -/
structure ReadCall where
  handler : Handler
  errMsg : String
  unread : Nat
  deriving DecidableEq, Repr

/-- The handler of a request is named by the number of the request. -/
structure ReadRun where
  conn : TcpConnection
  /-- ghost: the requests issued -/
  requests : List ReadRequest
  /-- ghost: the handler that has not been called yet -/
  waiting : Option Handler
  /-- ghost: the handler calls, the latest first -/
  calls : List ReadCall
  /-- ghost: the bytes that arrived since the last handler call -/
  arrived : Nat
  /-- ghost: the bytes popped since the last handler call -/
  popped : Nat
  /-- ghost: the last request that had to wait or was an `AsyncReadAny` -/
  taken : Option ReadRequest
  deriving DecidableEq, Repr

inductive ReadAction
  | chunk (buf : List UInt8)
  | popHead (len : UInt64)
  | asyncRead (expectSize : UInt64)
  | asyncReadAny
  deriving DecidableEq, Repr

namespace ReadRun

def init : ReadRun := ⟨.connected, [], none, [], 0, 0, none⟩

def unread (s : ReadRun) : Nat := s.conn.readBuffer.unread.length

/-- The bytes that were unread at the last handler call. -/
def left (s : ReadRun) : Nat :=
  match s.calls with
  | [] => 0
  | r :: _ => r.unread

/-- Control leaves a method of the connection. A handler that is called no longer waits. -/
def leave (s : ReadRun) (o : Outcome) : ReadRun :=
  match o.pending with
  | some (.read h errMsg, _) =>
    { s with
      conn := o.conn
      waiting := s.waiting.filter (· ≠ h)
      calls := ⟨h, errMsg, o.conn.readBuffer.unread.length⟩ :: s.calls
      arrived := 0
      popped := 0 }
  | _ => { s with conn := o.conn }

/-- A request is issued: its handler gets the next number. -/
def issue (s : ReadRun) (r : ReadRequest) : ReadRun :=
  { s with requests := s.requests ++ [r], waiting := some s.requests.length }

/-- The connection takes the handler of a request, unless an `AsyncRead` calls it at once. -/
def take (s : ReadRun) (r : ReadRequest) : ReadRun :=
  { s with taken := if s.waiting = none ∧ r ≠ .asyncReadAny then s.taken else some r }

/-- `readHandler` reads at most 1024 bytes at a time, and none only at the end of the stream. -/
def step (s : ReadRun) : ReadAction → Option ReadRun
  | .chunk buf =>
    if 1 ≤ buf.length ∧ buf.length ≤ 1024 then
      (s.conn.readHandler (.bytes buf)).map { s with arrived := s.arrived + buf.length }.leave
    else none
  | .popHead len => (s.conn.readBufferPopHead len).map fun (_, bytes, c) =>
    { s with conn := c, popped := s.popped + bytes.length }
  | .asyncRead n =>
    if s.waiting = none ∧ 1 ≤ n.toNat then
      let s' := (s.issue (.asyncRead n)).leave (s.conn.asyncRead n s.requests.length)
      some (s'.take (.asyncRead n))
    else none
  | .asyncReadAny =>
    if s.waiting = none then
      let s' := (s.issue .asyncReadAny).leave (s.conn.asyncReadAny s.requests.length)
      some (s'.take .asyncReadAny)
    else none

/-- How often a handler was called. -/
def callCount (s : ReadRun) (h : Handler) : Nat := s.calls.countP (·.handler = h)

end ReadRun

/-- A connection that is read from. -/
def reads : System ReadRun ReadAction := ⟨.init, ReadRun.step⟩

/-- The contract of the read side. -/
structure ReadLaw (s : ReadRun) : Prop where
  /-- a handler is called with the empty error, and only when the unread bytes suffice -/
  notBefore : ∀ r ∈ s.calls, r.errMsg = "" ∧
    ∀ q, s.requests[r.handler]? = some q → q.need ≤ r.unread
  /-- while a handler waits the unread bytes do not suffice -/
  notAfter : ∀ h, s.waiting = some h → ∀ q, s.requests[h]? = some q → s.unread < q.need
  /-- a handler given to `AsyncRead` is called at most once -/
  once : ∀ h n, s.requests[h]? = some (.asyncRead n) → s.callCount h ≤ 1

/-- With `more` bytes that are arriving, the bytes that arrived since the last handler call suffice
for `n`, as a 64-bit counter has them, exactly if all the bytes do that were not popped. -/
def ReadRun.Counts (s : ReadRun) (n more : Nat) : Prop :=
  n ≤ (s.arrived + more) % 2 ^ 64 ↔ n + s.popped ≤ s.left + s.arrived + more

/-- The condition on a step: what arrived since the last handler call and what is there are on the
same side of the size asked for, and a chunk that no request waits for finds that the last handler
taken is not one of `AsyncRead`. -/
def ArrivedSuffices (s : ReadRun) : ReadAction → Prop
  | .asyncRead n => s.Counts n.toNat 0
  | .asyncReadAny => s.Counts 1 0
  | .popHead _ => True
  | .chunk buf =>
    match s.waiting with
    | some h => ∀ n, s.requests[h]? = some (.asyncRead n) → s.Counts n.toNat buf.length
    | none => ∀ n, s.taken ≠ some (.asyncRead n)

/-! ## The invariant -/

/-- What the connection remembers of a request that waits. -/
def ReadRequest.Kept (c : TcpConnection) : ReadRequest → Prop
  | .asyncRead n => c.anyFlag = false ∧ c.expectSize = n
  | .asyncReadAny => c.anyFlag = true

/-- What holds in every state, whether the law does or not. -/
structure ReadInv (s : ReadRun) : Prop where
  ok : s.conn.readBuffer.Ok
  waits : ∀ h, s.waiting = some h → s.conn.userReadHandler = some h ∧ s.callCount h = 0 ∧
    ∃ q, s.requests[h]? = some q ∧ q.Kept s.conn
  idle : s.waiting = none → s.conn.expectSize = 0 ∧
    ∀ h, s.conn.userReadHandler = some h → 1 ≤ s.callCount h
  kept : ∀ h, s.conn.userReadHandler = some h → h < s.requests.length
  taken : s.taken = s.conn.userReadHandler.bind (s.requests[·]?)
  called : ∀ r ∈ s.calls, r.handler < s.requests.length
  /-- `readedSize_` counts the bytes since the last handler call -/
  counted : s.conn.readedSize.toNat = s.arrived % 2 ^ 64
  balance : s.unread + s.popped = s.left + s.arrived

namespace ReadRun

variable {s t : ReadRun} {h : Handler} {o : Outcome}

/-- A handler that has no number yet was never called. -/
theorem callCount_fresh (hcalled : ∀ r ∈ s.calls, r.handler < s.requests.length)
    (hh : s.requests.length ≤ h) : s.callCount h = 0 := by
  refine List.countP_eq_zero.mpr fun r hr => ?_
  have hlt := hcalled r hr
  simp only [decide_eq_true_eq]
  rintro rfl
  exact absurd hlt (Nat.not_lt.mpr hh)

theorem callCount_cons {r : ReadCall} (hcalls : t.calls = r :: s.calls) (h : Handler) :
    t.callCount h = s.callCount h + if r.handler = h then 1 else 0 := by
  unfold callCount
  rw [hcalls, List.countP_cons]
  simp only [decide_eq_true_eq]

end ReadRun

namespace ReadLaw

variable {s t : ReadRun}

/-- A state that differs in the waiting request and the unread bytes. -/
theorem wait_iff (hs : ReadLaw s) (hinv : ReadInv s)
    (hreq : ∀ k, k < s.requests.length → t.requests[k]? = s.requests[k]?)
    (hcalls : t.calls = s.calls) :
    ReadLaw t ↔ ∀ h, t.waiting = some h → ∀ q, t.requests[h]? = some q → t.unread < q.need := by
  refine ⟨fun ht => ht.notAfter, fun hafter => ⟨?_, hafter, ?_⟩⟩
  · intro r hr
    rw [hcalls] at hr
    rw [hreq _ (hinv.called r hr)]
    exact hs.notBefore r hr
  · intro h n hq
    have hcount : t.callCount h = s.callCount h := by unfold ReadRun.callCount; rw [hcalls]
    rw [hcount]
    rcases Nat.lt_or_ge h s.requests.length with hlt | hge
    · exact hs.once h n (hreq h hlt ▸ hq)
    · rw [ReadRun.callCount_fresh hinv.called hge]
      exact Nat.zero_le 1

/-- A handler is called: the unread bytes have to suffice, and a handler of `AsyncRead` must not
have been called before. -/
theorem call_iff {h u : Nat} (hs : ReadLaw s) (hinv : ReadInv s)
    (hreq : ∀ k, k < s.requests.length → t.requests[k]? = s.requests[k]?)
    (hwait : t.waiting = none) (hcalls : t.calls = ⟨h, "", u⟩ :: s.calls) :
    ReadLaw t ↔ (∀ q, t.requests[h]? = some q → q.need ≤ u) ∧
      ∀ n, t.requests[h]? = some (.asyncRead n) → s.callCount h = 0 := by
  have hcount := ReadRun.callCount_cons hcalls
  constructor
  · intro ht
    refine ⟨(ht.notBefore ⟨h, "", u⟩ (hcalls ▸ List.mem_cons_self)).2, fun n hn => ?_⟩
    have honce := ht.once h n hn
    rw [hcount, if_pos rfl] at honce
    exact Nat.le_zero.mp (Nat.le_of_succ_le_succ honce)
  · rintro ⟨hneed, hfirst⟩
    refine ⟨?_, by simp [hwait], ?_⟩
    · intro r hr
      rw [hcalls] at hr
      rcases List.mem_cons.mp hr with rfl | hr
      · exact ⟨rfl, hneed⟩
      · rw [hreq _ (hinv.called r hr)]
        exact hs.notBefore r hr
    · intro k n hk
      rw [hcount]
      split
      next heq =>
        obtain rfl : h = k := heq
        exact Nat.le_of_eq (congrArg (· + 1) (hfirst n hk))
      next =>
        rcases Nat.lt_or_ge k s.requests.length with hlt | hge
        · exact hs.once k n (hreq k hlt ▸ hk)
        · rw [ReadRun.callCount_fresh hinv.called hge]
          exact Nat.zero_le 1

end ReadLaw

/-! ## The steps -/

namespace ReadRun

variable {s t : ReadRun}

/-- A handler call starts the counts anew. -/
structure CountsAnew (t : ReadRun) : Prop where
  readedSize : t.conn.readedSize = 0
  arrived : t.arrived = 0
  popped : t.popped = 0

/-- What a chunk does: the bytes are appended, and then the handler that is kept is called or
not. -/
theorem chunk_cases {buf : List UInt8} (hok : s.conn.readBuffer.Ok)
    (hstep : s.step (.chunk buf) = some t) :
    1 ≤ buf.length ∧ t.requests = s.requests ∧ t.conn.readBuffer.Ok ∧
      t.unread = s.unread + buf.length ∧ t.conn.userReadHandler = s.conn.userReadHandler ∧
      t.taken = s.taken ∧ t.conn.anyFlag = s.conn.anyFlag ∧
      ((∃ h, s.conn.userReadHandler = some h ∧
          (s.conn.anyFlag = true ∨
            s.conn.expectSize ≤ s.conn.readedSize + toUInt64 buf.length) ∧
          t.conn.expectSize = 0 ∧ t.waiting = s.waiting.filter (· ≠ h) ∧
          t.calls = ⟨h, "", t.unread⟩ :: s.calls ∧ t.CountsAnew) ∨
        ((∀ h, s.conn.userReadHandler = some h → s.conn.anyFlag = false ∧
            ¬ s.conn.expectSize ≤ s.conn.readedSize + toUInt64 buf.length) ∧
          t.conn.expectSize = s.conn.expectSize ∧ t.waiting = s.waiting ∧ t.calls = s.calls ∧
          t.conn.readedSize = s.conn.readedSize + toUInt64 buf.length ∧
          t.arrived = s.arrived + buf.length ∧ t.popped = s.popped)) := by
  simp only [step] at hstep
  split at hstep
  next hlen =>
    rw [TcpConnection.readHandler_bytes hlen.1, Option.map_map] at hstep
    obtain ⟨b, hwrite, rfl⟩ := Option.map_eq_some_iff.mp hstep
    obtain ⟨hb, hun⟩ := Buffer.write_spec hok hwrite
    have hlength : b.unread.length = s.unread + buf.length := by
      rw [hun, List.length_append]
      rfl
    refine ⟨hlen.1, ?_⟩
    rcases TcpConnection.readDone_cases { s.conn with
        readBuffer := b, readedSize := s.conn.readedSize + toUInt64 buf.length } with
      ⟨h, hkept, hdo, hdone⟩ | ⟨hdo, hdone⟩
    · rw [Function.comp_apply, hdone]
      exact ⟨rfl, hb, hlength, rfl, rfl, rfl, .inl ⟨h, hkept, hdo, rfl, rfl, rfl, rfl, rfl, rfl⟩⟩
    · rw [Function.comp_apply, hdone]
      exact ⟨rfl, hb, hlength, rfl, rfl, rfl, .inr ⟨hdo, rfl, rfl, rfl, rfl, rfl, rfl⟩⟩
  next => cases hstep

theorem popHead_cases {len : UInt64} (hok : s.conn.readBuffer.Ok)
    (hstep : s.step (.popHead len) = some t) :
    ∃ (b : Buffer) (n : Nat), b.Ok ∧ b.unread.length + n = s.unread ∧
      t = { s with conn := { s.conn with readBuffer := b }, popped := s.popped + n } := by
  obtain ⟨⟨n, bytes, c⟩, hconn, rfl⟩ := Option.map_eq_some_iff.mp hstep
  obtain ⟨⟨m, bs, b⟩, hpop, hc⟩ := Option.map_eq_some_iff.mp hconn
  cases hc
  obtain ⟨hbytes, hb, hun⟩ := Buffer.popHead_some hok hpop
  refine ⟨b, bytes.length, hb, ?_, rfl⟩
  rw [hun, hbytes, Nat.add_comm, ← List.length_append, List.take_append_drop]
  rfl

/-- The new request is called at once, or it waits. In the first case the connection takes its
handler or keeps the old one. -/
structure Requests (s t : ReadRun) (q : ReadRequest) (enough : Prop) : Prop where
  idle : s.waiting = none
  requests : t.requests = s.requests ++ [q]
  buffer : t.conn.readBuffer = s.conn.readBuffer
  outcome :
    (enough ∧ t.waiting = none ∧ t.conn.expectSize = 0 ∧
        t.calls = ⟨s.requests.length, "", s.unread⟩ :: s.calls ∧ t.CountsAnew ∧
        ((t.conn.userReadHandler = s.conn.userReadHandler ∧ t.taken = s.taken) ∨
          (t.conn.userReadHandler = some s.requests.length ∧ t.taken = some q))) ∨
      (¬ enough ∧ t.waiting = some s.requests.length ∧ t.calls = s.calls ∧
        t.conn.userReadHandler = some s.requests.length ∧ t.taken = some q ∧ q.Kept t.conn ∧
        t.conn.readedSize = s.conn.readedSize ∧ t.arrived = s.arrived ∧ t.popped = s.popped)

theorem asyncRead_cases {n : UInt64} (hstep : s.step (.asyncRead n) = some t) :
    Requests s t (.asyncRead n) (n ≤ s.conn.readedSize) := by
  simp only [step] at hstep
  split at hstep
  next hidle =>
    cases hstep
    refine ⟨hidle.1, ?_, ?_, ?_⟩
    all_goals
      unfold TcpConnection.asyncRead
      split
    · rfl
    · rfl
    · rfl
    · rfl
    · next hle =>
      refine .inl ⟨hle, by simp [leave, issue, take], rfl, rfl, ⟨rfl, rfl, rfl⟩, .inl ⟨rfl, ?_⟩⟩
      simp [leave, issue, take]
    · next hle =>
      refine .inr ⟨hle, rfl, rfl, rfl, ?_, ⟨rfl, rfl⟩, rfl, rfl, rfl⟩
      simp [leave, issue, take, TcpConnection.return_]
  next => cases hstep

theorem asyncReadAny_cases (hstep : s.step .asyncReadAny = some t) :
    Requests s t .asyncReadAny (s.conn.readedSize ≠ 0) := by
  simp only [step] at hstep
  split at hstep
  next hidle =>
    cases hstep
    refine ⟨hidle, ?_, ?_, ?_⟩
    all_goals
      unfold TcpConnection.asyncReadAny
      split
    · rfl
    · rfl
    · rfl
    · rfl
    · next hne =>
      refine .inl ⟨hne, by simp [leave, issue, take], rfl, rfl, ⟨rfl, rfl, rfl⟩, .inr ⟨rfl, ?_⟩⟩
      simp [leave, issue, take]
    · next hne =>
      refine .inr ⟨hne, rfl, rfl, rfl, ?_, rfl, rfl, rfl, rfl⟩
      simp [leave, issue, take, TcpConnection.return_]
  next => cases hstep

end ReadRun

/-- The sum that `readedSize_` is set to. -/
theorem toNat_add_toUInt64 (a : UInt64) (n : Nat) :
    (a + toUInt64 n).toNat = (a.toNat + n) % 2 ^ 64 := by
  unfold toUInt64
  rw [UInt64.toNat_add, UInt64.toNat_ofNat']
  omega

namespace ReadInv

variable {s t : ReadRun}

theorem init : ReadInv reads.init :=
  ⟨Buffer.ok_new, nofun, fun _ => ⟨rfl, nofun⟩, nofun, rfl, nofun, rfl, rfl⟩

/-- What the handler that the connection keeps was given to. -/
theorem taken_eq (hs : ReadInv s) {h : Handler} (hh : s.conn.userReadHandler = some h) :
    s.requests[h]? = s.taken := by
  rw [hs.taken, hh]
  rfl

/-- After a handler call the unread bytes are the ones left at the call. -/
theorem counts_anew {h : Handler} {u : Nat} (hanew : t.CountsAnew)
    (hcalls : t.calls = ⟨h, "", u⟩ :: s.calls) (hu : t.unread = u) :
    t.conn.readedSize.toNat = t.arrived % 2 ^ 64 ∧ t.unread + t.popped = t.left + t.arrived := by
  have hleft : t.left = u := by
    unfold ReadRun.left
    rw [hcalls]
  rw [hanew.readedSize, hanew.arrived, hanew.popped, hleft, hu]
  exact ⟨rfl, rfl⟩

theorem left_eq (hcalls : t.calls = s.calls) : t.left = s.left := by
  unfold ReadRun.left
  rw [hcalls]

/-- A request keeps the invariant. -/
theorem requests {q : ReadRequest} {enough : Prop} (hs : ReadInv s)
    (hr : ReadRun.Requests s t q enough) : ReadInv t := by
  have hlen : t.requests.length = s.requests.length + 1 := by
    rw [hr.requests, List.length_append, List.length_singleton]
  have hnew : t.requests[s.requests.length]? = some q := by
    rw [hr.requests, List.getElem?_concat_length]
  have hun : t.unread = s.unread := by
    unfold ReadRun.unread
    rw [hr.buffer]
  rcases hr.outcome with
    ⟨-, hwait, hexpect, hcalls, hanew, hkept⟩ |
    ⟨-, hwait, hcalls, hkept, htaken, hq, hsize, harrived, hpopped⟩
  · have hcount := ReadRun.callCount_cons hcalls
    obtain ⟨hcounted, hbalance⟩ := counts_anew hanew hcalls hun
    refine ⟨hr.buffer ▸ hs.ok, by simp [hwait], fun _ => ⟨hexpect, fun h hh => ?_⟩,
      fun h hh => ?_, ?_, fun r hmem => ?_, hcounted, hbalance⟩
    · rw [hcount]
      rcases hkept with ⟨hold, -⟩ | ⟨hnew, -⟩
      · exact Nat.le_trans ((hs.idle hr.idle).2 h (hold ▸ hh)) (Nat.le_add_right _ _)
      · obtain rfl : s.requests.length = h := Option.some.inj (hnew.symm.trans hh)
        simp
    · rw [hlen]
      rcases hkept with ⟨hold, -⟩ | ⟨hnew, -⟩
      · exact Nat.lt_succ_of_lt (hs.kept h (hold ▸ hh))
      · obtain rfl : s.requests.length = h := Option.some.inj (hnew.symm.trans hh)
        exact Nat.lt_succ_self _
    · rcases hkept with ⟨hold, htaken⟩ | ⟨hkept, htaken⟩
      · rw [htaken, hold, hs.taken]
        cases hh : s.conn.userReadHandler with
        | none => rfl
        | some h =>
          show s.requests[h]? = t.requests[h]?
          rw [hr.requests, List.getElem?_append_left (hs.kept h hh)]
      · rw [htaken, hkept]
        exact hnew.symm
    · rw [hcalls] at hmem
      rw [hlen]
      rcases List.mem_cons.mp hmem with rfl | hmem
      · exact Nat.lt_succ_self _
      · exact Nat.lt_succ_of_lt (hs.called r hmem)
  · refine ⟨hr.buffer ▸ hs.ok, fun h hh => ?_, by simp [hwait], fun h hh => ?_, ?_, ?_, ?_, ?_⟩
    · obtain rfl : s.requests.length = h := Option.some.inj (hwait.symm.trans hh)
      refine ⟨hkept, ?_, q, hnew, hq⟩
      have hcount : t.callCount s.requests.length = s.callCount s.requests.length := by
        unfold ReadRun.callCount
        rw [hcalls]
      rw [hcount]
      exact ReadRun.callCount_fresh hs.called (Nat.le_refl _)
    · obtain rfl : s.requests.length = h := Option.some.inj (hkept.symm.trans hh)
      rw [hlen]
      exact Nat.lt_succ_self _
    · rw [htaken, hkept]
      exact hnew.symm
    · rw [hcalls, hlen]
      exact fun r hmem => Nat.lt_succ_of_lt (hs.called r hmem)
    · rw [hsize, harrived]
      exact hs.counted
    · rw [hun, hpopped, left_eq hcalls, harrived]
      exact hs.balance

theorem chunk {buf : List UInt8} (hs : ReadInv s) (hstep : s.step (.chunk buf) = some t) :
    ReadInv t := by
  obtain ⟨-, hreq, hok, hun, hkept, htaken, hany, houtcome⟩ := ReadRun.chunk_cases hs.ok hstep
  have htaken' : t.taken = t.conn.userReadHandler.bind (t.requests[·]?) := by
    rw [htaken, hkept, hreq]
    exact hs.taken
  rcases houtcome with ⟨h, hh, -, hexpect, hwait, hcalls, hanew⟩ |
    ⟨-, hexpect, hwait, hcalls, hsize, harrived, hpopped⟩
  · -- the kept handler is called, and stays where it is
    have hcount := ReadRun.callCount_cons hcalls
    obtain ⟨hcounted, hbalance⟩ := counts_anew hanew hcalls rfl
    have hnone : t.waiting = none := by
      rw [hwait]
      cases hw : s.waiting with
      | none => rfl
      | some k =>
        obtain rfl : k = h := Option.some.inj ((hs.waits k hw).1.symm.trans hh)
        simp
    refine ⟨hok, by simp [hnone], fun _ => ⟨hexpect, fun k hk => ?_⟩, fun k hk => ?_, htaken',
      fun r hmem => ?_, hcounted, hbalance⟩
    · obtain rfl : h = k := Option.some.inj (hh.symm.trans (hkept ▸ hk))
      rw [hcount]
      simp
    · rw [hreq]
      exact hs.kept k (hkept ▸ hk)
    · rw [hreq]
      rw [hcalls] at hmem
      rcases List.mem_cons.mp hmem with rfl | hmem
      · exact hs.kept _ hh
      · exact hs.called r hmem
  · have hcount : ∀ k, t.callCount k = s.callCount k := by
      intro k
      unfold ReadRun.callCount
      rw [hcalls]
    refine ⟨hok, fun k hk => ?_, fun hidle => ?_, fun k hk => ?_, htaken', ?_, ?_, ?_⟩
    · rw [hwait] at hk
      obtain ⟨hk', hzero, q, hq, hrem⟩ := hs.waits k hk
      refine ⟨hkept ▸ hk', (hcount k).trans hzero, q, hreq ▸ hq, ?_⟩
      cases q with
      | asyncRead n => exact ⟨hany.trans hrem.1, hexpect.trans hrem.2⟩
      | asyncReadAny => exact hany.trans hrem
    · obtain ⟨he, hcalled⟩ := hs.idle (hwait ▸ hidle)
      refine ⟨hexpect.trans he, fun k hk => ?_⟩
      rw [hcount]
      exact hcalled k (hkept ▸ hk)
    · rw [hreq]
      exact hs.kept k (hkept ▸ hk)
    · rw [hcalls, hreq]
      exact hs.called
    · rw [hsize, harrived, toNat_add_toUInt64, hs.counted, Nat.mod_add_mod]
    · rw [hun, hpopped, left_eq hcalls, harrived, Nat.add_right_comm, hs.balance, Nat.add_assoc]

theorem popHead {len : UInt64} (hs : ReadInv s) (hstep : s.step (.popHead len) = some t) :
    ReadInv t := by
  obtain ⟨b, n, hb, hn, rfl⟩ := ReadRun.popHead_cases hs.ok hstep
  refine ⟨hb, fun h hh => ?_, hs.idle, hs.kept, hs.taken, hs.called, hs.counted, ?_⟩
  · obtain ⟨hkept, hzero, q, hq, hrem⟩ := hs.waits h hh
    refine ⟨hkept, hzero, q, hq, ?_⟩
    cases q <;> exact hrem
  · show b.unread.length + (s.popped + n) = s.left + s.arrived
    rw [← hs.balance, ← hn]
    omega

theorem step {a : ReadAction} (hs : ReadInv s) (hstep : s.step a = some t) : ReadInv t := by
  cases a with
  | chunk buf => exact hs.chunk hstep
  | popHead len => exact hs.popHead hstep
  | asyncRead n => exact hs.requests (ReadRun.asyncRead_cases hstep)
  | asyncReadAny => exact hs.requests (ReadRun.asyncReadAny_cases hstep)

end ReadInv

/-! ## The law -/

/-- The two sides of the condition are the code's test of `readedSize_` and that of the buffer. -/
theorem ReadInv.counts_iff {s : ReadRun} (hs : ReadInv s) (n : UInt64) (more : Nat) :
    s.Counts n.toNat more ↔
      (n ≤ s.conn.readedSize + toUInt64 more ↔ n.toNat ≤ s.unread + more) := by
  have hbalance := hs.balance
  have hright : n.toNat + s.popped ≤ s.left + s.arrived + more ↔ n.toNat ≤ s.unread + more := by
    omega
  unfold ReadRun.Counts
  rw [UInt64.le_iff_toNat_le, toNat_add_toUInt64, hs.counted, Nat.mod_add_mod, hright]

theorem ReadInv.counts_zero_iff {s : ReadRun} (hs : ReadInv s) (n : UInt64) :
    s.Counts n.toNat 0 ↔ (n ≤ s.conn.readedSize ↔ n.toNat ≤ s.unread) := by
  have h := hs.counts_iff n 0
  have hzero : s.conn.readedSize + toUInt64 (0 : Nat) = s.conn.readedSize := UInt64.add_zero _
  rwa [hzero] at h

/-- A request is answered in time exactly when `readedSize_` and the unread bytes agree on it. -/
theorem ReadRun.Requests.law_iff {s t : ReadRun} {q : ReadRequest} {enough : Prop}
    (hr : Requests s t q enough) (hs : ReadLaw s) (hinv : ReadInv s) :
    ReadLaw t ↔ (enough ↔ q.need ≤ s.unread) := by
  have hreq : ∀ k, k < s.requests.length → t.requests[k]? = s.requests[k]? := fun k hk => by
    rw [hr.requests, List.getElem?_append_left hk]
  have hnew : t.requests[s.requests.length]? = some q := by
    rw [hr.requests, List.getElem?_concat_length]
  have hun : t.unread = s.unread := by unfold ReadRun.unread; rw [hr.buffer]
  have hfresh := ReadRun.callCount_fresh hinv.called (Nat.le_refl _)
  rcases hr.outcome with ⟨he, hwait, -, hcalls, -⟩ | ⟨he, hwait, hcalls, -, -⟩
  · rw [ReadLaw.call_iff hs hinv hreq hwait hcalls]
    simp [hnew, hfresh, he]
  · rw [ReadLaw.wait_iff hs hinv hreq hcalls]
    simp [hwait, hnew, hun, he]

theorem chunk_readLaw_iff {s t : ReadRun} {buf : List UInt8} (hs : ReadLaw s) (hinv : ReadInv s)
    (hstep : s.step (.chunk buf) = some t) : ReadLaw t ↔ ArrivedSuffices s (.chunk buf) := by
  obtain ⟨hbuf, hreq, -, hun, -, -, -, houtcome⟩ := ReadRun.chunk_cases hinv.ok hstep
  have hreq' : ∀ k, k < s.requests.length → t.requests[k]? = s.requests[k]? :=
    fun k _ => by rw [hreq]
  unfold ArrivedSuffices
  cases hw : s.waiting with
  | none =>
    obtain ⟨hexpect, hcalled⟩ := hinv.idle hw
    rcases houtcome with ⟨h, hh, -, -, hwait, hcalls, -⟩ | ⟨hno, -, hwait, hcalls, -⟩
    · -- the handler is called again: harmless for one of `AsyncReadAny`
      have hpos := hcalled h hh
      rw [hw] at hwait
      rw [ReadLaw.call_iff hs hinv hreq' hwait hcalls, hreq, hinv.taken_eq hh]
      refine ⟨fun ⟨_, hfirst⟩ n hn => absurd (hfirst n hn) (Nat.ne_of_gt hpos), fun hnot =>
        ⟨fun q hq => ?_, fun n hn => absurd hn (hnot n)⟩⟩
      cases q with
      | asyncRead n => exact absurd hq (hnot n)
      | asyncReadAny =>
        show 1 ≤ t.unread
        omega
    · -- `expectSize_` is zero, so only an empty `userReadHandler_` is not called
      have hnone : s.conn.userReadHandler = none :=
        Option.eq_none_iff_forall_ne_some.mpr fun h hh =>
          absurd (hexpect ▸ UInt64.zero_le) (hno h hh).2
      refine iff_of_true ?_ fun n hn => ?_
      · rw [ReadLaw.wait_iff hs hinv hreq' hcalls, hwait, hw]
        exact nofun
      · rw [hinv.taken, hnone] at hn
        cases hn
  | some h =>
    -- `anyFlag_` and `expectSize_` are those of the request that waits, so the comparison that the
    -- code makes is about it
    obtain ⟨hkept, hzero, q, hq, hrem⟩ := hinv.waits h hw
    simp only [hq, Option.some.injEq, hinv.counts_iff]
    rcases houtcome with ⟨k, hk, hdo, -, hwait, hcalls, -⟩ | ⟨hno, -, hwait, hcalls, -⟩
    · obtain rfl : h = k := Option.some.inj (hkept.symm.trans hk)
      have hnone : t.waiting = none := by simp [hwait, hw]
      rw [ReadLaw.call_iff hs hinv hreq' hnone hcalls, hreq, hun]
      simp only [hq, Option.some.injEq, forall_eq', hzero, implies_true, and_true]
      cases q with
      | asyncRead n =>
        obtain ⟨hany, hexpect⟩ := hrem
        have hle : n ≤ s.conn.readedSize + toUInt64 buf.length := by
          rcases hdo with hdo | hdo
          · exact absurd (hany.symm.trans hdo) nofun
          · exact hexpect ▸ hdo
        simp [ReadRequest.need, hle]
      | asyncReadAny =>
        refine iff_of_true ?_ nofun
        show 1 ≤ s.unread + buf.length
        omega
    · obtain ⟨hany, hlt⟩ := hno h hkept
      rw [ReadLaw.wait_iff hs hinv hreq' hcalls, hwait, hw, hreq, hun]
      simp only [hq, Option.some.injEq, forall_eq']
      cases q with
      | asyncRead n =>
        rw [hrem.2] at hlt
        simp [ReadRequest.need, hlt]
      | asyncReadAny => exact absurd (hany.symm.trans hrem) nofun

theorem popHead_readLaw {s t : ReadRun} {len : UInt64} (hs : ReadLaw s) (hinv : ReadInv s)
    (hstep : s.step (.popHead len) = some t) : ReadLaw t := by
  obtain ⟨b, n, -, hle, rfl⟩ := ReadRun.popHead_cases hinv.ok hstep
  exact ⟨hs.notBefore, fun h hh q hq =>
    Nat.lt_of_le_of_lt (hle ▸ Nat.le_add_right ..) (hs.notAfter h hh q hq), hs.once⟩

/-- One step keeps the law exactly when it meets the condition. -/
theorem step_readLaw_iff {s t : ReadRun} {a : ReadAction} (hinv : ReadInv s) (hs : ReadLaw s)
    (hstep : s.step a = some t) : ReadLaw t ↔ ArrivedSuffices s a := by
  cases a with
  | chunk buf => exact chunk_readLaw_iff hs hinv hstep
  | popHead len => exact iff_of_true (popHead_readLaw hs hinv hstep) True.intro
  | asyncRead n =>
    exact ((ReadRun.asyncRead_cases hstep).law_iff hs hinv).trans (hinv.counts_zero_iff n).symm
  | asyncReadAny =>
    have hpos : s.conn.readedSize ≠ 0 ↔ 1 ≤ s.conn.readedSize := by
      rw [UInt64.le_iff_toNat_le, ne_eq, ← UInt64.toNat_inj]
      exact (Nat.one_le_iff_ne_zero).symm
    have hlaw := (ReadRun.asyncReadAny_cases hstep).law_iff hs hinv
    rw [hpos] at hlaw
    exact hlaw.trans (hinv.counts_zero_iff 1).symm

theorem init_readLaw : ReadLaw reads.init :=
  ⟨nofun, nofun, fun _ _ hq => absurd hq nofun⟩

/-- A run keeps the law of the read side in all its states exactly when all its steps find
`readedSize_` in agreement with the unread bytes. -/
theorem readLaw_iff {as : List ReadAction} (hrun : (reads.run reads.init as).isSome) :
    reads.AllStates ReadLaw reads.init as ↔ reads.AllSteps ArrivedSuffices reads.init as :=
  System.allStates_iff_allSteps (L := fun _ => True) init_readLaw .init
    (fun _ _ _ => ReadInv.step) (fun _ _ _ hinv hs _ => step_readLaw_iff hinv hs)
    (fun _ _ => True.intro) hrun

/-- `readLaw_iff` on a run that reads two bytes and then waits for more. -/
theorem readLaw_two_requests :
    reads.AllStates ReadLaw reads.init
      [.asyncRead 2, .chunk [1], .chunk [2], .popHead 2, .asyncReadAny] ↔
    reads.AllSteps ArrivedSuffices reads.init
      [.asyncRead 2, .chunk [1], .chunk [2], .popHead 2, .asyncReadAny] :=
  readLaw_iff (by decide +kernel)

/-- Two chunks after one `AsyncRead`: its handler is called for each. And when one chunk brings two
bytes and only one of them is asked for and popped, the next `AsyncRead` waits although the other
byte is there. -/
theorem asyncRead_twice_or_late :
    (∃ s, reads.run reads.init [.asyncRead 1, .chunk [1], .chunk [2]] = some s ∧
      s.requests = [.asyncRead 1] ∧ s.callCount 0 = 2 ∧ ¬ ReadLaw s) ∧
    ∃ s, reads.run reads.init [.asyncRead 1, .chunk [1, 2], .popHead 1, .asyncRead 1] = some s ∧
      s.waiting = some 1 ∧ s.unread = 1 ∧ ¬ ReadLaw s := by
  have htwice : (reads.run reads.init [.asyncRead 1, .chunk [1], .chunk [2]]).map
      (fun s => (s.requests, s.callCount 0)) = some ([.asyncRead 1], 2) := by
    decide +kernel
  have hlate : (reads.run reads.init [.asyncRead 1, .chunk [1, 2], .popHead 1, .asyncRead 1]).map
      (fun s => (s.requests, s.waiting, s.unread)) =
      some ([.asyncRead 1, .asyncRead 1], some 1, 1) := by
    decide +kernel
  obtain ⟨s, hs, hghost⟩ := Option.map_eq_some_iff.mp htwice
  obtain ⟨hreq, hcount⟩ := Prod.mk.injEq .. ▸ hghost
  obtain ⟨t, ht, hghost'⟩ := Option.map_eq_some_iff.mp hlate
  obtain ⟨hreq', hghost'⟩ := Prod.mk.injEq .. ▸ hghost'
  obtain ⟨hwait, hunread⟩ := Prod.mk.injEq .. ▸ hghost'
  refine ⟨⟨s, hs, hreq, hcount, fun hlaw => ?_⟩, t, ht, hwait, hunread, fun hlaw => ?_⟩
  · have honce := hlaw.once 0 1 (by rw [hreq]; rfl)
    rw [hcount] at honce
    exact absurd honce (by decide)
  · have hafter := hlaw.notAfter 1 hwait (.asyncRead 1) (by rw [hreq']; rfl)
    rw [hunread] at hafter
    exact absurd hafter (by decide)

end Sheep
