import Sheep.Lib.System
import Sheep.Net.TcpConnection

/-!
# Runs of a connection

`tcp` is a connection among everything that can happen to it: the methods the user calls, the
events the loop dispatches with any result of the socket call, and the return of a user handler.
User calls may come at any moment, also while a handler runs, so a run covers what handlers do to
the connection they are called by.

Ghost components record the bytes that went in and out, and every handler call with the write
side as it was at the call.

`WriteLaw` is the contract of the write side: the socket has taken a prefix of what was pushed,
the write buffer holds the rest, and a write handler hears of success only when there is no rest.
`writeLaw_iff`: a run that neither finishes nor resets the connection keeps the law in all its
states exactly when no `Socket::Write` of it returns `EAGAIN`. The slip is in `writeHandler`,
which moves the read index by the raw result: `-1` moves it back by one byte.
-/

namespace Sheep

/-- A handler call, with the bytes pushed and sent so far. -/
structure CallRecord where
  call : Call
  pushed : List UInt8
  sent : List UInt8
  deriving DecidableEq, Repr

structure TcpRun where
  conn : TcpConnection
  /-- the methods that wait for a handler they called, the innermost first -/
  frames : List Frame
  /-- ghost: all bytes given to `WriteBufferPush` -/
  pushed : List UInt8
  /-- ghost: all bytes the kernel took from `Socket::Write` -/
  sent : List UInt8
  /-- ghost: all bytes `Socket::Read` brought -/
  received : List UInt8
  /-- ghost: all bytes `ReadBufferPopHead` gave out -/
  popped : List UInt8
  /-- ghost: the handler calls, the latest first -/
  calls : List CallRecord
  deriving DecidableEq, Repr

inductive TcpAction
  | push (buf : List UInt8)
  | popHead (len : UInt64)
  | asyncRead (expectSize : UInt64) (h : Handler)
  | asyncReadAny (h : Handler)
  | asyncWrite (h : Handler)
  | finish (errMsg : String)
  | reset
  /-- the loop runs the asyncer's callback -/
  | deliver
  | readable (r : SysRead)
  | writable (r : SysResult)
  /-- the handler called last returns -/
  | resume
  deriving DecidableEq, Repr

namespace TcpRun

def init : TcpRun := ⟨.connected, [], [], [], [], [], []⟩

/-- Control leaves a method: a handler call is recorded, and the rest of the method kept. -/
def leave (s : TcpRun) (o : Outcome) : TcpRun :=
  match o.pending with
  | none => { s with conn := o.conn }
  | some (call, frame) =>
    { s with
      conn := o.conn
      frames := frame :: s.frames
      calls := ⟨call, s.pushed, s.sent⟩ :: s.calls }

/-- The bytes a writable event offers to the socket. -/
def offered (s : TcpRun) : List UInt8 :=
  ((s.conn.writeBuffer.read 1024).map (·.2)).getD []

/-- What the kernel can answer: it takes between one and all bytes it is offered, and `::read`
fills at most the 1024 bytes it is given. -/
def canWrite (s : TcpRun) : SysResult → Bool
  | .count n => s.offered = [] ∨ (1 ≤ n ∧ n ≤ s.offered.length)
  | _ => true

def canRead : SysRead → Bool
  | .bytes bs => bs.length ≤ 1024
  | _ => true

def step (s : TcpRun) : TcpAction → Option TcpRun
  | .push buf => (s.conn.writeBufferPush buf).map fun c =>
      { s with conn := c, pushed := s.pushed ++ buf }
  | .popHead len => (s.conn.readBufferPopHead len).map fun (_, bytes, c) =>
      { s with conn := c, popped := s.popped ++ bytes }
  | .asyncRead n h => some (s.leave (s.conn.asyncRead n h))
  | .asyncReadAny h => some (s.leave (s.conn.asyncReadAny h))
  | .asyncWrite h => (s.conn.asyncWrite h).map s.leave
  | .finish errMsg => some (s.leave (s.conn.finish errMsg))
  | .reset => some { s with conn := s.conn.reset }
  | .deliver => s.conn.deliver.map s.leave
  | .readable r =>
    if s.conn.event.any (·.readNotify) && canRead r then
      (s.conn.readHandler r).map { s with received := s.received ++ (Socket.read r).2.2 }.leave
    else none
  | .writable r =>
    if s.conn.event.any (·.writeNotify) && s.canWrite r then
      (s.conn.writeHandler r).map fun (o, sent) => { s with sent := s.sent ++ sent }.leave o
    else none
  | .resume =>
    match s.frames with
    | [] => none
    | f :: fs => (f.resume s.conn).map { s with frames := fs }.leave

end TcpRun

/-- A connection in an arbitrary environment. -/
def tcp : System TcpRun TcpAction := ⟨.init, TcpRun.step⟩

/-! ## The write side -/

/-- The contract of the write side. -/
structure WriteLaw (s : TcpRun) : Prop where
  sent_prefix : s.sent <+: s.pushed
  ok : s.conn.writeBuffer.Ok
  remaining : s.pushed = s.sent ++ s.conn.writeBuffer.unread
  success : ∀ r ∈ s.calls, ∀ h, r.call = .write h "" → r.sent = r.pushed

/-- The actions that neither finish nor reset the connection: no `Finish`, no `Reset`, no socket
error and no end of the stream. -/
def TcpAction.KeepsOpen : TcpAction → Prop
  | .finish _ | .reset | .writable (.error _) | .readable (.error _) | .readable (.bytes []) =>
    False
  | _ => True

/-- No `Socket::Write` returns `EAGAIN`: a writable event with that result finds the write buffer
empty, and then the socket is not called. -/
def NoEagain (s : TcpRun) (a : TcpAction) : Prop :=
  a = .writable .eagain → s.conn.writeBuffer.readIndex = s.conn.writeBuffer.writeIndex

/-- A method that leaves the write buffer alone and reports no success to a write handler. -/
def Outcome.Quiet (c : TcpConnection) (o : Outcome) : Prop :=
  o.conn.writeBuffer = c.writeBuffer ∧ ∀ h f, o.pending ≠ some (.write h "", f)

namespace TcpConnection

theorem finishWrite_quiet (errMsg : String) (c : TcpConnection) :
    (c.finishWrite errMsg).Quiet c := by
  unfold finishWrite finishTail
  split <;> exact ⟨rfl, by simp⟩

theorem finish_quiet (errMsg : String) (c : TcpConnection) : (c.finish errMsg).Quiet c := by
  unfold finish finishCancel
  split
  · exact ⟨rfl, by simp [return_]⟩
  · split
    · exact ⟨rfl, by simp⟩
    · exact finishWrite_quiet errMsg _
    · exact finishWrite_quiet errMsg _

theorem asyncRead_quiet (n : UInt64) (h : Handler) (c : TcpConnection) :
    (c.asyncRead n h).Quiet c := by
  unfold asyncRead
  split <;> exact ⟨rfl, by simp [return_]⟩

theorem asyncReadAny_quiet (h : Handler) (c : TcpConnection) : (c.asyncReadAny h).Quiet c := by
  unfold asyncReadAny
  split <;> exact ⟨rfl, by simp [return_]⟩

theorem asyncDo_quiet {h : Handler} {c : TcpConnection} {o : Outcome}
    (ho : c.asyncDo h = some o) : o.Quiet c := by
  unfold asyncDo at ho
  split at ho <;> cases ho <;> exact ⟨rfl, by simp [return_]⟩

theorem asyncWrite_quiet {h : Handler} {c : TcpConnection} {o : Outcome}
    (ho : c.asyncWrite h = some o) : o.Quiet c := by
  unfold asyncWrite at ho
  split at ho
  · cases ho; exact ⟨rfl, by simp⟩
  · split at ho
    · cases ho
    · split at ho
      · cases ho; exact ⟨rfl, by simp⟩
      · exact asyncDo_quiet (c := { c with asyncer := some ⟨none, false, false⟩ }) ho

theorem deliver_quiet {c : TcpConnection} {o : Outcome} (ho : c.deliver = some o) :
    o.Quiet c := by
  unfold deliver at ho
  split at ho
  · obtain ⟨e, -, rfl⟩ := Option.map_eq_some_iff.mp ho
    exact ⟨rfl, by simp [return_]⟩
  · cases ho; exact ⟨rfl, by simp [return_]⟩
  · cases ho

theorem readFailed_quiet (errMsg : String) (c : TcpConnection) :
    (c.readFailed errMsg).Quiet c := by
  unfold readFailed
  split
  · exact ⟨rfl, by simp⟩
  · exact finish_quiet errMsg c

theorem readDone_quiet (c : TcpConnection) : c.readDone.Quiet c := by
  unfold readDone
  split
  · split <;> exact ⟨rfl, by simp [return_]⟩
  · exact ⟨rfl, by simp [return_]⟩

theorem readHandler_quiet {r : SysRead} {c : TcpConnection} {o : Outcome}
    (ho : c.readHandler r = some o) : o.Quiet c := by
  unfold readHandler at ho
  split at ho
  split at ho
  · cases ho; exact readFailed_quiet _ c
  · split at ho
    · cases ho; exact ⟨rfl, by simp [return_]⟩
    · obtain ⟨b, -, rfl⟩ := Option.map_eq_some_iff.mp ho
      exact readDone_quiet _

end TcpConnection

theorem Frame.resume_quiet {f : Frame} {c : TcpConnection} {o : Outcome}
    (ho : f.resume c = some o) : o.Quiet c := by
  cases f with
  | done => cases ho; exact ⟨rfl, by simp [TcpConnection.return_]⟩
  | callFinish errMsg => cases ho; exact c.finish_quiet errMsg
  | finishCanceled errMsg => cases ho; exact c.finishWrite_quiet errMsg
  | finishWritten errMsg =>
    cases ho; exact ⟨rfl, by simp [TcpConnection.finishTail]⟩
  | asyncDo h => exact TcpConnection.asyncDo_quiet ho

/-- What a writable event does, on a buffer whose indices are in order. -/
theorem TcpConnection.writeHandler_cases {r : SysResult} {c : TcpConnection} {o : Outcome}
    {sent : List UInt8} (hok : c.writeBuffer.Ok) (ho : c.writeHandler r = some (o, sent)) :
    (c.writeBuffer.unread = [] ∧ sent = [] ∧ o.conn.writeBuffer = c.writeBuffer ∧
      ∃ h, o.pending = some (.write h "", .done)) ∨
    (c.writeBuffer.unread ≠ [] ∧
      ∃ errMsg n, Socket.write (c.writeBuffer.unread.take 1024) r = (errMsg, n, sent) ∧
        o.conn.writeBuffer = c.writeBuffer.updateReadIndex (toUInt64 n) ∧
        ∀ h f, o.pending ≠ some (.write h "", f)) := by
  obtain ⟨n, hread, hn⟩ := @Buffer.read_spec _ 1024 hok (by decide)
  have h1024 : (1024 : UInt64).toNat = 1024 := rfl
  rw [h1024] at hread hn
  unfold writeHandler at ho
  simp only [hread, Option.bind_eq_bind, Option.bind_some] at ho
  have hnz : n = 0 ↔ c.writeBuffer.unread = [] := by
    rw [← UInt64.toNat_inj, UInt64.toNat_zero, hn, ← List.length_eq_zero_iff]
    omega
  split at ho
  next hz =>
    obtain ⟨e, -, ho⟩ := Option.bind_eq_some_iff.mp ho
    obtain ⟨h, -, ho⟩ := Option.bind_eq_some_iff.mp ho
    cases ho
    exact .inl ⟨hnz.mp hz, rfl, rfl, h, rfl⟩
  next hz =>
    refine .inr ⟨fun hnil => hz (hnz.mpr hnil), ?_⟩
    generalize hsock : Socket.write (c.writeBuffer.unread.take 1024) r = res at ho
    obtain ⟨errMsg, m, bytes⟩ := res
    simp only at ho
    split at ho
    next herr =>
      obtain ⟨h, -, ho⟩ := Option.bind_eq_some_iff.mp ho
      cases ho
      refine ⟨errMsg, m, rfl, rfl, fun h' f hp => ?_⟩
      simp only [Option.some.injEq, Prod.mk.injEq, Call.write.injEq] at hp
      exact herr hp.1.2
    next =>
      cases ho
      exact ⟨errMsg, m, rfl, rfl, by simp [return_]⟩

/-- A count that fits the bytes offered moves the read index by that many bytes. -/
theorem toUInt64_count {n : Nat} (hn : n < 2 ^ 64) : (toUInt64 (n : Int)).toNat = n := by
  unfold toUInt64
  rw [UInt64.toNat_ofNat']
  omega

/-- The result of a failed call moves the read index back by one: a byte that was sent is offered
again, or the index wraps. -/
theorem Buffer.updateReadIndex_failed {b : Buffer} (h : b.Ok) (hne : b.readIndex ≠ b.writeIndex)
    (h' : (b.updateReadIndex (toUInt64 (-1))).Ok) :
    (b.updateReadIndex (toUInt64 (-1))).unread.length = b.unread.length + 1 := by
  have hr := h.read_le
  have hl := h.write_le
  have hs := h.size_le
  have hmax : vectorMaxSize < 2 ^ 63 := by decide
  have hm : (toUInt64 (-1)).toNat = 2 ^ 64 - 1 := by decide
  have hne' : b.readIndex.toNat ≠ b.writeIndex.toNat := fun he => hne (UInt64.toNat_inj.mp he)
  have hidx : (b.readIndex + toUInt64 (-1)).toNat =
      (b.readIndex.toNat + (2 ^ 64 - 1)) % 2 ^ 64 := by
    rw [UInt64.toNat_add, hm]
  have hne2 : b.readIndex + toUInt64 (-1) ≠ b.writeIndex := by
    rw [ne_eq, ← UInt64.toNat_inj, hidx]
    omega
  have hb : b.updateReadIndex (toUInt64 (-1)) =
      { b with readIndex := b.readIndex + toUInt64 (-1) } := by
    simp [updateReadIndex, hne2]
  have hle := h'.read_le
  rw [unread_length h', unread_length h, hb]
  rw [hb] at hle
  simp only [hidx] at hle ⊢
  omega

theorem init_writeLaw : WriteLaw tcp.init :=
  ⟨List.nil_prefix, Buffer.ok_new, rfl, by simp [tcp, TcpRun.init]⟩

/-- A quiet method keeps the law. -/
theorem leave_writeLaw {s : TcpRun} {o : Outcome} (h : WriteLaw s) (hq : o.Quiet s.conn) :
    WriteLaw (s.leave o) := by
  obtain ⟨hbuf, hcall⟩ := hq
  unfold TcpRun.leave
  split
  · exact ⟨h.sent_prefix, hbuf ▸ h.ok, by simpa [hbuf] using h.remaining, h.success⟩
  next call frame hp =>
    refine ⟨h.sent_prefix, hbuf ▸ h.ok, by simpa [hbuf] using h.remaining, ?_⟩
    intro r hr hd hw
    rcases List.mem_cons.mp hr with rfl | hr
    · exact absurd (hp.trans (by rw [show call = .write hd "" from hw])) (hcall hd frame)
    · exact h.success r hr hd hw

theorem push_writeLaw {s : TcpRun} {buf : List UInt8} {c : TcpConnection} (h : WriteLaw s)
    (hc : s.conn.writeBufferPush buf = some c) :
    WriteLaw { s with conn := c, pushed := s.pushed ++ buf } := by
  obtain ⟨b, hb, rfl⟩ := Option.map_eq_some_iff.mp hc
  obtain ⟨hok, hun⟩ := Buffer.write_spec h.ok hb
  refine ⟨h.sent_prefix.trans (List.prefix_append _ _), hok, ?_, h.success⟩
  simp only [hun, h.remaining, List.append_assoc]

/-- A writable event with an empty buffer reports success, and nothing remains. -/
theorem writable_empty {s : TcpRun} {o : Outcome} {h : Handler} (hs : WriteLaw s)
    (hnil : s.conn.writeBuffer.unread = []) (hbuf : o.conn.writeBuffer = s.conn.writeBuffer)
    (hp : o.pending = some (.write h "", .done)) : WriteLaw (s.leave o) := by
  have heq : s.sent = s.pushed := by simpa [hnil] using hs.remaining.symm
  unfold TcpRun.leave
  rw [hp]
  refine ⟨hs.sent_prefix, hbuf ▸ hs.ok, by simpa [hbuf] using hs.remaining, ?_⟩
  intro r hr hd hw
  rcases List.mem_cons.mp hr with rfl | hr
  · exact heq
  · exact hs.success r hr hd hw

/-- A writable event that sends `n` bytes moves them from the buffer to the socket. -/
theorem writable_count {s : TcpRun} {o : Outcome} {n : Nat} (hs : WriteLaw s)
    (hn : n ≤ (s.conn.writeBuffer.unread.take 1024).length)
    (hbuf : o.conn.writeBuffer = s.conn.writeBuffer.updateReadIndex (toUInt64 (n : Int)))
    (hp : ∀ h f, o.pending ≠ some (.write h "", f)) :
    WriteLaw ({ s with sent := s.sent ++ (s.conn.writeBuffer.unread.take 1024).take n }.leave o) :=
    by
  rw [List.length_take] at hn
  have hcount : (toUInt64 (n : Int)).toNat = n := toUInt64_count (by omega)
  obtain ⟨hok, hun⟩ := Buffer.updateReadIndex_spec (n := toUInt64 (n : Int)) hs.ok (by omega)
  rw [hcount] at hun
  have htake : (s.conn.writeBuffer.unread.take 1024).take n = s.conn.writeBuffer.unread.take n := by
    rw [List.take_take, Nat.min_eq_left (by omega)]
  rw [htake]
  have hsplit : s.pushed = (s.sent ++ s.conn.writeBuffer.unread.take n) ++
      s.conn.writeBuffer.unread.drop n := by
    rw [List.append_assoc, List.take_append_drop]
    exact hs.remaining
  have hpre : s.sent ++ s.conn.writeBuffer.unread.take n <+: s.pushed :=
    ⟨_, hsplit.symm⟩
  unfold TcpRun.leave
  split
  · exact ⟨hpre, hbuf ▸ hok, by simpa [hbuf, hun] using hsplit, hs.success⟩
  next call frame hp' =>
    refine ⟨hpre, hbuf ▸ hok, by simpa [hbuf, hun] using hsplit, ?_⟩
    intro r hr hd hw
    rcases List.mem_cons.mp hr with rfl | hr
    · exact absurd (hp'.trans (by rw [show call = .write hd "" from hw])) (hp hd frame)
    · exact hs.success r hr hd hw

/-- A failed `Socket::Write` breaks the law: the index is out of order, or the buffer holds one
byte too many. -/
theorem writable_failed {s t : TcpRun} (hs : WriteLaw s)
    (hne : s.conn.writeBuffer.unread ≠ []) (hsent : t.sent = s.sent) (hpushed : t.pushed = s.pushed)
    (hbuf : t.conn.writeBuffer = s.conn.writeBuffer.updateReadIndex (toUInt64 (-1))) :
    ¬ WriteLaw t := by
  intro ht
  have hidx : s.conn.writeBuffer.readIndex ≠ s.conn.writeBuffer.writeIndex :=
    fun he => hne ((Buffer.index_eq_iff hs.ok).mp he)
  have hlen := Buffer.updateReadIndex_failed hs.ok hidx (hbuf ▸ ht.ok)
  have h1 := congrArg List.length hs.remaining
  have h2 := congrArg List.length ht.remaining
  rw [hpushed, hsent, hbuf] at h2
  simp only [List.length_append] at h1 h2
  omega

/-- A writable event keeps the law exactly when its `Socket::Write` does not return `EAGAIN`. -/
theorem writable_writeLaw_iff {s t : TcpRun} {r : SysResult} (hs : WriteLaw s)
    (hopen : (TcpAction.writable r).KeepsOpen) (ht : s.step (.writable r) = some t) :
    WriteLaw t ↔ NoEagain s (.writable r) := by
  simp only [TcpRun.step] at ht
  split at ht
  · next hen =>
    obtain ⟨⟨o, sent⟩, ho, rfl⟩ := Option.map_eq_some_iff.mp ht
    rcases TcpConnection.writeHandler_cases hs.ok ho with
      ⟨hnil, rfl, hbuf, h, hp⟩ | ⟨hne, errMsg, m, hsock, hbuf, hp⟩
    · refine iff_of_true ?_ fun _ => (Buffer.index_eq_iff hs.ok).mpr hnil
      simpa using writable_empty hs hnil hbuf hp
    · cases r with
      | error e => exact hopen.elim
      | eagain =>
        cases hsock
        refine iff_of_false ?_ fun hno =>
          hne ((Buffer.index_eq_iff hs.ok).mp (hno rfl))
        refine writable_failed hs hne ?_ ?_ ?_
        all_goals
          unfold TcpRun.leave
          split <;> simp [hbuf]
      | count n =>
        cases hsock
        refine iff_of_true (writable_count hs ?_ hbuf hp) nofun
        obtain ⟨k, hread, -⟩ := @Buffer.read_spec _ 1024 hs.ok (by decide)
        have hoff : s.offered = s.conn.writeBuffer.unread.take 1024 := by
          simp only [TcpRun.offered, hread]
          rfl
        have hnil : s.conn.writeBuffer.unread.take 1024 ≠ [] := by
          simpa using hne
        simp only [Bool.and_eq_true, TcpRun.canWrite, decide_eq_true_eq, hoff] at hen
        exact (hen.2.resolve_left hnil).2
  · cases ht

/-- One step of an open connection: the law is kept exactly by the steps without `EAGAIN`. -/
theorem step_writeLaw_iff {s t : TcpRun} {a : TcpAction} (hs : WriteLaw s) (hopen : a.KeepsOpen)
    (ht : s.step a = some t) : WriteLaw t ↔ NoEagain s a := by
  cases a with
  | writable r => exact writable_writeLaw_iff hs hopen ht
  | finish errMsg => exact hopen.elim
  | reset => exact hopen.elim
  | push buf =>
    obtain ⟨c, hc, rfl⟩ := Option.map_eq_some_iff.mp ht
    exact iff_of_true (push_writeLaw hs hc) nofun
  | popHead len =>
    obtain ⟨⟨n, bytes, c⟩, hc, rfl⟩ := Option.map_eq_some_iff.mp ht
    obtain ⟨_, -, hc⟩ := Option.map_eq_some_iff.mp hc
    cases hc
    exact iff_of_true ⟨hs.sent_prefix, hs.ok, hs.remaining, hs.success⟩ nofun
  | asyncRead n h =>
    cases ht
    exact iff_of_true (leave_writeLaw hs (s.conn.asyncRead_quiet n h)) nofun
  | asyncReadAny h =>
    cases ht
    exact iff_of_true (leave_writeLaw hs (s.conn.asyncReadAny_quiet h)) nofun
  | asyncWrite h =>
    obtain ⟨o, ho, rfl⟩ := Option.map_eq_some_iff.mp ht
    exact iff_of_true (leave_writeLaw hs (TcpConnection.asyncWrite_quiet ho)) nofun
  | deliver =>
    obtain ⟨o, ho, rfl⟩ := Option.map_eq_some_iff.mp ht
    exact iff_of_true (leave_writeLaw hs (TcpConnection.deliver_quiet ho)) nofun
  | readable r =>
    simp only [TcpRun.step] at ht
    split at ht
    · obtain ⟨o, ho, rfl⟩ := Option.map_eq_some_iff.mp ht
      refine iff_of_true (leave_writeLaw ?_ (TcpConnection.readHandler_quiet ho)) nofun
      exact ⟨hs.sent_prefix, hs.ok, hs.remaining, hs.success⟩
    · cases ht
  | resume =>
    simp only [TcpRun.step] at ht
    split at ht
    · cases ht
    · obtain ⟨o, ho, rfl⟩ := Option.map_eq_some_iff.mp ht
      refine iff_of_true (leave_writeLaw ?_ (Frame.resume_quiet ho)) nofun
      exact ⟨hs.sent_prefix, hs.ok, hs.remaining, hs.success⟩

/-- The contract of the write side, for every run that neither finishes nor resets the connection:
the law holds in all states of the run if and only if no `Socket::Write` of it returns `EAGAIN`. -/
theorem writeLaw_iff {as : List TcpAction} (hopen : ∀ a ∈ as, a.KeepsOpen)
    (hrun : (tcp.run tcp.init as).isSome) :
    tcp.AllStates WriteLaw tcp.init as ↔ tcp.AllSteps NoEagain tcp.init as :=
  System.allStates_iff_allSteps (I := fun _ => True) init_writeLaw True.intro
    (fun _ _ _ _ _ => True.intro) (fun _ _ _ _ => step_writeLaw_iff) hopen hrun

/-- Three bytes in two pushes, sent in two writes: `writeLaw_iff` on a run without `EAGAIN`. -/
theorem writeLaw_two_writes :
    tcp.AllStates WriteLaw tcp.init
      [.push [1, 2], .asyncWrite 7, .deliver, .writable (.count 1), .push [3],
        .writable (.count 2), .writable (.count 1)] ↔
    tcp.AllSteps NoEagain tcp.init
      [.push [1, 2], .asyncWrite 7, .deliver, .writable (.count 1), .push [3],
        .writable (.count 2), .writable (.count 1)] :=
  writeLaw_iff (by simp [TcpAction.KeepsOpen]) (by decide +kernel)

/-- Two bytes pushed, one sent, one `EAGAIN`: the next event sends the first byte again. -/
theorem eagain_repeats_byte :
    ∃ s, tcp.run tcp.init
        [.push [1, 2], .asyncWrite 7, .deliver, .writable (.count 1), .writable .eagain,
          .writable (.count 2)] = some s ∧
      s.pushed = [1, 2] ∧ s.sent = [1, 1, 2] ∧ ¬ WriteLaw s := by
  have h : (tcp.run tcp.init
      [.push [1, 2], .asyncWrite 7, .deliver, .writable (.count 1), .writable .eagain,
        .writable (.count 2)]).map (fun s => (s.pushed, s.sent)) = some ([1, 2], [1, 1, 2]) := by
    decide +kernel
  obtain ⟨s, hs, hbytes⟩ := Option.map_eq_some_iff.mp h
  obtain ⟨hpushed, hsent⟩ := Prod.mk.injEq .. ▸ hbytes
  refine ⟨s, hs, hpushed, hsent, fun hlaw => ?_⟩
  have hpre := hlaw.sent_prefix
  rw [hpushed, hsent] at hpre
  exact absurd hpre (by decide)

end Sheep
