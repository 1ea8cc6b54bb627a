import Sheep.Lib.Process
import Sheep.Net.TcpRun

/-!
# From one connection to another

`stream` is two `TcpConnection`s and the kernel's byte stream between them, in each direction: what
`Socket::Write` accepted on one side arrives on the other in order, cut into chunks in any way. The
end of the stream is read only after the other side has run `Finish` and everything that it sent
has arrived. Both sides are used in any way, and may fail or finish at any time.

`StreamLaw`: what one user pushed is what the other has popped, then what its read buffer holds,
then what is on the wire, then what waits in the write buffer. A byte is in one of the four places,
in order, and no byte is lost, doubled or overtaken; what a write handler was told is written is on
the wire or further. `stream_law`: every run keeps it in which `Socket::Write` does not fail and no
connection is reset, up to and including `Finish`. `writeHandler` moves its index by the result of
a failed write, and `Reset` throws the buffers away.
-/

namespace Sheep

inductive Side
  | client
  | server
  deriving DecidableEq, Repr

def Side.other : Side → Side
  | .client => .server
  | .server => .client

/-- The bytes that a step reads from the socket. -/
def TcpAction.brought : TcpAction → List UInt8
  | .readable r => (Socket.read r).2.2
  | _ => []

structure Stream where
  conn : Side → TcpRun
  /-- the bytes that left a side and have not arrived -/
  wire : Side → List UInt8

namespace Stream

/-- A side reads bytes that are on the wire to it, and the end of the stream when there are none
and the other side has dropped its event. -/
def canArrive (s : Stream) (x : Side) : TcpAction → Bool
  | .readable (.bytes []) => s.wire x.other = [] && (s.conn x.other).conn.event.isNone
  | .readable (.bytes bs) => bs.isPrefixOf (s.wire x.other)
  | _ => true

/-- The stream after the side `x` has gone on to `t` and read `brought`. -/
def moved (s : Stream) (x : Side) (t : TcpRun) (brought : List UInt8) : Stream where
  conn := Function.update s.conn x t
  wire := fun y =>
    if y = x then s.wire x ++ t.sent.drop (s.conn x).sent.length
    else (s.wire y).drop brought.length

def step (s : Stream) : Side × TcpAction → Option Stream
  | (x, a) =>
    if s.canArrive x a then ((s.conn x).step a).map fun t => s.moved x t a.brought else none

end Stream

/-- Two connections in arbitrary environments. -/
def stream : System Stream (Side × TcpAction) :=
  ⟨⟨fun _ => .init, fun _ => []⟩, Stream.step⟩

/-- No `Reset`, and a writable event finds the buffer empty or the socket takes bytes. -/
def WriteSucceeds (s : TcpRun) : TcpAction → Prop
  | .reset => False
  | .writable (.count _) => True
  | .writable _ => s.conn.writeBuffer.readIndex = s.conn.writeBuffer.writeIndex
  | _ => True

instance WriteSucceeds.decidable (s : TcpRun) : ∀ a, Decidable (WriteSucceeds s a)
  | .reset => isFalse id
  | .writable (.count _) => isTrue True.intro
  | .writable .eagain | .writable (.error _) =>
    inferInstanceAs (Decidable (s.conn.writeBuffer.readIndex = s.conn.writeBuffer.writeIndex))
  | .push _ | .popHead _ | .asyncRead .. | .asyncReadAny _ | .asyncWrite _ | .finish _ | .deliver
  | .readable _ | .resume => isTrue True.intro

/-- What went in at the side `x` and comes out at the other side. -/
structure StreamLaw (s : Stream) (x : Side) : Prop where
  /-- where the bytes are -/
  whole : (s.conn x).pushed = (s.conn x.other).popped ++
    (s.conn x.other).conn.readBuffer.unread ++ s.wire x ++ (s.conn x).conn.writeBuffer.unread
  /-- what has been reported as written has arrived or is on its way -/
  success : ∀ r ∈ (s.conn x).calls, ∀ h, r.call = .write h "" →
    r.pushed <+: (s.conn x.other).received ++ s.wire x
  /-- nothing is left on the wire, and all that was pushed has been reported as written -/
  complete : s.wire x = [] →
    (∃ r ∈ (s.conn x).calls, ∃ h, r.call = .write h "" ∧ r.pushed = (s.conn x).pushed) →
    (s.conn x.other).received = (s.conn x).pushed

/-! ## The read side -/

/-- The contract of the read side: what has arrived has been popped, or is in the read buffer. -/
structure ReadSide (s : TcpRun) : Prop where
  ok : s.conn.readBuffer.Ok
  stream : s.received = s.popped ++ s.conn.readBuffer.unread

namespace TcpConnection

variable {c : TcpConnection} {h : Handler} {o : Outcome} {errMsg : String}

/-! `ReadBuffer_` is touched by `readHandler` and `ReadBufferPopHead` only. -/

theorem finishWrite_readBuffer (errMsg : String) (c : TcpConnection) :
    (c.finishWrite errMsg).conn.readBuffer = c.readBuffer := by
  unfold finishWrite
  split <;> rfl

theorem finish_readBuffer (errMsg : String) (c : TcpConnection) :
    (c.finish errMsg).conn.readBuffer = c.readBuffer := by
  unfold finish finishCancel
  split
  · rfl
  · split
    · rfl
    · exact finishWrite_readBuffer ..
    · exact finishWrite_readBuffer ..

theorem asyncRead_readBuffer (n : UInt64) (h : Handler) (c : TcpConnection) :
    (c.asyncRead n h).conn.readBuffer = c.readBuffer := by
  unfold asyncRead
  split <;> rfl

theorem asyncReadAny_readBuffer (h : Handler) (c : TcpConnection) :
    (c.asyncReadAny h).conn.readBuffer = c.readBuffer := by
  unfold asyncReadAny
  split <;> rfl

theorem asyncDo_readBuffer (ho : c.asyncDo h = some o) : o.conn.readBuffer = c.readBuffer := by
  rcases asyncDo_cases ho with ⟨-, rfl⟩ | rfl <;> rfl

theorem asyncWrite_readBuffer (ho : c.asyncWrite h = some o) :
    o.conn.readBuffer = c.readBuffer := by
  rcases asyncWrite_cases ho with ⟨-, rfl⟩ | ⟨-, -, -, rfl⟩ | ⟨-, -, rfl⟩ <;> rfl

theorem deliver_readBuffer (ho : c.deliver = some o) : o.conn.readBuffer = c.readBuffer := by
  rcases deliver_cases ho with ⟨_, _, -, -, rfl⟩ | ⟨_, -, rfl⟩ <;> rfl

theorem readFailed_readBuffer (errMsg : String) (c : TcpConnection) :
    (c.readFailed errMsg).conn.readBuffer = c.readBuffer := by
  unfold readFailed
  split
  · rfl
  · exact finish_readBuffer ..

theorem readDone_readBuffer (c : TcpConnection) : c.readDone.conn.readBuffer = c.readBuffer := by
  rcases readDone_cases c with ⟨_, -, -, h⟩ | ⟨-, h⟩ <;> rw [h] <;> rfl

theorem writeHandler_readBuffer {r : SysResult} {sent : List UInt8}
    (ho : c.writeHandler r = some (o, sent)) : o.conn.readBuffer = c.readBuffer := by
  rcases writeHandler_outcome ho with ⟨_, _, -, -, rfl⟩ | ⟨_, _, _, -, -, rfl⟩ | ⟨_, rfl⟩ <;> rfl

end TcpConnection

theorem Frame.resume_readBuffer {f : Frame} {c : TcpConnection} {o : Outcome}
    (ho : f.resume c = some o) : o.conn.readBuffer = c.readBuffer := by
  cases f with
  | done | finishWritten => cases ho; rfl
  | callFinish errMsg => cases ho; exact c.finish_readBuffer errMsg
  | finishCanceled errMsg => cases ho; exact c.finishWrite_readBuffer errMsg
  | asyncDo h => exact TcpConnection.asyncDo_readBuffer ho

/-! ## One side -/

namespace TcpRun

variable {s t : TcpRun} {a : TcpAction} {o : Outcome}

/-- What a step does to the bytes and to the records. -/
structure Moved (s : TcpRun) (brought : List UInt8) (t : TcpRun) : Prop where
  sent : s.sent <+: t.sent
  received : t.received = s.received ++ brought
  calls : ∀ r ∈ t.calls, r ∈ s.calls ∨ r.sent = t.sent

theorem moved_same (hsent : t.sent = s.sent) (hreceived : t.received = s.received)
    (hcalls : t.calls = s.calls) : Moved s [] t :=
  ⟨hsent ▸ List.prefix_refl _, by rw [hreceived, List.append_nil], fun r hr => .inl (hcalls ▸ hr)⟩

/-- A method that is left records its call with the bytes sent so far. -/
theorem moved_leave {u : TcpRun} {brought : List UInt8} (h : Moved s brought u)
    (hcalls : u.calls = s.calls) : Moved s brought (u.leave o) := by
  unfold leave
  split
  · exact ⟨h.sent, h.received, h.calls⟩
  · refine ⟨h.sent, h.received, fun r hr => ?_⟩
    rcases List.mem_cons.mp hr with rfl | hr
    · exact .inr rfl
    · exact .inl (hcalls ▸ hr)

theorem moved (ht : s.step a = some t) : Moved s a.brought t := by
  have hleave : ∀ o, Moved s [] (s.leave o) := fun o => moved_leave (moved_same rfl rfl rfl) rfl
  cases a with
  | push buf =>
    obtain ⟨c, -, rfl⟩ := Option.map_eq_some_iff.mp ht
    exact moved_same rfl rfl rfl
  | popHead len =>
    obtain ⟨⟨n, bytes, c⟩, -, rfl⟩ := Option.map_eq_some_iff.mp ht
    exact moved_same rfl rfl rfl
  | asyncRead n h => cases ht; exact hleave _
  | asyncReadAny h => cases ht; exact hleave _
  | finish errMsg => cases ht; exact hleave _
  | asyncWrite h => obtain ⟨o, -, rfl⟩ := Option.map_eq_some_iff.mp ht; exact hleave o
  | deliver => obtain ⟨o, -, rfl⟩ := Option.map_eq_some_iff.mp ht; exact hleave o
  | reset => cases ht; exact moved_same rfl rfl rfl
  | readable r =>
    simp only [step, Option.ite_none_right_eq_some] at ht
    obtain ⟨o, -, rfl⟩ := Option.map_eq_some_iff.mp ht.2
    exact moved_leave ⟨List.prefix_refl _, rfl, fun r hr => .inl hr⟩ rfl
  | writable r =>
    simp only [step, Option.ite_none_right_eq_some] at ht
    obtain ⟨⟨o, sent⟩, -, rfl⟩ := Option.map_eq_some_iff.mp ht.2
    exact moved_leave ⟨List.prefix_append _ _, (List.append_nil _).symm, fun r hr => .inl hr⟩ rfl
  | resume =>
    simp only [step] at ht
    split at ht
    · cases ht
    · obtain ⟨o, -, rfl⟩ := Option.map_eq_some_iff.mp ht
      exact moved_leave (moved_same rfl rfl rfl) rfl

/-- `writeLaw_iff` without `Finish` left out: `Finish` and errors of the read side leave the write
buffer alone. -/
theorem writeLaw_step (hs : WriteLaw s) (ha : WriteSucceeds s a) (ht : s.step a = some t) :
    WriteLaw t := by
  by_cases hopen : a.KeepsOpen
  · refine (step_writeLaw_iff hs hopen ht).mpr ?_
    rintro rfl
    exact ha
  cases a with
  | finish errMsg =>
    cases ht
    exact leave_writeLaw hs (s.conn.finish_quiet errMsg)
  | reset => exact ha.elim
  | readable r =>
    simp only [step, Option.ite_none_right_eq_some] at ht
    obtain ⟨o, ho, rfl⟩ := Option.map_eq_some_iff.mp ht.2
    refine leave_writeLaw ?_ (TcpConnection.readHandler_quiet ho)
    exact ⟨hs.sent_prefix, hs.ok, hs.remaining, hs.success⟩
  | writable r =>
    cases r with
    | error e =>
      simp only [step, Option.ite_none_right_eq_some] at ht
      obtain ⟨⟨o, sent⟩, ho, rfl⟩ := Option.map_eq_some_iff.mp ht.2
      rcases TcpConnection.writeHandler_cases hs.ok ho with ⟨hnil, rfl, hbuf, h, hp⟩ | ⟨hne, -⟩
      · simpa using writable_empty hs hnil hbuf hp
      · exact absurd ((Buffer.index_eq_iff hs.ok).mp ha) hne
    | count n => exact absurd True.intro hopen
    | eagain => exact absurd True.intro hopen
  | push | popHead | asyncRead | asyncReadAny | asyncWrite | deliver | resume =>
    exact absurd True.intro hopen

end TcpRun

namespace ReadSide

open TcpRun

variable {s t : TcpRun} {a : TcpAction} {o : Outcome}

theorem init : ReadSide tcp.init := ⟨Buffer.ok_new, rfl⟩

theorem left {b : Buffer} (ho : o.conn.readBuffer = b) (hok : b.Ok)
    (hstream : s.received = s.popped ++ b.unread) : ReadSide (s.leave o) := by
  subst ho
  unfold TcpRun.leave
  split <;> exact ⟨hok, hstream⟩

/-- A method that leaves the read buffer alone. -/
theorem leave (hs : ReadSide s) (ho : o.conn.readBuffer = s.conn.readBuffer) :
    ReadSide (s.leave o) :=
  left ho hs.ok hs.stream

theorem popHead {len : UInt64} (hs : ReadSide s) (ht : s.step (.popHead len) = some t) :
    ReadSide t := by
  obtain ⟨⟨n, bytes, c⟩, hc, rfl⟩ := Option.map_eq_some_iff.mp ht
  obtain ⟨⟨m, bs, b⟩, hpop, hc⟩ := Option.map_eq_some_iff.mp hc
  cases hc
  obtain ⟨hbytes, hok, hunread⟩ := Buffer.popHead_some hs.ok hpop
  refine ⟨hok, ?_⟩
  show s.received = (s.popped ++ bytes) ++ b.unread
  rw [hbytes, hunread, List.append_assoc, List.take_append_drop]
  exact hs.stream

theorem readable {r : SysRead} (hs : ReadSide s) (ht : s.step (.readable r) = some t) :
    ReadSide t := by
  simp only [TcpRun.step, Option.ite_none_right_eq_some] at ht
  obtain ⟨o, ho, rfl⟩ := Option.map_eq_some_iff.mp ht.2
  rcases TcpConnection.readHandler_cases ho with ⟨rfl, rfl⟩ | ⟨-, hnil, e, -, rfl⟩ | ⟨-, b, hb, rfl⟩
  · exact left rfl hs.ok ((List.append_nil _).trans hs.stream)
  · refine left (s.conn.readFailed_readBuffer e) hs.ok ?_
    show s.received ++ (Socket.read r).2.2 = _
    rw [hnil, List.append_nil]
    exact hs.stream
  · obtain ⟨hok, hunread⟩ := Buffer.write_spec hs.ok hb
    refine left (TcpConnection.readDone_readBuffer _) hok ?_
    show s.received ++ (Socket.read r).2.2 = s.popped ++ b.unread
    rw [hunread, ← List.append_assoc, ← hs.stream]

theorem step (hs : ReadSide s) (ha : a ≠ .reset) (ht : s.step a = some t) : ReadSide t := by
  cases a with
  | push buf =>
    obtain ⟨c, hc, rfl⟩ := Option.map_eq_some_iff.mp ht
    obtain ⟨b, -, rfl⟩ := Option.map_eq_some_iff.mp hc
    exact ⟨hs.ok, hs.stream⟩
  | popHead len => exact hs.popHead ht
  | readable r => exact hs.readable ht
  | reset => exact absurd rfl ha
  | asyncRead n h => cases ht; exact hs.leave (s.conn.asyncRead_readBuffer n h)
  | asyncReadAny h => cases ht; exact hs.leave (s.conn.asyncReadAny_readBuffer h)
  | finish errMsg => cases ht; exact hs.leave (s.conn.finish_readBuffer errMsg)
  | asyncWrite h =>
    obtain ⟨o, ho, rfl⟩ := Option.map_eq_some_iff.mp ht
    exact hs.leave (TcpConnection.asyncWrite_readBuffer ho)
  | deliver =>
    obtain ⟨o, ho, rfl⟩ := Option.map_eq_some_iff.mp ht
    exact hs.leave (TcpConnection.deliver_readBuffer ho)
  | writable r =>
    simp only [TcpRun.step, Option.ite_none_right_eq_some] at ht
    obtain ⟨⟨o, sent⟩, ho, rfl⟩ := Option.map_eq_some_iff.mp ht.2
    exact leave (s := { s with sent := s.sent ++ sent }) ⟨hs.ok, hs.stream⟩
      (TcpConnection.writeHandler_readBuffer ho)
  | resume =>
    simp only [TcpRun.step] at ht
    split at ht
    · cases ht
    next f fs _ =>
      obtain ⟨o, ho, rfl⟩ := Option.map_eq_some_iff.mp ht
      exact leave (s := { s with frames := fs }) ⟨hs.ok, hs.stream⟩ (Frame.resume_readBuffer ho)

end ReadSide

/-! ## Both sides -/

theorem Side.eq_or_other (x y : Side) : y = x ∨ y = x.other := by
  cases x <;> cases y <;> decide

theorem Side.other_ne (x : Side) : x.other ≠ x := by
  cases x <;> decide

theorem Side.other_other (x : Side) : x.other.other = x := by
  cases x <;> rfl

namespace Stream

variable {s t : Stream} {x : Side} {a : TcpAction}

/-- What arrives was on the wire. -/
theorem brought_isPrefix (ha : s.canArrive x a = true) : a.brought <+: s.wire x.other := by
  cases a with
  | readable r =>
    cases r with
    | bytes bs =>
      cases bs with
      | nil => exact List.nil_prefix
      | cons b bs => exact List.isPrefixOf_iff_prefix.mp ha
    | eagain | error => exact List.nil_prefix
  | push | popHead | asyncRead | asyncReadAny | asyncWrite | finish | reset | deliver | writable
  | resume => exact List.nil_prefix

structure Inv (s : Stream) : Prop where
  write : ∀ x, WriteLaw (s.conn x)
  read : ∀ x, ReadSide (s.conn x)
  wire : ∀ x, (s.conn x).sent = (s.conn x.other).received ++ s.wire x
  calls : ∀ x, ∀ r ∈ (s.conn x).calls, r.sent <+: (s.conn x).sent

theorem Inv.init : Inv stream.init :=
  ⟨fun _ => init_writeLaw, fun _ => ReadSide.init, fun _ => rfl, fun _ _ hr => by cases hr⟩

theorem Inv.step (hs : Inv s) (ha : WriteSucceeds (s.conn x) a) (ht : s.step (x, a) = some t) :
    Inv t := by
  simp only [Stream.step, Option.ite_none_right_eq_some] at ht
  obtain ⟨harrive, ht⟩ := ht
  obtain ⟨u, hu, rfl⟩ := Option.map_eq_some_iff.mp ht
  have hmoved := TcpRun.moved hu
  have hreset : a ≠ .reset := by
    rintro rfl
    exact ha
  have hself : (s.moved x u a.brought).conn x = u := Function.update_self ..
  have hother : (s.moved x u a.brought).conn x.other = s.conn x.other :=
    Function.update_of_ne x.other_ne ..
  refine ⟨?_, ?_, fun y => ?_, ?_⟩
  · exact forall_update (TcpRun.writeLaw_step (hs.write x) ha hu) fun y _ => hs.write y
  · exact forall_update ((hs.read x).step hreset hu) fun y _ => hs.read y
  · rcases Side.eq_or_other x y with rfl | rfl
    · -- what the side has sent is on the wire
      rw [hself, hother]
      show u.sent = _ ++ (if y = y then s.wire y ++ u.sent.drop (s.conn y).sent.length else _)
      rw [if_pos rfl, ← List.append_assoc, ← hs.wire y]
      exact (List.prefix_iff_eq_append.mp hmoved.sent).symm
    · -- what it has read is not any more
      rw [hother, Side.other_other, hself, hmoved.received]
      show _ = _ ++ (if x.other = x then _ else (s.wire x.other).drop a.brought.length)
      rw [if_neg x.other_ne, List.append_assoc,
        List.prefix_iff_eq_append.mp (brought_isPrefix harrive)]
      have hwire := hs.wire x.other
      rwa [Side.other_other] at hwire
  · refine forall_update (R := fun _ (c : TcpRun) => ∀ r ∈ c.calls, r.sent <+: c.sent)
      (fun r hr => ?_) fun y _ => hs.calls y
    rcases hmoved.calls r hr with hr | hr
    · exact (hs.calls x r hr).trans hmoved.sent
    · exact hr ▸ List.prefix_refl _

theorem Inv.law (hs : Inv s) (x : Side) : StreamLaw s x where
  whole := by
    rw [(hs.write x).remaining, hs.wire x, (hs.read x.other).stream]
  success := fun r hr h hw => by
    rw [← hs.wire x, ← (hs.write x).success r hr h hw]
    exact hs.calls x r hr
  complete := fun hwire ⟨r, hr, h, hw, hpushed⟩ => by
    have hsent : r.sent = (s.conn x).pushed := ((hs.write x).success r hr h hw).trans hpushed
    have hle := (hsent ▸ hs.calls x r hr).length_le
    have heq := hs.wire x
    rw [hwire, List.append_nil] at heq
    rw [← heq]
    have hwrite := hs.write x
    exact hwrite.sent_prefix.eq_of_length_le hle

end Stream

/-- Every run without failed writes and without `Reset`, whatever the two users and the network do
and whoever finishes first. -/
theorem stream_law (s : Stream)
    (h : stream.ReachableVia (fun s a => WriteSucceeds (s.conn a.1) a.2) s) (x : Side) :
    StreamLaw s x :=
  (h.invariant (P := Stream.Inv) .init fun _ _ _ hs ha ht => hs.step ha ht).law x

/-- The client sends three bytes and finishes when they are written; the server reads to the end. -/
def transfer : List (Side × TcpAction) :=
  [(.client, .push [1, 2, 3]), (.client, .asyncWrite 7), (.client, .deliver),
    (.client, .writable (.count 2)), (.server, .readable (.bytes [1])), (.server, .popHead 1),
    (.client, .writable (.count 1)), (.client, .writable .eagain),
    (.client, .resume), (.client, .finish "done"), (.server, .readable (.bytes [2, 3])),
    (.server, .readable (.bytes []))]

theorem stream_law_transfer :
    ∃ s, stream.run stream.init transfer = some s ∧ StreamLaw s .client := by
  have hvia : stream.AllSteps (fun s a => WriteSucceeds (s.conn a.1) a.2) stream.init transfer := by
    decide +kernel
  have hsome : (stream.run stream.init transfer).isSome := by decide +kernel
  obtain ⟨s, hs⟩ := Option.isSome_iff_exists.mp hsome
  exact ⟨s, hs, stream_law s (System.ReachableVia.init.run hvia hs) .client⟩

end Sheep
