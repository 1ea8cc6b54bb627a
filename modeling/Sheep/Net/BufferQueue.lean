import Mathlib.Algebra.Group.Nat.Defs
import Mathlib.Algebra.GroupWithZero.Nat
import Mathlib.Algebra.Order.BigOperators.Group.List
import Mathlib.Algebra.Order.Group.Nat
import Sheep.Net.Buffer

/-!
# A buffer as a queue

A `Call` is a `Push` or a `PopHead`. `fifo` and `fifoReturns` say what a queue of bytes makes of
it: `Push` appends, `PopHead` takes the oldest bytes, as many as there are and as it asks for.

`Fifo` compares a buffer with the queue over a whole sequence of calls, the resets included. The one
difference is a `Push` that throws: `insert` counts the whole vector, with the bytes that were read
already and the 1024 that a new buffer starts with (`TooLong`).
-/

namespace Sheep

namespace Buffer

/-- A call, with what it is given. -/
inductive Call
  | push (buf : List UInt8)
  | popHead (len : UInt64)

/-- A call on the buffer: the count and the bytes of a `PopHead`, and the buffer after it. -/
def call (b : Buffer) : Call → Option (Option (Nat × List UInt8) × Buffer)
  | .push buf => (b.push buf).map fun b => (none, b)
  | .popHead len => (b.popHead len).map fun (n, bytes, b) => (some (n.toNat, bytes), b)

/-! ## The queue -/

/-- The queue after a call. -/
def fifo (queue : List UInt8) : Call → List UInt8
  | .push buf => queue ++ buf
  | .popHead len => queue.drop len.toNat

/-- What the queue returns for a call. -/
def fifoReturns (queue : List UInt8) : Call → Option (Nat × List UInt8)
  | .push _ => none
  | .popHead len => some (min len.toNat queue.length, queue.take len.toNat)

/-- Every call returns what it does on the queue, and leaves the indices in order and inside the
vector. A call that is `excused` may throw instead, and ends the sequence. -/
def Fifo (excused : Buffer → Call → Prop) : Buffer → List UInt8 → List Call → Prop
  | _, _, [] => True
  | b, queue, c :: calls =>
    (∃ b', b.call c = some (fifoReturns queue c, b') ∧ b'.Ok ∧
        Fifo excused b' (fifo queue c) calls) ∨
      (b.call c = none ∧ excused b c)

/-- A `Push` of more than the vector has room for. -/
def TooLong (b : Buffer) : Call → Prop
  | .push buf => vectorMaxSize < b.buffer.length + buf.length
  | .popHead _ => False

/-- The bytes that a call pushes. -/
def Call.pushLength : Call → Nat
  | .push buf => buf.length
  | .popHead _ => 0

/-- The bytes that a call asks for. -/
def Call.popLength : Call → Nat
  | .push _ => 0
  | .popHead len => len.toNat

def pushed (calls : List Call) : Nat := (calls.map Call.pushLength).sum

def popped (calls : List Call) : Nat := (calls.map Call.popLength).sum

/-! ## One call -/

theorem push_none_iff (b : Buffer) (buf : List UInt8) :
    b.push buf = none ↔ b.TooLong (.push buf) := by
  unfold push write TooLong
  by_cases h : vectorMaxSize < b.buffer.length + buf.length <;> simp [h]

/-- A call does what it does on the queue, or is a `Push` that is too long. -/
theorem call_spec {b : Buffer} (h : b.Ok) (c : Call) (hlen : c.popLength < 2 ^ 63) :
    (∃ b', b.call c = some (fifoReturns b.unread c, b') ∧ b'.Ok ∧ b'.unread = fifo b.unread c) ∨
      (b.call c = none ∧ b.TooLong c) := by
  cases c with
  | push buf =>
    cases hpush : b.push buf with
    | none =>
      refine .inr ⟨?_, (b.push_none_iff buf).mp hpush⟩
      simp only [call, hpush, Option.map_none]
    | some b' =>
      obtain ⟨hok, hunread⟩ := write_spec h hpush
      refine .inl ⟨b', ?_, hok, hunread⟩
      simp only [call, hpush, Option.map_some, fifoReturns]
  | popHead len =>
    obtain ⟨⟨n, bytes, b'⟩, hpop⟩ := Option.isSome_iff_exists.mp (popHead_isSome h hlen)
    obtain ⟨hbytes, hok, hunread⟩ := popHead_some h hpop
    refine .inl ⟨b', ?_, hok, hunread⟩
    simp only [call, hpop, Option.map_some, fifoReturns, popHead_count h hpop, hbytes]

/-- A call makes the vector longer by what it pushes, if at all. -/
theorem call_size {b b' : Buffer} {c : Call} {returned : Option (Nat × List UInt8)}
    (hcall : b.call c = some (returned, b')) :
    b'.buffer.length ≤ b.buffer.length + c.pushLength := by
  cases c with
  | push buf =>
    obtain ⟨b1, hpush, heq⟩ := Option.map_eq_some_iff.mp hcall
    cases heq
    unfold push write at hpush
    split at hpush
    · cases hpush
    · cases hpush
      simp only [Call.pushLength, List.length_append, List.length_take, List.length_drop]
      omega
  | popHead len =>
    obtain ⟨⟨n, bytes, b1⟩, hpop, heq⟩ := Option.map_eq_some_iff.mp hcall
    cases heq
    obtain ⟨⟨m, bs⟩, -, hupd⟩ := Option.map_eq_some_iff.mp hpop
    cases hupd
    show (b.updateReadIndex n).buffer.length ≤ b.buffer.length
    simp only [updateReadIndex]
    split
    · exact Nat.zero_le _
    · exact Nat.le_refl _

/-! ## A sequence of calls -/

theorem popLength_le_popped {c : Call} {calls : List Call} (hc : c ∈ calls) :
    c.popLength ≤ popped calls := List.le_sum_of_mem (List.mem_map_of_mem hc)

/-- Where only calls that are too long throw, a buffer is its queue up to the first of them. -/
theorem fifo_run {b : Buffer} (h : b.Ok) {excused : Buffer → Call → Prop} (calls : List Call)
    (hlen : ∀ c ∈ calls, c.popLength < 2 ^ 63)
    (hexcused : ∀ b' c, c ∈ calls →
      b'.buffer.length + c.pushLength ≤ b.buffer.length + pushed calls →
        b'.TooLong c → excused b' c) : Fifo excused b b.unread calls := by
  induction calls generalizing b with
  | nil => exact True.intro
  | cons c calls ih =>
    have hpushed : pushed (c :: calls) = c.pushLength + pushed calls := List.sum_cons
    rcases call_spec h c (hlen c List.mem_cons_self) with ⟨b', hcall, hok, hunread⟩ | ⟨hnone, hlong⟩
    · refine .inl ⟨b', hcall, hok, ?_⟩
      rw [← hunread]
      refine ih hok (fun c hc => hlen c (List.mem_cons_of_mem _ hc)) fun b1 c1 hc1 hsize => ?_
      refine hexcused b1 c1 (List.mem_cons_of_mem _ hc1) ?_
      have hgrow := call_size hcall
      rw [hpushed]
      omega
    · refine .inr ⟨hnone, hexcused b c List.mem_cons_self ?_ hlong⟩
      rw [hpushed]
      omega

/-- A new buffer is a queue of bytes, for every sequence of calls, except that a `Push` throws where
it is too long for the vector. No `Push` does as long as the bytes pushed, and the 1024 that the
vector starts with, are fewer than 2^63. -/
theorem new_fifo (calls : List Call) (hpop : popped calls < 2 ^ 63) :
    Fifo TooLong new [] calls ∧
      (initSize + pushed calls < 2 ^ 63 → Fifo (fun _ _ => False) new [] calls) := by
  have hlen : ∀ c ∈ calls, c.popLength < 2 ^ 63 := fun c hc =>
    Nat.lt_of_le_of_lt (popLength_le_popped hc) hpop
  refine ⟨fifo_run ok_new calls hlen fun _ _ _ _ hlong => hlong, fun hroom => ?_⟩
  refine fifo_run ok_new calls hlen fun b c _ hsize hlong => ?_
  have hnew : new.buffer.length = initSize := List.length_replicate
  have hmax : vectorMaxSize = 2 ^ 63 - 1 := rfl
  cases c with
  | push buf =>
    simp only [TooLong, Call.pushLength] at hlong hsize
    omega
  | popHead len => exact hlong

/-- Zero lengths, a reset, and bytes pushed while others are still there. -/
theorem new_fifo_six_calls :
    Fifo (fun _ _ => False) new [] [.push [1, 2, 3], .push [], .popHead 2, .popHead 0, .popHead 9,
      .push [4]] :=
  (new_fifo [.push [1, 2, 3], .push [], .popHead 2, .popHead 0, .popHead 9, .push [4]]
    (by decide)).2 (by decide)

def longestPush : List UInt8 := List.replicate (2 ^ 63 - 1) 0

/-- The vector of a new buffer has no room for 2^63 - 1 bytes more. -/
theorem longestPush_throws :
    pushed [.push longestPush] < 2 ^ 63 ∧ new.call (.push longestPush) = none ∧
      ¬ Fifo (fun _ _ => False) new [] [.push longestPush] := by
  have hlength : longestPush.length = 2 ^ 63 - 1 := List.length_replicate
  have hnew : new.buffer.length = 1024 := List.length_replicate
  generalize longestPush = buf at hlength
  have hlong : new.TooLong (.push buf) := by
    simp only [TooLong, hlength, hnew]
    decide
  have hnone : new.call (.push buf) = none := by
    simp only [call, (new.push_none_iff buf).mpr hlong, Option.map_none]
  refine ⟨?_, hnone, ?_⟩
  · simp [pushed, Call.pushLength, hlength]
  · rintro (⟨b', hcall, -, -⟩ | ⟨-, hfalse⟩)
    · rw [hnone] at hcall
      cases hcall
    · exact hfalse

end Buffer

end Sheep
