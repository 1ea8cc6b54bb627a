import Mathlib.Algebra.Group.Int.Defs
import Mathlib.Algebra.Group.Nat.Defs
import Mathlib.Data.List.Basic

/-!
# The byte buffer of a connection

`Buffer` (`net/common/tcp/buffer.cpp`) keeps two `uint64_t` indices into a `std::vector<char>`.
`Push` inserts behind the write index, `PopHead` copies from the read index, and when the two
meet both go back to zero. The bytes between them are the queue: `unread` is the abstraction
function, `Buffer.Ok` the invariant, and the three `_spec` theorems say what `Write`, `Read` and
`UpdateReadIndex` do to the queue.

`none` stands for the two ways out of the C++ code that leave no buffer to speak of: the
`std::length_error` of `insert`, and a `std::copy` that runs past the vector.
-/

namespace Sheep

/-- `std::vector<char>::max_size()`. `insert` throws `std::length_error` beyond it. -/
def vectorMaxSize : Nat := 2 ^ 63 - 1

structure Buffer where
  readIndex : UInt64
  writeIndex : UInt64
  buffer : List UInt8
  deriving DecidableEq, Repr

namespace Buffer

def initSize : Nat := 1024

/-- The constructor: `buffer_(InitSize_)`. -/
def new : Buffer := ⟨0, 0, List.replicate initSize 0⟩

def reset : Buffer := ⟨0, 0, []⟩

/-- `Write`: inserts at `writeIndex_`, in front of whatever the vector holds there. -/
def write (b : Buffer) (buf : List UInt8) : Option Buffer :=
  if vectorMaxSize < b.buffer.length + buf.length then none
  else
    let w := b.writeIndex.toNat
    some { b with
      buffer := b.buffer.take w ++ buf ++ b.buffer.drop w
      writeIndex := b.writeIndex + UInt64.ofNat buf.length }

/-- `Read`: the count and the bytes copied. It does not move `readIndex_`. -/
def read (b : Buffer) (len : UInt64) : Option (UInt64 × List UInt8) :=
  if b.readIndex = b.writeIndex then some (0, [])
  else
    let len := if b.writeIndex < b.readIndex + len then b.writeIndex - b.readIndex else len
    if b.buffer.length < b.readIndex.toNat + len.toNat then none
    else some (len, (b.buffer.drop b.readIndex.toNat).take len.toNat)

/-- `UpdateReadIndex`: the addition wraps, and equal indices reset the buffer. -/
def updateReadIndex (b : Buffer) (len : UInt64) : Buffer :=
  let b := { b with readIndex := b.readIndex + len }
  if b.readIndex = b.writeIndex then reset else b

/-- `Push`. -/
def push (b : Buffer) (buf : List UInt8) : Option Buffer := b.write buf

/-- `PopHead`: the count, the bytes copied and the buffer after it. -/
def popHead (b : Buffer) (len : UInt64) : Option (UInt64 × List UInt8 × Buffer) :=
  (b.read len).map fun (n, bytes) => (n, bytes, b.updateReadIndex n)

/-- The bytes pushed and not yet popped. -/
def unread (b : Buffer) : List UInt8 :=
  (b.buffer.take b.writeIndex.toNat).drop b.readIndex.toNat

/-- The indices are in order and inside the vector. -/
structure Ok (b : Buffer) : Prop where
  read_le : b.readIndex.toNat ≤ b.writeIndex.toNat
  write_le : b.writeIndex.toNat ≤ b.buffer.length
  size_le : b.buffer.length ≤ vectorMaxSize

theorem ok_new : new.Ok := by
  refine ⟨Nat.le_refl 0, Nat.zero_le _, ?_⟩
  show (List.replicate initSize 0).length ≤ vectorMaxSize
  rw [List.length_replicate]
  decide

theorem ok_reset : reset.Ok := ⟨by decide, by decide, by decide⟩

theorem unread_length {b : Buffer} (h : b.Ok) :
    b.unread.length = b.writeIndex.toNat - b.readIndex.toNat := by
  have := h.write_le
  simp only [unread, List.length_drop, List.length_take]
  omega

/-- The indices meet exactly when nothing is left to read. -/
theorem index_eq_iff {b : Buffer} (h : b.Ok) : b.readIndex = b.writeIndex ↔ b.unread = [] := by
  rw [← List.length_eq_zero_iff, unread_length h, ← UInt64.toNat_inj]
  have := h.read_le
  omega

/-- `Write` appends to the queue. -/
theorem write_spec {b b' : Buffer} {buf : List UInt8} (h : b.Ok) (hw : b.write buf = some b') :
    b'.Ok ∧ b'.unread = b.unread ++ buf := by
  have hr := h.read_le
  have hl := h.write_le
  unfold write at hw
  split at hw
  · cases hw
  next hsize =>
    simp only [Option.some.injEq] at hw
    subst hw
    have hmax : vectorMaxSize < 2 ^ 63 := by decide
    have hidx : (b.writeIndex + UInt64.ofNat buf.length).toNat =
        b.writeIndex.toNat + buf.length := by
      simp only [UInt64.toNat_add, UInt64.toNat_ofNat']
      omega
    have htake : (b.buffer.take b.writeIndex.toNat).length = b.writeIndex.toNat := by
      rw [List.length_take]; omega
    refine ⟨⟨?_, ?_, ?_⟩, ?_⟩
    · show b.readIndex.toNat ≤ (b.writeIndex + UInt64.ofNat buf.length).toNat
      omega
    · simp only [hidx, List.length_append, List.length_drop, htake]; omega
    · simp only [List.length_append, List.length_drop, htake]; omega
    · have hlen : (b.buffer.take b.writeIndex.toNat ++ buf).length =
          b.writeIndex.toNat + buf.length := by rw [List.length_append, htake]
      simp only [unread, hidx]
      rw [List.take_append_of_le_length (by omega), List.take_of_length_le (by omega),
        List.drop_append_of_le_length (by omega)]

/-- `Read` copies the oldest bytes of the queue, at most `len` of them. -/
theorem read_spec {b : Buffer} {len : UInt64} (h : b.Ok) (hlen : len.toNat < 2 ^ 63) :
    ∃ n, b.read len = some (n, b.unread.take len.toNat) ∧
      n.toNat = min len.toNat b.unread.length := by
  have hr := h.read_le
  have hl := h.write_le
  have hs := h.size_le
  have hmax : vectorMaxSize < 2 ^ 63 := by decide
  have hun := unread_length h
  unfold read
  split
  next heq =>
    have hnil : b.unread = [] := (index_eq_iff h).mp heq
    exact ⟨0, by simp [hnil], by simp [hnil]⟩
  next hne =>
    have hadd : (b.readIndex + len).toNat = b.readIndex.toNat + len.toNat := by
      rw [UInt64.toNat_add]; omega
    by_cases hlt : b.writeIndex < b.readIndex + len
    · have hlt' : b.writeIndex.toNat < b.readIndex.toNat + len.toNat := by
        rw [← hadd]; exact UInt64.lt_iff_toNat_lt.mp hlt
      have hsub : (b.writeIndex - b.readIndex).toNat = b.writeIndex.toNat - b.readIndex.toNat :=
        UInt64.toNat_sub_of_le _ _ (UInt64.le_iff_toNat_le.mpr hr)
      refine ⟨b.writeIndex - b.readIndex, ?_, by omega⟩
      simp only [hlt, if_true, hsub]
      rw [if_neg (by omega), List.take_of_length_le (l := b.unread) (by omega)]
      simp only [unread, List.drop_take]
    · have hge : b.readIndex.toNat + len.toNat ≤ b.writeIndex.toNat := by
        rw [← hadd]
        exact Nat.le_of_not_lt fun hc => hlt (UInt64.lt_iff_toNat_lt.mpr hc)
      refine ⟨len, ?_, by omega⟩
      simp only [hlt, if_false]
      rw [if_neg (by omega)]
      simp only [unread, List.drop_take, List.take_take]
      rw [Nat.min_eq_left (by omega)]

/-- `Read` of a length copies nothing only where the indices have met. -/
theorem read_ne_zero {b : Buffer} {len n : UInt64} {bytes : List UInt8}
    (hne : b.readIndex ≠ b.writeIndex) (hlen : len ≠ 0) (hread : b.read len = some (n, bytes)) :
    n ≠ 0 := by
  rintro rfl
  unfold read at hread
  rw [if_neg hne] at hread
  by_cases hlt : b.writeIndex < b.readIndex + len
  · simp only [hlt, if_true, Option.ite_none_left_eq_some, Option.some.injEq, Prod.mk.injEq]
      at hread
    obtain ⟨-, hzero, -⟩ := hread
    rw [UInt64.sub_eq_iff_eq_add, UInt64.zero_add] at hzero
    exact hne hzero.symm
  · simp only [hlt, if_false, Option.ite_none_left_eq_some, Option.some.injEq, Prod.mk.injEq]
      at hread
    exact hlen hread.2.1

/-- `UpdateReadIndex` drops the bytes read, when it is told no more than there are. -/
theorem updateReadIndex_spec {b : Buffer} {n : UInt64} (h : b.Ok)
    (hn : n.toNat ≤ b.unread.length) :
    (b.updateReadIndex n).Ok ∧ (b.updateReadIndex n).unread = b.unread.drop n.toNat := by
  have hr := h.read_le
  have hl := h.write_le
  have hs := h.size_le
  have hmax : vectorMaxSize < 2 ^ 63 := by decide
  rw [unread_length h] at hn
  have hadd : (b.readIndex + n).toNat = b.readIndex.toNat + n.toNat := by
    rw [UInt64.toNat_add]; omega
  unfold updateReadIndex
  by_cases heq : b.readIndex + n = b.writeIndex
  · have hdrop : b.unread.drop n.toNat = [] := by
      rw [List.drop_eq_nil_iff, unread_length h, ← heq, hadd]
      omega
    simp only [heq, if_true, hdrop]
    exact ⟨ok_reset, rfl⟩
  · simp only [heq, if_false]
    refine ⟨⟨?_, hl, hs⟩, ?_⟩
    · show (b.readIndex + n).toNat ≤ b.writeIndex.toNat
      omega
    · simp only [unread, hadd, List.drop_drop]

/-- `Read` either runs past the vector or copies the oldest bytes of the queue, for every `len`. -/
theorem read_some {b : Buffer} {len n : UInt64} {bytes : List UInt8} (h : b.Ok)
    (hread : b.read len = some (n, bytes)) :
    bytes = b.unread.take len.toNat ∧ n.toNat = min len.toNat b.unread.length := by
  rcases Nat.lt_or_ge len.toNat (2 ^ 63) with hlen | hlen
  · obtain ⟨m, hm, hcount⟩ := read_spec h hlen
    rw [hm] at hread
    cases hread
    exact ⟨rfl, hcount⟩
  · -- the sum of the index and `len` may wrap; then `len` is not cut, and no vector is that long
    have hr := h.read_le
    have hl := h.write_le
    have hs := h.size_le
    have hmax : vectorMaxSize < 2 ^ 63 := by decide
    have hun := unread_length h
    unfold read at hread
    split at hread
    next heq =>
      cases hread
      have hnil : b.unread = [] := (index_eq_iff h).mp heq
      simp [hnil]
    next hne =>
      by_cases hlt : b.writeIndex < b.readIndex + len
      · have hsub : (b.writeIndex - b.readIndex).toNat = b.writeIndex.toNat - b.readIndex.toNat :=
          UInt64.toNat_sub_of_le _ _ (UInt64.le_iff_toNat_le.mpr hr)
        simp only [hlt, if_true, hsub] at hread
        rw [if_neg (by omega)] at hread
        cases hread
        rw [List.take_of_length_le (l := b.unread) (by omega), hsub]
        refine ⟨?_, by omega⟩
        simp only [unread, List.drop_take]
      · simp only [hlt, if_false] at hread
        rw [if_pos (by omega)] at hread
        cases hread

theorem popHead_count {b b' : Buffer} {len n : UInt64} {bytes : List UInt8} (h : b.Ok)
    (hpop : b.popHead len = some (n, bytes, b')) : n.toNat = min len.toNat b.unread.length := by
  obtain ⟨⟨m, bs⟩, hread, hupd⟩ := Option.map_eq_some_iff.mp hpop
  cases hupd
  exact (read_some h hread).2

/-- `PopHead` takes the oldest bytes off the queue. -/
theorem popHead_some {b b' : Buffer} {len n : UInt64} {bytes : List UInt8} (h : b.Ok)
    (hpop : b.popHead len = some (n, bytes, b')) :
    bytes = b.unread.take len.toNat ∧ b'.Ok ∧ b'.unread = b.unread.drop len.toNat := by
  obtain ⟨⟨m, bs⟩, hread, hupd⟩ := Option.map_eq_some_iff.mp hpop
  cases hupd
  obtain ⟨hbytes, hn⟩ := read_some h hread
  obtain ⟨hok, hdrop⟩ := updateReadIndex_spec (n := n) h (by omega)
  refine ⟨hbytes, hok, ?_⟩
  rw [hdrop, hn]
  rcases Nat.le_total len.toNat b.unread.length with hle | hle
  · rw [Nat.min_eq_left hle]
  · rw [Nat.min_eq_right hle, List.drop_of_length_le (Nat.le_refl _), List.drop_of_length_le hle]

/-- What one `PopHead` of a loop does that takes all that is there. -/
structure Popped (b : Buffer) (len n : UInt64) (bytes : List UInt8) (b' : Buffer) : Prop where
  ok : b'.Ok
  pieces : bytes ++ b'.unread = b.unread
  count : n.toNat = bytes.length
  fits : bytes.length ≤ len.toNat
  /-- the loop ends when nothing is left -/
  nothing : n = 0 → b.unread = []

theorem popHead_popped {b b' : Buffer} {len n : UInt64} {bytes : List UInt8} (h : b.Ok)
    (hlen : len.toNat ≠ 0) (hpop : b.popHead len = some (n, bytes, b')) :
    Popped b len n bytes b' := by
  obtain ⟨hbytes, hok, hunread⟩ := popHead_some h hpop
  have hcount : n.toNat = min len.toNat b.unread.length := popHead_count h hpop
  have hlength : bytes.length = min len.toNat b.unread.length := by rw [hbytes, List.length_take]
  refine ⟨hok, ?_, hcount.trans hlength.symm, hlength ▸ Nat.min_le_left _ _, fun hzero => ?_⟩
  · rw [hbytes, hunread, List.take_append_drop]
  · rw [hzero] at hcount
    exact List.length_eq_zero_iff.mp ((Nat.min_eq_zero_iff.mp hcount.symm).resolve_left hlen)

theorem popHead_isSome {b : Buffer} {len : UInt64} (h : b.Ok) (hlen : len.toNat < 2 ^ 63) :
    (b.popHead len).isSome := by
  obtain ⟨n, hread, -⟩ := read_spec h hlen
  rw [popHead, hread]
  rfl

theorem Popped.ne_nil {b b' : Buffer} {len n : UInt64} {bytes : List UInt8}
    (h : Popped b len n bytes b') (hn : n ≠ 0) : bytes ≠ [] := by
  rintro rfl
  exact hn (UInt64.toNat_inj.mp h.count)

/-- The bound on the rounds of such a loop. -/
theorem Popped.shorter {b b' : Buffer} {len n : UInt64} {bytes : List UInt8}
    (h : Popped b len n bytes b') (hn : n ≠ 0) : b'.unread.length < b.unread.length := by
  rw [← h.pieces, List.length_append]
  exact Nat.lt_add_of_pos_left (List.length_pos_of_ne_nil (h.ne_nil hn))

end Buffer

end Sheep
