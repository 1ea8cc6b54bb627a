import Mathlib.Data.List.Lex
import Mathlib.Data.List.TakeWhile
import Mathlib.Order.Lattice

/-!
# Byte strings

A `std::string` is its bytes. Here are the order that a `std::map` keeps its keys in, the part of a
string that a `const char *` is read as, and decimal numerals with the number that they denote.
-/

namespace Sheep

abbrev Bytes := List UInt8

/-- The text of an ASCII literal. -/
def bytes (s : String) : Bytes := s.toList.map fun c => c.val.toUInt8

/-- What holds of 256 numbers holds of every byte. -/
theorem forall_byte {p : UInt8 → Prop} (h : ∀ n : Fin 256, p (UInt8.ofFin n)) (b : UInt8) : p b :=
  h b.toFin

/-! ## Order -/

/-- The order of `char_traits<char>`: by unsigned value. -/
instance byteOrder : LinearOrder UInt8 where
  le_refl := UInt8.le_refl
  le_trans := fun _ _ _ => UInt8.le_trans
  le_antisymm := fun _ _ => UInt8.le_antisymm
  le_total := UInt8.le_total
  lt_iff_le_not_ge := fun a b => by
    rw [UInt8.lt_iff_toNat_lt, UInt8.le_iff_toNat_le, UInt8.le_iff_toNat_le]
    exact Nat.lt_iff_le_and_not_ge
  toDecidableLE := inferInstance
  toDecidableLT := inferInstance
  toDecidableEq := inferInstance

/-! ## C strings -/

/-- The bytes that a `const char *` is read as. -/
def cString (bytes : List UInt8) : List UInt8 := bytes.takeWhile (· ≠ 0)

theorem cString_eq_self {bytes : List UInt8} : cString bytes = bytes ↔ 0 ∉ bytes := by
  unfold cString
  rw [List.takeWhile_eq_self_iff]
  constructor
  · intro h hmem
    exact absurd (h 0 hmem) (by decide)
  · intro h b hb
    exact decide_eq_true fun heq => h (heq ▸ hb)

/-! ## Characters, in the C locale -/

/-- `isspace` in the C locale. -/
def isSpace (b : UInt8) : Bool := b == 32 || (9 ≤ b && b ≤ 13)

def isDigit (b : UInt8) : Bool := 48 ≤ b && b ≤ 57

def isalpha (ch : UInt8) : Bool := 65 ≤ ch && ch ≤ 90 || 97 ≤ ch && ch ≤ 122

def tolower (ch : UInt8) : UInt8 := if 65 ≤ ch && ch ≤ 90 then ch + 32 else ch

/-! ## Separators -/

/-- The parts before and behind the first `sep`. -/
def splitFirst (sep : UInt8) : Bytes → Option (Bytes × Bytes)
  | [] => none
  | ch :: rest =>
    if ch = sep then some ([], rest)
    else (splitFirst sep rest).map fun (before, behind) => (ch :: before, behind)

theorem splitFirst_append {sep : UInt8} {before : Bytes} (h : sep ∉ before) (behind : Bytes) :
    splitFirst sep (before ++ sep :: behind) = some (before, behind) := by
  induction before with
  | nil => exact if_pos rfl
  | cons ch rest ih =>
    have hne : ch ≠ sep := fun heq => h (heq ▸ List.mem_cons_self)
    have ih' := ih fun hmem => h (List.mem_cons_of_mem ch hmem)
    rw [List.cons_append, splitFirst, if_neg hne, ih']
    rfl

/-! ## Decimal numerals -/

/-- The number that digits denote. -/
def ofDigits (digits : Bytes) : Nat := digits.foldl (fun n ch => 10 * n + (ch.toNat - 48)) 0

/-- The number that a numeral denotes: one digit at least, and nothing else. -/
def decimal (text : Bytes) : Option Nat :=
  if text ≠ [] ∧ text.all isDigit then some (ofDigits text) else none

inductive StdException
  | invalidArgument
  | outOfRange
  deriving DecidableEq, Repr

/-- The number that `strtol` reads: blanks, a sign, digits. `none` without a digit. -/
def strtol (str : Bytes) : Option Int :=
  let str := str.dropWhile isSpace
  let (negative, str) :=
    match str with
    | 45 :: rest => (true, rest)
    | 43 :: rest => (false, rest)
    | _ => (false, str)
  let digits := str.takeWhile isDigit
  let value : Int := digits.foldl (fun v d => v * 10 + (d.toNat - 48)) 0
  if digits.isEmpty then none else some (if negative then -value else value)

/-- `std::stoi`. -/
def stoi (str : Bytes) : Except StdException Int :=
  match strtol str with
  | none => .error .invalidArgument
  | some v => if -2147483648 ≤ v ∧ v ≤ 2147483647 then .ok v else .error .outOfRange

/-! ## What is written is read -/

theorem toUInt8_of_isDigit {c : Char} (h : c.isDigit = true) :
    isDigit c.val.toUInt8 = true ∧ c.val.toUInt8.toNat = c.toNat := by
  have hrange : 48 ≤ c.val.toNat ∧ c.val.toNat ≤ 57 := by
    simpa [Char.isDigit, UInt32.le_iff_toNat_le] using h
  have hmod : c.val.toUInt8.toNat = c.val.toNat := by
    rw [UInt32.toNat_toUInt8]
    omega
  refine ⟨?_, hmod⟩
  simp only [isDigit, Bool.and_eq_true, decide_eq_true_eq, UInt8.le_iff_toNat_le, hmod]
  exact hrange

theorem ofDigits_chars {cs : List Char} (h : ∀ c ∈ cs, c.isDigit = true) :
    ofDigits (cs.map fun c => c.val.toUInt8) = Nat.ofDigitChars 10 cs 0 := by
  unfold ofDigits Nat.ofDigitChars
  rw [List.foldl_map]
  generalize 0 = init
  induction cs generalizing init with
  | nil => rfl
  | cons c cs ih =>
    have hc := (toUInt8_of_isDigit (h c List.mem_cons_self)).2
    simp only [List.foldl_cons, hc]
    exact ih (fun d hd => h d (List.mem_cons_of_mem c hd)) _

/-- `std::to_string` writes a numeral. -/
theorem decimal_toString (n : Nat) : decimal (bytes (toString n)) = some n := by
  have hchars : (toString n).toList = Nat.toDigits 10 n := Nat.toList_repr
  have hdigit : ∀ c ∈ Nat.toDigits 10 n, c.isDigit = true := fun c hc =>
    Nat.isDigit_of_mem_toDigits (by decide) (by decide) hc
  unfold decimal bytes
  rw [hchars, ofDigits_chars hdigit, Nat.ofDigitChars_ten_toDigits, if_pos]
  refine ⟨fun hnil => Nat.toDigits_ne_nil (List.map_eq_nil_iff.mp hnil), ?_⟩
  rw [List.all_map, List.all_eq_true]
  exact fun c hc => (toUInt8_of_isDigit (hdigit c hc)).1

/-- A number is written with one numeral. -/
theorem toString_bytes_injective {m n : Nat} (h : bytes (toString m) = bytes (toString n)) :
    m = n := by
  have := congrArg decimal h
  rwa [decimal_toString, decimal_toString, Option.some.injEq] at this

theorem isDigit_of_mem_toString {n : Nat} {ch : UInt8} (h : ch ∈ bytes (toString n)) :
    isDigit ch = true := by
  have hdecimal := decimal_toString n
  unfold decimal at hdecimal
  split at hdecimal
  next hall => exact List.all_eq_true.mp hall.2 ch h
  next => cases hdecimal

end Sheep
