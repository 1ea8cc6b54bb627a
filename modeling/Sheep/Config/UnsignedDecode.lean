import Sheep.Config.JsonReload
import Sheep.Config.SmallToml

/-!
# Unsigned integers in a configuration

`uint32_t` and `uint64_t` are read through `int64_t`: as a field of a JSON document, as an element
of an array in one, and as a field of a TOML document. `Occurrence` is an integer in one of these
places, `ExactOrError` that it is stored as it is, or an error is reported.

`exactOrError_iff` says for which integers that is so. A field is checked for the range of
`int64_t` only, and the conversion from `int64_t` wraps.
-/

namespace Sheep

inductive UintType
  | uint32
  | uint64
  deriving DecidableEq, Repr

namespace UintType

def int : UintType → IntType
  | .uint32 => .uint32
  | .uint64 => .uint64

def bits : UintType → Nat
  | .uint32 => 32
  | .uint64 => 64

/-- The integers that the type has. -/
def InRange (t : UintType) (n : Int) : Prop := 0 ≤ n ∧ n < 2 ^ t.bits

end UintType

/-! ## The conversion from `int64_t` -/

theorem toNat_toUInt64_ofInt (n : Int) : ((Int64.ofInt n).toUInt64.toNat : Int) = n % 2 ^ 64 := by
  have hlt : (n % 2 ^ 64).toNat < 2 ^ 64 := by
    have h := Int.emod_lt_of_pos n (show (0 : Int) < 2 ^ 64 by decide)
    omega
  rw [IntType.toUInt64_ofInt, UInt64.ofInt, UInt64.toNat_ofNat_of_lt' hlt,
    Int.toNat_of_nonneg (Int.emod_nonneg n (by decide))]

/-- It wraps around. -/
theorem UintType.toInt_ofInt64 (t : UintType) (n : Int) :
    t.int.toInt (t.int.ofInt64 (Int64.ofInt n)) = n % 2 ^ t.bits := by
  cases t with
  | uint32 =>
    show ((Int64.ofInt n).toUInt64.toUInt32.toNat : Int) = n % 2 ^ 32
    rw [UInt64.toNat_toUInt32, Int.natCast_emod, toNat_toUInt64_ofInt]
    exact Int.emod_emod_of_dvd n ⟨2 ^ 32, by decide⟩
  | uint64 => exact toNat_toUInt64_ofInt n

theorem emod_eq_self_iff {n m : Int} (hm : 0 < m) : n % m = n ↔ 0 ≤ n ∧ n < m := by
  constructor
  · intro h
    rw [← h]
    exact ⟨Int.emod_nonneg n (Int.ne_of_gt hm), Int.emod_lt_of_pos n hm⟩
  · exact fun h => Int.emod_eq_of_lt h.1 h.2

theorem UintType.ofInt64_exact_iff (t : UintType) (n : Int) :
    t.int.toInt (t.int.ofInt64 (Int64.ofInt n)) = n ↔ t.InRange n := by
  rw [t.toInt_ofInt64 n]
  cases t with
  | uint32 => exact emod_eq_self_iff (by decide)
  | uint64 => exact emod_eq_self_iff (by decide)

/-! ## The places -/

/-- An integer that a document has for a `T`, and what is there before. -/
inductive Occurrence (t : UintType)
  | jsonField (name : String) (obj : Json) (n : Int) (element : t.int.Val)
      (present : obj.member name = some (.number n))
  /-- an element of an array: what is in front of it, and behind it -/
  | jsonElement (name : String) (obj : Json) (before : List Json) (n : Int) (after : List Json)
      (elements : List t.int.Val)
      (present : obj.member name = some (.array (before ++ .number n :: after)))
  /-- tinytoml has an integer as an `int64_t` -/
  | tomlField (lib : Tinytoml) (name : String) (nowObj v : lib.Value) (n : Int64)
      (element : t.int.Val) (present : lib.find nowObj name = some v)
      (integer : lib.asInt64 v = some n)

namespace Occurrence

variable {t : UintType}

/-- The integer. -/
def n : Occurrence t → Int
  | .jsonField _ _ n _ _ => n
  | .jsonElement _ _ _ n _ _ _ => n
  | .tomlField _ _ _ _ n _ _ _ => n.toInt

/-- What `Decode` of the field has stored for it where it returns. -/
def stored : Occurrence t → Except Stop (Option t.int.Val)
  | .jsonField name obj _ element _ =>
    match t.int.decode name obj element with
    | (element, none) => .ok (some element)
    | (_, some stop) => .error stop
  | .jsonElement name obj before _ _ elements _ =>
    match decodeVector t.int.setT name obj elements with
    | (elements', none) => .ok elements'[elements.length + before.length]?
    | (_, some stop) => .error stop
  | .tomlField lib name nowObj _ _ element _ _ =>
    .ok (some (t.int.decodeToml lib name nowObj element))

/-- The integer is stored as it is, or an error is reported. -/
def ExactOrError (o : Occurrence t) : Prop :=
  match o.stored with
  | .ok element => element.map t.int.toInt = some o.n
  | .error (.throws _) => True
  | .error .aborts => False

/-- A value that `GetInt64` takes. -/
def GetsInt64 (v : Json) : Prop := ∃ n, v = .number n ∧ Json.isInt 64 n = true

/-- The condition on the integer and, in an array, on what is around it. -/
def Fits : Occurrence t → Prop
  | .jsonField _ _ n _ _ => t.InRange n ∨ Json.isInt 64 n = false
  | .jsonElement _ _ before n after _ _ =>
    t.InRange n ∧ ∀ v ∈ before ++ .number n :: after, GetsInt64 v
  | .tomlField _ _ _ _ n _ _ _ => t.InRange n.toInt

end Occurrence

/-! ## Fields -/

theorem UintType.decode_field (t : UintType) {name : String} {obj : Json} {n : Int}
    (present : obj.member name = some (.number n)) (element : t.int.Val) :
    t.int.decode name obj element =
      if Json.isInt 64 n then (t.int.ofInt64 (Int64.ofInt n), none)
      else (element, some (.throws (name ++ " is invalid"))) := by
  have hunsigned : ∀ (t : IntType) (element : t.Val),
      IntType.decodeUnsigned t name obj element =
        if Json.isInt 64 n then (t.ofInt64 (Int64.ofInt n), none)
        else (element, some (.throws (name ++ " is invalid"))) := by
    intro t element
    unfold IntType.decodeUnsigned IntType.decodeSigned
    rw [present]
    by_cases hn : Json.isInt 64 n = true
    · simp [hn]
    · simp [hn]
  cases t with
  | uint32 => exact hunsigned .uint32 element
  | uint64 => exact hunsigned .uint64 element

theorem UintType.decodeToml_field (t : UintType) {lib : Tinytoml} {name : String}
    {nowObj v : lib.Value} {n : Int64} (present : lib.find nowObj name = some v)
    (integer : lib.asInt64 v = some n) (element : t.int.Val) :
    t.int.decodeToml lib name nowObj element = t.int.ofInt64 n := by
  cases t with
  | uint32 => exact congrArg (IntType.ofInt64 .uint32) (decodeImp_present present integer _)
  | uint64 => exact congrArg (IntType.ofInt64 .uint64) (decodeImp_present present integer _)

/-! ## Elements -/

/-- Where `setT` stops. -/
def stopOf {α : Type} (setT : Json → Except Stop α) (v : Json) : Option Stop :=
  match setT v with
  | .ok _ => none
  | .error stop => some stop

section

variable {α : Type} (setT : Json → Except Stop α)

theorem decodeElements_stop (vs : List Json) (elements : List α) :
    (decodeElements setT vs elements).2 = vs.findSome? (stopOf setT) := by
  induction vs generalizing elements with
  | nil => rfl
  | cons v vs ih =>
    rw [List.findSome?_cons, decodeElements, stopOf]
    cases setT v with
    | ok t => exact ih _
    | error stop => rfl

theorem decodeElements_cons_ok {v : Json} {x : α} (hv : setT v = .ok x) (vs : List Json)
    (elements : List α) :
    decodeElements setT (v :: vs) elements = decodeElements setT vs (elements ++ [x]) := by
  rw [decodeElements, hv]

/-- An element that is reached is stored at its place. -/
theorem decodeElements_get {v : Json} {x : α} (hv : setT v = .ok x) (before after : List Json)
    (elements : List α) (hok : (decodeElements setT (before ++ v :: after) elements).2 = none) :
    (decodeElements setT (before ++ v :: after) elements).1[elements.length + before.length]? =
      some x := by
  induction before generalizing elements with
  | nil =>
    rw [List.nil_append, decodeElements_cons_ok setT hv]
    obtain ⟨rest, hrest⟩ := decodeElements_prefix setT after (elements ++ [x])
    rw [← hrest, List.append_assoc, List.singleton_append]
    exact List.getElem?_append_right (Nat.le_add_right _ _) |>.trans (by simp)
  | cons w before ih =>
    cases hw : setT w with
    | ok y =>
      rw [List.cons_append, decodeElements_cons_ok setT hw] at hok ⊢
      have hplace := ih (elements ++ [y]) hok
      rw [List.length_append, List.length_singleton, Nat.add_assoc, Nat.add_comm 1] at hplace
      exact hplace
    | error stop =>
      rw [List.cons_append, decodeElements, hw] at hok
      cases hok

end

theorem IntType.setT_eq (t : IntType) (n : Int) : t.setT (.number n) =
    if Json.isInt 64 n then .ok (t.ofInt64 (Int64.ofInt n)) else .error .aborts := rfl

/-- `GetInt64` is the only check. -/
theorem IntType.stopOf_setT (t : IntType) (v : Json) :
    (stopOf t.setT v = none ∧ Occurrence.GetsInt64 v) ∨
      (stopOf t.setT v = some .aborts ∧ ¬ Occurrence.GetsInt64 v) := by
  cases v with
  | number n =>
    unfold stopOf
    rw [t.setT_eq n]
    by_cases hn : Json.isInt 64 n = true
    · rw [if_pos hn]
      exact .inl ⟨rfl, n, rfl, hn⟩
    · rw [if_neg hn]
      refine .inr ⟨rfl, ?_⟩
      rintro ⟨m, hm, hbits⟩
      cases hm
      exact hn hbits
  | null | bool b | double d | string bytes | array vs | object members =>
    refine .inr ⟨rfl, ?_⟩
    rintro ⟨n, hn, -⟩
    cases hn

/-- The loop returns exactly if every element is an `int64_t`; it throws nothing. -/
theorem IntType.decodeElements_stop (t : IntType) (vs : List Json) (elements : List t.Val) :
    ((decodeElements t.setT vs elements).2 = none ∧ ∀ v ∈ vs, Occurrence.GetsInt64 v) ∨
      ((decodeElements t.setT vs elements).2 = some .aborts ∧
        ¬ ∀ v ∈ vs, Occurrence.GetsInt64 v) := by
  rw [Sheep.decodeElements_stop]
  cases h : vs.findSome? (stopOf t.setT) with
  | none =>
    refine .inl ⟨rfl, fun v hv => ?_⟩
    rcases t.stopOf_setT v with ⟨-, hget⟩ | ⟨hstop, -⟩
    · exact hget
    · rw [List.findSome?_eq_none_iff.mp h v hv] at hstop
      cases hstop
  | some stop =>
    obtain ⟨v, hv, hstop⟩ := List.exists_of_findSome?_eq_some h
    rcases t.stopOf_setT v with ⟨hnone, -⟩ | ⟨haborts, hget⟩
    · rw [hnone] at hstop
      cases hstop
    · rw [haborts] at hstop
      exact .inr ⟨hstop.symm, fun hall => hget (hall v hv)⟩

/-! ## Every place -/

/-- An integer is stored as it is, or an error is reported, exactly if it fits: a JSON field has
room for it or it is no `int64_t`; the vector has room for it, and every element of the array is an
`int64_t`; a TOML field has room for it. -/
theorem exactOrError_iff {t : UintType} (o : Occurrence t) : o.ExactOrError ↔ o.Fits := by
  cases o with
  | jsonField name obj n element present =>
    have hstored := t.decode_field present element
    unfold Occurrence.ExactOrError Occurrence.stored Occurrence.Fits
    simp only [hstored]
    by_cases hn : Json.isInt 64 n = true
    · simp only [hn, if_true, Occurrence.n, Option.map_some, Option.some.injEq]
      rw [t.ofInt64_exact_iff n]
      simp
    · simp [hn]
  | jsonElement name obj before n after elements present =>
    have hdecode : decodeVector t.int.setT name obj elements =
        decodeElements t.int.setT (before ++ .number n :: after) elements := by
      unfold decodeVector
      rw [present]
    unfold Occurrence.ExactOrError Occurrence.stored Occurrence.Fits
    simp only [hdecode]
    rcases t.int.decodeElements_stop (before ++ .number n :: after) elements with
      ⟨hok, hall⟩ | ⟨haborts, hall⟩
    · obtain ⟨m, hm, hbits⟩ := hall (.number n)
        (List.mem_append_right before List.mem_cons_self)
      cases hm
      have hset : t.int.setT (.number n) = .ok (t.int.ofInt64 (Int64.ofInt n)) := if_pos hbits
      have hplace := decodeElements_get t.int.setT hset before after elements hok
      rcases h : decodeElements t.int.setT (before ++ .number n :: after) elements with
        ⟨elements', stop⟩
      rw [h] at hok hplace
      obtain rfl : stop = none := hok
      have hplace : elements'[elements.length + before.length]? = _ := hplace
      simp only [hplace, Occurrence.n, Option.map_some, Option.some.injEq]
      rw [t.ofInt64_exact_iff n]
      exact ⟨fun hn => ⟨hn, hall⟩, fun hn => hn.1⟩
    · rcases h : decodeElements t.int.setT (before ++ .number n :: after) elements with
        ⟨elements', stop⟩
      rw [h] at haborts
      obtain rfl : stop = some .aborts := haborts
      exact iff_of_false id fun hfits => hall hfits.2
  | tomlField lib name nowObj v n element present integer =>
    have hstored := t.decodeToml_field present integer element
    unfold Occurrence.ExactOrError Occurrence.stored Occurrence.Fits
    simp only [hstored, Occurrence.n, Option.map_some, Option.some.injEq]
    have hexact := t.ofInt64_exact_iff n.toInt
    rw [Int64.ofInt_toInt] at hexact
    exact hexact

def portDocument (n : Int) : Json := .object [("port", .number n)]

def portsDocument (n : Int) : Json := .object [("ports", .array [.number n])]

/-- A tinytoml with one document, an integer under the name "port". -/
def portToml : Tinytoml where
  Value := Int64
  parse _ := .error ""
  find v name := if name = "port" then some v else none
  asBool _ := none
  asInt _ := none
  asInt64 v := some v
  asString _ := none
  asVector _ _ := none

/-- Neither -1 nor 2^32 is a `uint32_t`: both are stored, as 2^32 - 1 and 0. -/
theorem port_wraps :
    ¬ (Occurrence.jsonField (t := .uint32) "port" (portDocument (-1)) (-1) (0 : UInt32)
        rfl).ExactOrError ∧
      IntType.decode .uint32 "port" (portDocument (-1)) (0 : UInt32) =
        ((4294967295 : UInt32), none) ∧
      ¬ (Occurrence.jsonElement (t := .uint32) "ports" (portsDocument 4294967296) [] 4294967296 []
        [] rfl).ExactOrError ∧
      decodeVector (IntType.setT .uint32) "ports" (portsDocument 4294967296) [] =
        ([(0 : UInt32)], none) ∧
      ¬ (Occurrence.tomlField (t := .uint32) portToml "port" (4294967296 : Int64)
        (4294967296 : Int64) 4294967296 (1 : UInt32) rfl rfl).ExactOrError ∧
      IntType.decodeToml portToml .uint32 "port" (4294967296 : Int64) (1 : UInt32) =
        (0 : UInt32) := by
  refine ⟨?_, rfl, ?_, rfl, ?_, rfl⟩
  · rw [exactOrError_iff]
    rintro (⟨hn, -⟩ | hn)
    · exact absurd hn (by decide)
    · exact absurd hn (by decide)
  · rw [exactOrError_iff]
    rintro ⟨⟨-, hn⟩, -⟩
    exact absurd hn (by decide)
  · rw [exactOrError_iff]
    rintro ⟨-, hn⟩
    exact absurd hn (by decide)

end Sheep
