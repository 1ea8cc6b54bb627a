import Sheep.Config.SmallJson

/-!
# Type checks of `UnSerializeJson`

A document may have a value of another type under the name of a field, or among the elements of an
array. `Typed` says that it has none. A field is checked, and a mismatch is thrown as an error. An
element of a vector is not: the accessor asserts. Some mismatches are not seen at all: an element
that should be an object and is none is taken for an object without members, and an integer that
the type has no room for is converted.

`faults` lists the mismatches of a document in the order in which the visitor meets them, and
`acceptDecode_fault` says that the visitor stops at the first one that it sees.

`TypeSafe`: `UnSerializeJson` returns, and without an error only if the document is typed.
`typeSafe_iff` says for which documents that is so.
-/

namespace Sheep

/-! ## Types of values -/

/-- The size that `Is<T>` checks a field for; the unsigned types are read as `int64_t`. -/
def IntType.bits : IntType → Nat
  | .int32 => 32
  | .int64 | .uint32 | .uint64 => 64

/-- The type has the integer. -/
def IntType.inRange : IntType → Int → Bool
  | .int32, n => Json.isInt 32 n
  | .int64, n => Json.isInt 64 n
  | .uint32, n => 0 ≤ n && n < 2 ^ 32
  | .uint64, n => 0 ≤ n && n < 2 ^ 64

mutual

/-- The value has the type of the field. -/
def FieldType.Holds : FieldType → Json → Prop
  | .bool, v => ∃ b, v = .bool b
  | .int t, v => ∃ n, v = .number n ∧ t.inRange n = true
  | .string, v => ∃ bytes, v = .string bytes
  | .vector t, v => ∃ vs, v = .array vs ∧ ∀ x ∈ vs, t.Holds x
  | .element s, v => ∃ members, v = .object members ∧ s.Typed (.object members)

def ElementType.Holds : ElementType → Json → Prop
  | .bool, v => ∃ b, v = .bool b
  | .int t, v => ∃ n, v = .number n ∧ t.inRange n = true
  | .double, v => (∃ n, v = .number n) ∨ ∃ d, v = .double d
  | .string, v => ∃ bytes, v = .string bytes
  | .element s, v => ∃ members, v = .object members ∧ s.Typed (.object members)

/-- Every field that is present, and every element of it, has its type. -/
def Struct.Typed : Struct → Json → Prop
  | .nil, _ => True
  | .field name t rest, obj => (∀ v, obj.member name = some v → t.Holds v) ∧ rest.Typed obj

end

/-! ## Mismatches -/

inductive Fault
  /-- a field that is rejected: the visitor throws -/
  | field
  /-- an element that is rejected: the accessor asserts -/
  | element
  /-- a value that is taken all the same -/
  | unseen
  deriving DecidableEq, Repr

mutual

/-- The mismatches of a value, in the order in which they are met. -/
def FieldType.faults : FieldType → Json → List Fault
  | .bool => fun v =>
    match v with
    | .bool _ => []
    | _ => [.field]
  | .int t => fun v =>
    match v with
    | .number n =>
      if Json.isInt t.bits n then if t.inRange n then [] else [.unseen] else [.field]
    | _ => [.field]
  | .string => fun v =>
    match v with
    | .string _ => []
    | _ => [.field]
  | .vector t => fun v =>
    match v with
    | .array vs => vs.flatMap t.faults
    | _ => [.field]
  | .element s => fun v =>
    match v with
    | .object members => s.faults (.object members)
    | _ => [.field]

def ElementType.faults : ElementType → Json → List Fault
  | .bool => fun v =>
    match v with
    | .bool _ => []
    | _ => [.element]
  | .int t => fun v =>
    match v with
    | .number n => if Json.isInt 64 n then if t.inRange n then [] else [.unseen] else [.element]
    | _ => [.element]
  | .double => fun v =>
    match v with
    | .number _ => []
    | .double _ => []
    | _ => [.element]
  | .string => fun v =>
    match v with
    | .string _ => []
    | _ => [.element]
  | .element s => fun v =>
    match v with
    | .object members => s.faults (.object members)
    | _ => [.unseen]

def Struct.faults : Struct → Json → List Fault
  | .nil, _ => []
  | .field name t rest, obj =>
    (match obj.member name with
      | none => []
      | some v => t.faults v) ++ rest.faults obj

end

/-- What is no object has no members. -/
theorem Struct.faults_of_noMember :
    (s : Struct) → (obj : Json) → (∀ name, obj.member name = none) → s.faults obj = []
  | .nil, _, _ => rfl
  | .field name t rest, obj, h => by
    rw [Struct.faults, h name, rest.faults_of_noMember obj h]
    rfl

/-- The first mismatch that the visitor stops at. -/
def firstFault (faults : List Fault) : Option Fault := faults.find? (· ≠ .unseen)

theorem firstFault_append (xs ys : List Fault) :
    firstFault (xs ++ ys) = (firstFault xs).or (firstFault ys) := List.find?_append

theorem firstFault_flatMap_eq_none {α : Type} {faults : α → List Fault} {vs : List α}
    (h : firstFault (vs.flatMap faults) = none) : ∀ v ∈ vs, firstFault (faults v) = none := by
  simp only [firstFault, List.find?_eq_none, List.mem_flatMap] at h ⊢
  exact fun v hv fault hfault => h fault ⟨v, hv, hfault⟩

mutual

/-- Where the visitor goes through a value, no mismatch is listed exactly if it has its type. -/
theorem FieldType.faults_eq_nil : (t : FieldType) → (v : Json) → firstFault (t.faults v) = none →
    (t.faults v = [] ↔ t.Holds v)
  | .bool, v, _ => by cases v <;> simp [FieldType.faults, FieldType.Holds]
  | .int t, v, h => by
    cases v with
    | number n =>
      simp only [FieldType.faults, FieldType.Holds, Json.number.injEq, exists_eq_left'] at h ⊢
      split at h
      next hn =>
        rw [if_pos hn]
        cases t.inRange n <;> simp
      next => cases h
    | null | bool b | double d | string bytes | array vs | object members => cases h
  | .string, v, _ => by cases v <;> simp [FieldType.faults, FieldType.Holds]
  | .vector t, v, h => by
    cases v with
    | array vs =>
      simp only [FieldType.faults, FieldType.Holds, List.flatMap_eq_nil_iff, Json.array.injEq,
        exists_eq_left'] at h ⊢
      exact forall₂_congr fun x hx => t.faults_eq_nil x (firstFault_flatMap_eq_none h x hx)
    | null | bool b | number n | double d | string bytes | object members => cases h
  | .element s, v, h => by
    cases v with
    | object members =>
      simp only [FieldType.faults, FieldType.Holds, Json.object.injEq, exists_eq_left'] at h ⊢
      exact s.faults_eq_nil _ h
    | null | bool b | number n | double d | string bytes | array vs => cases h

theorem ElementType.faults_eq_nil : (t : ElementType) → (v : Json) →
    firstFault (t.faults v) = none → (t.faults v = [] ↔ t.Holds v)
  | .bool, v, _ => by cases v <;> simp [ElementType.faults, ElementType.Holds]
  | .int t, v, h => by
    cases v with
    | number n =>
      simp only [ElementType.faults, ElementType.Holds, Json.number.injEq, exists_eq_left'] at h ⊢
      split at h
      next hn =>
        rw [if_pos hn]
        cases t.inRange n <;> simp
      next => cases h
    | null | bool b | double d | string bytes | array vs | object members => cases h
  | .double, v, _ => by cases v <;> simp [ElementType.faults, ElementType.Holds]
  | .string, v, _ => by cases v <;> simp [ElementType.faults, ElementType.Holds]
  | .element s, v, h => by
    cases v with
    | object members =>
      simp only [ElementType.faults, ElementType.Holds, Json.object.injEq, exists_eq_left'] at h ⊢
      exact s.faults_eq_nil _ h
    | null | bool b | number n | double d | string bytes | array vs =>
      simp [ElementType.faults, ElementType.Holds]

theorem Struct.faults_eq_nil : (s : Struct) → (obj : Json) → firstFault (s.faults obj) = none →
    (s.faults obj = [] ↔ s.Typed obj)
  | .nil, _, _ => iff_of_true rfl True.intro
  | .field name t rest, obj, h => by
    rw [Struct.faults, firstFault_append, Option.or_eq_none_iff] at h
    rw [Struct.faults, List.append_eq_nil_iff, rest.faults_eq_nil obj h.2, Struct.Typed]
    refine and_congr_left fun _ => ?_
    cases hv : obj.member name with
    | none => simp
    | some v =>
      rw [hv] at h
      simpa using t.faults_eq_nil v h.1

end

/-! ## Where the visitor stops -/

def Stop.fault : Stop → Fault
  | .throws _ => .field
  | .aborts => .element

/-- Where `setT` stops. -/
def setFault {α : Type} : Except Stop α → Option Fault
  | .ok _ => none
  | .error stop => some stop.fault

theorem decodeElements_fault {α : Type} {setT : Json → Except Stop α} {faults : Json → List Fault}
    (hset : ∀ v, setFault (setT v) = firstFault (faults v)) (vs : List Json) (elements : List α) :
    (decodeElements setT vs elements).2.map Stop.fault = firstFault (vs.flatMap faults) := by
  induction vs generalizing elements with
  | nil => rfl
  | cons v vs ih =>
    have hv := hset v
    rw [List.flatMap_cons, firstFault_append, ← hv, decodeElements]
    cases setT v with
    | ok t => exact ih _
    | error stop => rfl

theorem decodeMember_fault {α : Type} (read : Json → Option α) (err name : String) (obj : Json)
    (init : α) : (decodeMember read err name obj init).2.map Stop.fault =
      (obj.member name).bind fun v => if (read v).isSome then none else some .field := by
  unfold decodeMember
  cases obj.member name with
  | none => rfl
  | some v => cases h : read v <;> simp [h, Stop.fault]

theorem decodeBool_fault (name : String) (obj : Json) (init : Bool) :
    (decodeBool name obj init).2.map Stop.fault =
      (obj.member name).bind fun v => firstFault (FieldType.bool.faults v) := by
  rw [decodeBool_eq, decodeMember_fault]
  exact congrArg _ (funext fun v => by cases v <;> rfl)

theorem decodeString_fault (name : String) (obj : Json) (init : List UInt8) :
    (decodeString name obj init).2.map Stop.fault =
      (obj.member name).bind fun v => firstFault (FieldType.string.faults v) := by
  rw [decodeString_eq, decodeMember_fault]
  exact congrArg _ (funext fun v => by cases v <;> rfl)

theorem IntType.decodeSigned_fault {α : Type} (bits : Nat) (ofInt : Int → α) (name : String)
    (obj : Json) (init : α) :
    (decodeSigned bits ofInt name obj init).2.map Stop.fault =
      (obj.member name).bind fun v =>
        match v with
        | .number n => if Json.isInt bits n then none else some .field
        | _ => some .field := by
  rw [decodeSigned_eq, decodeMember_fault]
  congr 1
  funext v
  cases v with
  | number n => cases h : Json.isInt bits n <;> simp [readSigned, h]
  | null | bool b | double d | string bytes | array vs | object members => rfl

theorem IntType.decode_fault (t : IntType) (name : String) (obj : Json) (init : t.Val) :
    (t.decode name obj init).2.map Stop.fault =
      (obj.member name).bind fun v => firstFault ((FieldType.int t).faults v) := by
  have hfaults : ∀ v, firstFault ((FieldType.int t).faults v) =
      match v with
      | .number n => if Json.isInt t.bits n then none else some .field
      | _ => some .field := by
    intro v
    cases v with
    | number n =>
      simp only [FieldType.faults]
      split
      next => cases t.inRange n <;> rfl
      next => rfl
    | null | bool b | double d | string bytes | array vs | object members => rfl
  have hunsigned : ∀ (t : IntType) (init : t.Val),
      (decodeUnsigned t name obj init).2 =
        (decodeSigned 64 Int64.ofInt name obj (t.toInt64 init)).2 := by
    intro t init
    unfold decodeUnsigned
    rcases decodeSigned 64 Int64.ofInt name obj (t.toInt64 init) with ⟨element1, _ | stop⟩ <;> rfl
  simp only [hfaults]
  cases t with
  | int32 => exact decodeSigned_fault 32 _ name obj init
  | int64 => exact decodeSigned_fault 64 _ name obj init
  | uint32 =>
    exact (congrArg (Option.map Stop.fault) (hunsigned .uint32 init)).trans
      (decodeSigned_fault 64 _ name obj _)
  | uint64 =>
    exact (congrArg (Option.map Stop.fault) (hunsigned .uint64 init)).trans
      (decodeSigned_fault 64 _ name obj _)

section

variable {new : (s : Struct) → s.Val}

mutual

theorem FieldType.decode_fault : (t : FieldType) → (name : String) → (obj : Json) →
    (init : t.Val) → (t.decode new name obj init).2.map Stop.fault =
      (obj.member name).bind fun v => firstFault (t.faults v)
  | .bool, name, obj, init => decodeBool_fault name obj init
  | .int t, name, obj, init => t.decode_fault name obj init
  | .string, name, obj, init => decodeString_fault name obj init
  | .vector t, name, obj, init => by
    show (decodeVector (t.setT new) name obj init).2.map Stop.fault = _
    unfold decodeVector
    cases obj.member name with
    | none => rfl
    | some v =>
      cases v with
      | array vs => exact decodeElements_fault (fun v => t.setT_fault v) vs init
      | null | bool b | number n | double d | string bytes | object members => rfl
  | .element s, name, obj, init => by
    simp only [FieldType.decode]
    cases obj.member name with
    | none => rfl
    | some v =>
      cases v with
      | object members => exact s.acceptDecode_fault (.object members) init
      | null | bool b | number n | double d | string bytes | array vs => rfl

theorem ElementType.setT_fault : (t : ElementType) → (v : Json) →
    setFault (t.setT new v) = firstFault (t.faults v)
  | .bool, v => by cases v <;> rfl
  | .int t, v => by
    show setFault (t.setT v) = _
    cases v with
    | number n =>
      simp only [IntType.setT, ElementType.faults]
      split
      next => cases t.inRange n <;> rfl
      next => rfl
    | null | bool b | double d | string bytes | array vs | object members => rfl
  | .double, v => by cases v <;> rfl
  | .string, v => by cases v <;> rfl
  | .element s, v => by
    have hset : setFault ((ElementType.element s).setT new v) =
        (s.acceptDecode new v (new s)).2.map Stop.fault := by
      simp only [ElementType.setT]
      rcases s.acceptDecode new v (new s) with ⟨element, _ | stop⟩ <;> rfl
    rw [hset, s.acceptDecode_fault v (new s)]
    cases v with
    | object members => rfl
    | null | bool b | number n | double d | string bytes | array vs =>
      rw [s.faults_of_noMember _ fun _ => rfl]
      rfl

/-- The visitor stops at the first mismatch that it sees. -/
theorem Struct.acceptDecode_fault : (s : Struct) → (obj : Json) → (init : s.Val) →
    (s.acceptDecode new obj init).2.map Stop.fault = firstFault (s.faults obj)
  | .nil, _, _ => rfl
  | .field name t rest, obj, (init, inits) => by
    have ht := t.decode_fault name obj init
    have hrest := rest.acceptDecode_fault obj inits
    have hfaults : (firstFault (match obj.member name with
        | none => []
        | some v => t.faults v)) = (t.decode new name obj init).2.map Stop.fault := by
      rw [ht]
      cases obj.member name <;> rfl
    rw [Struct.faults, firstFault_append, hfaults, ← hrest]
    simp only [Struct.acceptDecode]
    rcases t.decode new name obj init with ⟨element, _ | stop⟩
    · rcases rest.acceptDecode new obj inits with ⟨elements, stop⟩
      rfl
    · rfl

end

theorem Struct.acceptDecode_none_iff (s : Struct) (obj : Json) (init : s.Val) :
    (s.acceptDecode new obj init).2 = none ↔ firstFault (s.faults obj) = none := by
  rw [← @Struct.acceptDecode_fault new s obj init, Option.map_eq_none_iff]

/-! ## Every text -/

variable (new)

/-- `UnSerializeJson` returns, which it does not where an accessor is called on a value of another
type; and without an error only if every field and every element has its type. -/
def TypeSafe (lib : Rapidjson) (s : Struct) (x : s.Val) (input : List UInt8) : Prop :=
  ∃ error y, unSerializeJson new lib s x input = some (error, y) ∧
    (error = "" → ∀ document, lib.parse (cString input) = some document → s.Typed document)

/-- `UnSerializeJson` is type safe for a text exactly if it does not parse, or its document has no
mismatch, or the first one that the visitor stops at is a field. -/
theorem typeSafe_iff (lib : Rapidjson) (s : Struct) (x : s.Val) (input : List UInt8) :
    TypeSafe new lib s x input ↔
      ∀ document, lib.parse (cString input) = some document →
        s.faults document = [] ∨ firstFault (s.faults document) = some .field := by
  unfold TypeSafe unSerializeJson
  cases hparse : lib.parse (cString input) with
  | none =>
    refine iff_of_true ⟨_, _, rfl, fun herr => absurd herr (by decide)⟩ ?_
    intro document hdocument
    cases hdocument
  | some document =>
    simp only [Option.some.injEq, forall_eq']
    have hfault := @Struct.acceptDecode_fault new s document x
    rcases hdecode : s.acceptDecode new document x with ⟨y, _ | err | _⟩
    · -- no error: the document has to be typed
      rw [hdecode] at hfault
      have hnone : firstFault (s.faults document) = none := hfault.symm
      rw [hnone, s.faults_eq_nil document hnone]
      constructor
      · rintro ⟨error, y', hresult, htyped⟩
        obtain ⟨rfl, rfl⟩ := Prod.mk.inj (Option.some.inj hresult)
        exact .inl (htyped rfl)
      · rintro (htyped | hfield)
        · exact ⟨_, _, rfl, fun _ => htyped⟩
        · cases hfield
    · rw [hdecode] at hfault
      have hthrows := @Struct.accept_error new document err s x (congrArg Prod.snd hdecode)
      exact iff_of_true ⟨_, _, rfl, fun herr => absurd herr hthrows⟩ (.inr hfault.symm)
    · rw [hdecode] at hfault
      have helement : firstFault (s.faults document) = some .element := hfault.symm
      refine iff_of_false ?_ ?_
      · rintro ⟨error, y', hresult, -⟩
        cases hresult
      · rintro (hnil | hfield)
        · rw [hnil] at helement
          cases helement
        · rw [helement] at hfield
          cases hfield

end

/-- A structure with a vector of strings, and one with a vector of structures. -/
def stringsOnly : Struct := .field "strings" (.vector .string) .nil

def nestsOnly : Struct := .field "nests" (.vector (.element addrOnly)) .nil

def stringsText : Bytes := bytes "\x7b\"strings\":[1]\x7d"

def nestsText : Bytes := bytes "\x7b\"nests\":[1]\x7d"

def stringsLib : Rapidjson := .ofText (.object [("strings", .array [.number 1])]) stringsText

def nestsLib : Rapidjson := .ofText (.object [("nests", .array [.number 1])]) nestsText

/-- A number among the strings: `GetString` is called on it. A number among the structures: there is
no error. -/
theorem element_not_checked :
    unSerializeJson Struct.zero stringsLib stringsOnly (Struct.zero stringsOnly) stringsText =
        none ∧
      ¬ TypeSafe Struct.zero stringsLib stringsOnly (Struct.zero stringsOnly) stringsText ∧
      unSerializeJson Struct.zero nestsLib nestsOnly (Struct.zero nestsOnly) nestsText =
        some ("", ([([], ())], ())) ∧
      ¬ TypeSafe Struct.zero nestsLib nestsOnly (Struct.zero nestsOnly) nestsText := by
  refine ⟨rfl, ?_, rfl, ?_⟩
  · rintro ⟨error, y, hresult, -⟩
    cases hresult
  · rw [typeSafe_iff]
    intro h
    rcases h _ rfl with hnil | hfield
    · cases hnil
    · cases hfield

end Sheep
