import Sheep.Config.SmallJson

/-!
# `UnSerializeToml`

`TomlDecodeVisitor` on the structures of the JSON visitors. tinytoml is not part of this repository:
`Tinytoml` has what the visitor calls of it. Where the value under a name has another type, the
element is left as it is, so there are no errors after parsing.

Every overload assigns: reading a text again changes nothing (`unSerializeToml_again`).
-/

namespace Sheep

structure Tinytoml where
  Value : Type
  /-- `valid`, or `errorReason` -/
  parse : List UInt8 → Except String Value
  find : Value → String → Option Value
  /-- `is<T>` and `as<T>`, for each `T` -/
  asBool : Value → Option Bool
  asInt : Value → Option Int32
  asInt64 : Value → Option Int64
  asString : Value → Option (List UInt8)
  asVector (t : ElementType) : Value → Option (List t.Val)

section

variable (lib : Tinytoml)

/-- `DecodeImp` of what is no structure. -/
def decodeImp {α : Type} (as : lib.Value → Option α) (name : String) (nowObj : lib.Value)
    (element : α) : α :=
  match lib.find nowObj name with
  | none => element
  | some v => (as v).getD element

/-- `Decode` of an integer: the unsigned ones go through `int64_t`. -/
def IntType.decodeToml (t : IntType) (name : String) (nowObj : lib.Value) (element : t.Val) :
    t.Val :=
  match t with
  | .int32 => decodeImp lib lib.asInt name nowObj element
  | .int64 => decodeImp lib lib.asInt64 name nowObj element
  | .uint32 => ofInt64 .uint32 (decodeImp lib lib.asInt64 name nowObj (toInt64 .uint32 element))
  | .uint64 => ofInt64 .uint64 (decodeImp lib lib.asInt64 name nowObj (toInt64 .uint64 element))

mutual

def FieldType.decodeToml : (t : FieldType) → String → lib.Value → t.Val → t.Val
  | .bool => decodeImp lib lib.asBool
  | .int t => t.decodeToml lib
  | .string => decodeImp lib lib.asString
  | .vector t => decodeImp lib (lib.asVector t)
  | .element s => fun name nowObj element =>
    match lib.find nowObj name with
    | none => element
    | some v => s.acceptToml v element

/-- `Accept`, with the value that its names are looked up in. -/
def Struct.acceptToml : (s : Struct) → lib.Value → s.Val → s.Val
  | .nil, _, element => element
  | .field name t rest, nowObj, (element, elements) =>
    (t.decodeToml name nowObj element, rest.acceptToml nowObj elements)

end

/-- `UnSerializeToml`: `error` and the element after it. -/
def unSerializeToml (s : Struct) (element : s.Val) (input : List UInt8) : String × s.Val :=
  match lib.parse input with
  | .error errorReason => (errorReason, element)
  | .ok rootObj => ("", s.acceptToml lib rootObj element)

end

/-! ## Reading a text again -/

section

variable {lib : Tinytoml}

theorem decodeImp_again {α : Type} (as : lib.Value → Option α) (name : String)
    (nowObj : lib.Value) (element : α) :
    decodeImp lib as name nowObj (decodeImp lib as name nowObj element) =
      decodeImp lib as name nowObj element := by
  unfold decodeImp
  cases lib.find nowObj name with
  | none => rfl
  | some v => cases h : as v <;> simp [h]

/-- A value that is there is taken, whatever was there before. -/
theorem decodeImp_present {α : Type} {as : lib.Value → Option α} {name : String}
    {nowObj v : lib.Value} {x : α} (hfind : lib.find nowObj name = some v) (has : as v = some x)
    (element : α) : decodeImp lib as name nowObj element = x := by
  unfold decodeImp
  rw [hfind]
  exact congrArg (·.getD element) has

theorem IntType.decodeToml_again (t : IntType) (name : String) (nowObj : lib.Value)
    (element : t.Val) :
    t.decodeToml lib name nowObj (t.decodeToml lib name nowObj element) =
      t.decodeToml lib name nowObj element := by
  -- the `int64_t` that was stored is the one that is read back, or there was none
  have hunsigned : ∀ (t : IntType) (element : t.Val),
      t.ofInt64 (decodeImp lib lib.asInt64 name nowObj
          (t.toInt64 (t.ofInt64 (decodeImp lib lib.asInt64 name nowObj (t.toInt64 element))))) =
        t.ofInt64 (decodeImp lib lib.asInt64 name nowObj (t.toInt64 element)) := by
    intro t element
    cases hfind : lib.find nowObj name with
    | none => simp only [decodeImp, hfind, ofInt64_toInt64]
    | some v =>
      cases has : lib.asInt64 v with
      | none => simp only [decodeImp, hfind, has, Option.getD_none, ofInt64_toInt64]
      | some n => rw [decodeImp_present hfind has, decodeImp_present hfind has]
  cases t with
  | int32 => exact decodeImp_again lib.asInt name nowObj element
  | int64 => exact decodeImp_again lib.asInt64 name nowObj element
  | uint32 => exact hunsigned .uint32 element
  | uint64 => exact hunsigned .uint64 element

mutual

theorem FieldType.decodeToml_again (name : String) (nowObj : lib.Value) :
    (t : FieldType) → (element : t.Val) →
      t.decodeToml lib name nowObj (t.decodeToml lib name nowObj element) =
        t.decodeToml lib name nowObj element
  | .bool, element => decodeImp_again lib.asBool name nowObj element
  | .int t, element => t.decodeToml_again name nowObj element
  | .string, element => decodeImp_again lib.asString name nowObj element
  | .vector t, element => decodeImp_again (lib.asVector t) name nowObj element
  | .element s, element => by
    simp only [FieldType.decodeToml]
    cases lib.find nowObj name with
    | none => rfl
    | some v => exact s.acceptToml_again v element

theorem Struct.acceptToml_again :
    (s : Struct) → (nowObj : lib.Value) → (element : s.Val) →
      s.acceptToml lib nowObj (s.acceptToml lib nowObj element) = s.acceptToml lib nowObj element
  | .nil, _, _ => rfl
  | .field name t rest, nowObj, (element, elements) =>
    Prod.ext (t.decodeToml_again name nowObj element) (rest.acceptToml_again nowObj elements)

end

theorem unSerializeToml_again (s : Struct) (element : s.Val) (input : List UInt8) :
    unSerializeToml lib s (unSerializeToml lib s element input).2 input =
      unSerializeToml lib s element input := by
  unfold unSerializeToml
  cases lib.parse input with
  | error errorReason => rfl
  | ok rootObj => exact congrArg (("", ·)) (s.acceptToml_again rootObj element)

end

end Sheep
