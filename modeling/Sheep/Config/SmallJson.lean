import Mathlib.Algebra.Group.Int.Defs
import Mathlib.Algebra.Group.Nat.Defs
import Mathlib.Data.List.TakeWhile
import Sheep.Lib.Bytes

/-!
# `SerializeJson` and `UnSerializeJson`

The JSON visitors of `small_config`. A structure is the list of its fields, with the name and the
C++ type of each, which is what its two `Accept` functions go through. A value of it has a value
for each field, and the visitors are functions on these values: every overload of `Encode` and
`Decode`, and `createJsonValue` and `setT` for the elements of a vector.

rapidjson is not part of this repository: `Rapidjson` has its writer and its parser. A `Json` is
a document value of it, with the accessors that the visitors call. A `double` is the element of a
vector only: two overloads of `Decode` fit a field of that type, and the call does not compile.

`roundTrip_iff`: `UnSerializeJson` gives back what `SerializeJson` was given exactly for the values
that are `Portable`: no string field has a NUL byte, no string is longer than `SizeType` can
count, and the elements of a `std::vector<uint64_t>` fit in 63 bits.
-/

namespace Sheep

/-! ## Structures -/

inductive IntType
  | int32
  | int64
  | uint32
  | uint64
  deriving DecidableEq, Repr

mutual

/-- The type of a field. -/
inductive FieldType
  | bool
  | int (t : IntType)
  | string
  | vector (t : ElementType)
  | element (s : Struct)

/-- The type of the elements of a vector. A vector of `bool` can only be decoded: the loop of
`Encode` does not compile for it. -/
inductive ElementType
  | bool
  | int (t : IntType)
  | double
  | string
  | element (s : Struct)

/-- The fields of a structure, in the order in which `Accept` visits them. -/
inductive Struct
  | nil
  | field (name : String) (t : FieldType) (rest : Struct)

end

def IntType.Val : IntType → Type
  | .int32 => Int32
  | .int64 => Int64
  | .uint32 => UInt32
  | .uint64 => UInt64

mutual

/-- The values of a field. A `std::string` is its bytes. -/
def FieldType.Val : FieldType → Type
  | .bool => Bool
  | .int t => t.Val
  | .string => List UInt8
  | .vector t => List t.Val
  | .element s => s.Val

def ElementType.Val : ElementType → Type
  | .bool => Bool
  | .int t => t.Val
  | .double => Float
  | .string => List UInt8
  | .element s => s.Val

def Struct.Val : Struct → Type
  | .nil => Unit
  | .field _ t rest => t.Val × rest.Val

end

/-! ## rapidjson -/

/-- A document value. `number` has the integers, `double` the other numbers. -/
inductive Json
  | null
  | bool (b : Bool)
  | number (n : Int)
  | double (d : Float)
  | string (bytes : List UInt8)
  | array (elements : List Json)
  | object (members : List (String × Json))

/-- The writer and the parser. -/
structure Rapidjson where
  write : Json → List UInt8
  /-- `none`: a parse error -/
  parse : List UInt8 → Option Json

/-- What rapidjson is relied on for, on one document value: parsing undoes writing, and the text
has no NUL byte. -/
structure Rapidjson.Undoes (lib : Rapidjson) (document : Json) : Prop where
  parse_write : lib.parse (lib.write document) = some document
  noNul : 0 ∉ lib.write document

namespace Json

/-- `SetString` and `StringRef`: the length is a `SizeType`, an unsigned number of 32 bits. -/
def setString (bytes : List UInt8) (size : Nat) : Json := .string (bytes.take (size % 2 ^ 32))

/-- `StringRef` of a `const char *`. -/
def stringRef (bytes : List UInt8) : Json := setString (cString bytes) (cString bytes).length

/-- `IsObject`, `HasMember` and `operator[]`. -/
def member (obj : Json) (name : String) : Option Json :=
  match obj with
  | .object members => members.lookup name
  | _ => none

/-- `Is<int>` and `Is<int64_t>`. -/
def isInt (bits : Nat) (n : Int) : Bool := -2 ^ (bits - 1) ≤ n ∧ n < 2 ^ (bits - 1)

end Json

/-- How `Accept` ends when it does not return. -/
inductive Stop
  | throws (err : String)
  /-- a `RAPIDJSON_ASSERT` fails -/
  | aborts
  deriving DecidableEq, Repr

namespace IntType

/-- The value as a number. -/
def toInt : (t : IntType) → t.Val → Int
  | .int32, n => Int32.toInt n
  | .int64, n => Int64.toInt n
  | .uint32, n => (UInt32.toNat n : Int)
  | .uint64, n => (UInt64.toNat n : Int)

/-- The conversion to `int64_t`. -/
def toInt64 : (t : IntType) → t.Val → Int64
  | .int32, n => Int32.toInt64 n
  | .int64, n => n
  | .uint32, n => (UInt32.toUInt64 n).toInt64
  | .uint64, n => UInt64.toInt64 n

/-- The conversion from `int64_t`. -/
def ofInt64 : (t : IntType) → Int64 → t.Val
  | .int32, n => n.toInt32
  | .int64, n => n
  | .uint32, n => n.toUInt64.toUInt32
  | .uint64, n => n.toUInt64

/-- `Encode` of an integer: the unsigned ones go through `int64_t`. -/
def encode (t : IntType) (n : t.Val) : Json :=
  match t with
  | .int32 | .int64 => .number (toInt _ n)
  | .uint32 | .uint64 => .number (toInt64 _ n).toInt

/-- `Decode` of a signed integer. -/
def decodeSigned {α : Type} (bits : Nat) (ofInt : Int → α) (name : String) (obj : Json)
    (element : α) : α × Option Stop :=
  match obj.member name with
  | none => (element, none)
  | some (.number n) =>
    if Json.isInt bits n then (ofInt n, none) else (element, some (.throws (name ++ " is invalid")))
  | some _ => (element, some (.throws (name ++ " is invalid")))

/-- `Decode` of an unsigned integer. -/
def decodeUnsigned (t : IntType) (name : String) (obj : Json) (element : t.Val) :
    t.Val × Option Stop :=
  match decodeSigned 64 Int64.ofInt name obj (t.toInt64 element) with
  | (element1, none) => (t.ofInt64 element1, none)
  | (_, some stop) => (element, some stop)

def decode (t : IntType) : String → Json → t.Val → t.Val × Option Stop :=
  match t with
  | .int32 => decodeSigned 32 Int32.ofInt
  | .int64 => decodeSigned 64 Int64.ofInt
  | .uint32 => decodeUnsigned .uint32
  | .uint64 => decodeUnsigned .uint64

/-- `setT` of an integer: `GetInt64` asserts that the number is one. -/
def setT (t : IntType) : Json → Except Stop t.Val
  | .number n => if Json.isInt 64 n then .ok (t.ofInt64 (Int64.ofInt n)) else .error .aborts
  | _ => .error .aborts

end IntType

/-! ## `JsonEncodeVisitor` -/

mutual

/-- `Encode`, without `AddMember`. -/
def FieldType.encode : (t : FieldType) → t.Val → Json
  | .bool, element => .bool element
  | .int t, element => t.encode element
  | .string, element => .stringRef element
  | .vector t, elements => .array (List.map t.createJsonValue elements)
  | .element s, element => .object (s.acceptEncode element)

def ElementType.createJsonValue : (t : ElementType) → t.Val → Json
  | .bool, element => .bool element
  | .int t, element => .number (t.toInt element)
  | .double, element => .double element
  | .string, element => .setString element (List.length element)
  | .element s, element => .object (s.acceptEncode element)

/-- `Accept`: the members that it adds to the current object. -/
def Struct.acceptEncode : (s : Struct) → s.Val → List (String × Json)
  | .nil, _ => []
  | .field name t rest, (element, elements) =>
    (name, t.encode element) :: rest.acceptEncode elements

end

/-! ## `JsonDecodeVisitor` -/

def decodeBool (name : String) (obj : Json) (element : Bool) : Bool × Option Stop :=
  match obj.member name with
  | none => (element, none)
  | some (.bool b) => (b, none)
  | some _ => (element, some (.throws (name ++ " is invalid")))

def decodeString (name : String) (obj : Json) (element : List UInt8) : List UInt8 × Option Stop :=
  match obj.member name with
  | none => (element, none)
  | some (.string bytes) => (cString bytes, none)
  | some _ => (element, some (.throws (name ++ " is not a string")))

/-- The loop of `Decode` over an array. -/
def decodeElements {α : Type} (setT : Json → Except Stop α) : List Json → List α →
    List α × Option Stop
  | [], elements => (elements, none)
  | v :: vs, elements =>
    match setT v with
    | .ok t => decodeElements setT vs (elements ++ [t])
    | .error stop => (elements, some stop)

def decodeVector {α : Type} (setT : Json → Except Stop α) (name : String) (obj : Json)
    (elements : List α) : List α × Option Stop :=
  match obj.member name with
  | none => (elements, none)
  | some (.array vs) => decodeElements setT vs elements
  | some _ => (elements, some (.throws (name ++ " is not a array")))

/-- `setT` of a `bool`. -/
def setBool : Json → Except Stop Bool
  | .bool b => .ok b
  | _ => .error .aborts

/-- `setT` of a `double`: `GetDouble` takes integers as well. -/
def setDouble : Json → Except Stop Float
  | .number n => .ok (Float.ofInt n)
  | .double d => .ok d
  | _ => .error .aborts

section

-- the default constructors
variable (new : (s : Struct) → s.Val)

mutual

def FieldType.decode : (t : FieldType) → String → Json → t.Val → t.Val × Option Stop
  | .bool => decodeBool
  | .int t => t.decode
  | .string => decodeString
  | .vector t => decodeVector t.setT
  | .element s => fun name obj element =>
    match obj.member name with
    | none => (element, none)
    | some (.object members) => s.acceptDecode (.object members) element
    | some _ => (element, some (.throws ("json wrong fomat object: " ++ name)))

/-- `setT` on a new `T t`. The object on top of the stack is the one that has the vector. -/
def ElementType.setT : (t : ElementType) → Json → Except Stop t.Val
  | .bool => setBool
  | .int t => t.setT
  | .double => setDouble
  | .string => fun v =>
    match v with
    | .string bytes => .ok bytes
    | _ => .error .aborts
  | .element s => fun v =>
    match s.acceptDecode v (new s) with
    | (element, none) => .ok element
    | (_, some stop) => .error stop

/-- `Accept`, with the object that its names are looked up in. -/
def Struct.acceptDecode : (s : Struct) → Json → s.Val → s.Val × Option Stop
  | .nil, _, element => (element, none)
  | .field name t rest, obj, (element, elements) =>
    match t.decode name obj element with
    | (element, some stop) => ((element, elements), some stop)
    | (element, none) =>
      match rest.acceptDecode obj elements with
      | (elements, stop) => ((element, elements), stop)

end

/-- `UnSerializeJson`: `error` and the element after it; `none` where an assertion fails. -/
def unSerializeJson (lib : Rapidjson) (s : Struct) (element : s.Val) (input : List UInt8) :
    Option (String × s.Val) :=
  match lib.parse (cString input) with
  | none => some ("json obj has parse error", element)
  | some document =>
    match s.acceptDecode new document element with
    | (element, none) => some ("", element)
    | (element, some (.throws err)) => some (err, element)
    | (_, some .aborts) => none

end

/-- The document that the fields are added to. -/
def Struct.document (s : Struct) (element : s.Val) : Json := .object (s.acceptEncode element)

/-- `SerializeJson`: `out`. Nothing is thrown. -/
def serializeJson (lib : Rapidjson) (s : Struct) (element : s.Val) : List UInt8 :=
  cString (lib.write (s.document element))

/-! ## Values that come back -/

def Struct.names : Struct → List String
  | .nil => []
  | .field name _ rest => name :: rest.names

mutual

/-- No structure has two fields of one name. -/
def FieldType.Distinct : FieldType → Prop
  | .bool | .int _ | .string => True
  | .vector t => t.Distinct
  | .element s => s.Distinct

def ElementType.Distinct : ElementType → Prop
  | .bool | .int _ | .double | .string => True
  | .element s => s.Distinct

def Struct.Distinct : Struct → Prop
  | .nil => True
  | .field name t rest => name ∉ rest.names ∧ t.Distinct ∧ rest.Distinct

end

mutual

/-- The vectors are empty. -/
def FieldType.Fresh : (t : FieldType) → t.Val → Prop
  | .bool, _ | .int _, _ | .string, _ => True
  | .vector _, elements => elements = []
  | .element s, element => s.Fresh element

def Struct.Fresh : (s : Struct) → s.Val → Prop
  | .nil, _ => True
  | .field _ t rest, (element, elements) => t.Fresh element ∧ rest.Fresh elements

end

def stringPortable (bytes : List UInt8) : Prop := 0 ∉ bytes ∧ bytes.length < 2 ^ 32

def elementsPortable {α : Type} (portable : α → Prop) (elements : List α) : Prop :=
  ∀ element ∈ elements, portable element

mutual

/-- The condition on a value: its strings and its unsigned vector elements have the JSON form that
the visitors give them. -/
def FieldType.Portable : (t : FieldType) → t.Val → Prop
  | .bool, _ | .int _, _ => True
  | .string, bytes => stringPortable bytes
  | .vector t, elements => elementsPortable t.Portable elements
  | .element s, element => s.Portable element

def ElementType.Portable : (t : ElementType) → t.Val → Prop
  | .bool, _ | .double, _ => True
  | .int t, n => t.toInt n < 2 ^ 63
  | .string, bytes => List.length bytes < 2 ^ 32
  | .element s, element => s.Portable element

def Struct.Portable : (s : Struct) → s.Val → Prop
  | .nil, _ => True
  | .field _ t rest, (element, elements) => t.Portable element ∧ rest.Portable elements

end

/-! ## Scalars -/

/-- What the overloads of `Decode` for `bool`, signed integers and strings have in common: the
value under a name is read, and where that fails, an error is thrown. -/
def decodeMember {α : Type} (read : Json → Option α) (err : String) (name : String) (obj : Json)
    (element : α) : α × Option Stop :=
  match obj.member name with
  | none => (element, none)
  | some v =>
    match read v with
    | some x => (x, none)
    | none => (element, some (.throws err))

def readBool : Json → Option Bool
  | .bool b => some b
  | _ => none

def readString : Json → Option (List UInt8)
  | .string bytes => some (cString bytes)
  | _ => none

def readSigned {α : Type} (bits : Nat) (ofInt : Int → α) : Json → Option α
  | .number n => if Json.isInt bits n then some (ofInt n) else none
  | _ => none

theorem decodeBool_eq (name : String) :
    decodeBool name = decodeMember readBool (name ++ " is invalid") name := by
  funext obj element
  unfold decodeBool decodeMember
  cases obj.member name with
  | none => rfl
  | some v => cases v <;> rfl

theorem decodeString_eq (name : String) :
    decodeString name = decodeMember readString (name ++ " is not a string") name := by
  funext obj element
  unfold decodeString decodeMember
  cases obj.member name with
  | none => rfl
  | some v => cases v <;> rfl

theorem decodeSigned_eq {α : Type} (bits : Nat) (ofInt : Int → α) (name : String) :
    IntType.decodeSigned bits ofInt name =
      decodeMember (readSigned bits ofInt) (name ++ " is invalid") name := by
  funext obj element
  unfold IntType.decodeSigned decodeMember
  cases obj.member name with
  | none => rfl
  | some v =>
    cases v with
    | number n =>
      simp only [readSigned]
      split <;> rfl
    | null | bool b | double d | string bytes | array vs | object members => rfl

section

variable {α : Type} {read : Json → Option α} {err name : String} {obj : Json}

theorem decodeMember_absent (h : obj.member name = none) (element : α) :
    decodeMember read err name obj element = (element, none) := by
  unfold decodeMember
  rw [h]

theorem decodeMember_ok {v : Json} {x : α} (hv : obj.member name = some v) (hread : read v = some x)
    (element : α) : decodeMember read err name obj element = (x, none) := by
  unfold decodeMember
  simp only [hv, hread]

/-- Where a value that is there is read, it is the result, whatever the element was. -/
theorem decodeMember_present {v : Json} (hv : obj.member name = some v) {element : α}
    (hok : (decodeMember read err name obj element).2 = none) (element' : α) :
    decodeMember read err name obj element' = decodeMember read err name obj element := by
  cases hread : read v with
  | some x => rw [decodeMember_ok hv hread, decodeMember_ok hv hread]
  | none =>
    unfold decodeMember at hok
    simp only [hv, hread] at hok
    cases hok

theorem decodeMember_throws {element : α} {e : String}
    (h : (decodeMember read err name obj element).2 = some (.throws e)) : e = err := by
  unfold decodeMember at h
  split at h
  next => cases h
  next =>
    split at h
    next => cases h
    next => exact (Stop.throws.inj (Option.some.inj h)).symm

end

/-! ## Integers and strings -/

namespace IntType

theorem isInt_iff {bits : Nat} {n : Int} :
    Json.isInt bits n = true ↔ -2 ^ (bits - 1) ≤ n ∧ n < 2 ^ (bits - 1) := decide_eq_true_iff

theorem decodeSigned_number {α : Type} {bits : Nat} {ofInt : Int → α} {name : String} {obj : Json}
    {n : Int} (hobj : obj.member name = some (.number n)) (hn : Json.isInt bits n = true)
    (init : α) : decodeSigned bits ofInt name obj init = (ofInt n, none) := by
  rw [decodeSigned_eq]
  exact decodeMember_ok hobj (if_pos hn) init

/-- `int64_t` has room for every unsigned number. -/
theorem decodeUnsigned_number (t : IntType) {name : String} {obj : Json} {n : Int64}
    (hobj : obj.member name = some (.number n.toInt)) (init : t.Val) :
    decodeUnsigned t name obj init = (t.ofInt64 n, none) := by
  unfold decodeUnsigned
  rw [decodeSigned_number hobj (isInt_iff.mpr ⟨n.le_toInt, n.toInt_lt⟩), Int64.ofInt_toInt]

/-- A scalar integer comes back. -/
theorem decode_encode (t : IntType) (n init : t.Val) {name : String} {obj : Json}
    (hobj : obj.member name = some (t.encode n)) : t.decode name obj init = (n, none) := by
  cases t with
  | int32 =>
    refine (decodeSigned_number hobj (isInt_iff.mpr ⟨?_, ?_⟩) init).trans ?_
    · exact Int32.le_toInt n
    · exact Int32.toInt_lt n
    · exact congrArg (·, none) (Int32.ofInt_toInt n)
  | int64 =>
    refine (decodeSigned_number hobj (isInt_iff.mpr ⟨?_, ?_⟩) init).trans ?_
    · exact Int64.le_toInt n
    · exact Int64.toInt_lt n
    · exact congrArg (·, none) (Int64.ofInt_toInt n)
  | uint32 =>
    refine (decodeUnsigned_number .uint32 hobj init).trans (congrArg (·, none) ?_)
    exact UInt32.toUInt32_toUInt64 n
  | uint64 =>
    refine (decodeUnsigned_number .uint64 hobj init).trans (congrArg (·, none) ?_)
    exact UInt64.toUInt64_toInt64 n

theorem ofInt_int32 (n : Int32) : (Int64.ofInt n.toInt).toInt32 = n := by
  rw [← n.toInt_toInt64, Int64.ofInt_toInt, n.toInt32_toInt64]

theorem toUInt64_ofInt (n : Int) : (Int64.ofInt n).toUInt64 = UInt64.ofInt n := by
  have hlt : (n % 2 ^ 64).toNat < 2 ^ 64 := by
    have h := Int.emod_lt_of_pos n (show (0 : Int) < 2 ^ 64 by decide)
    omega
  apply UInt64.toNat.inj
  show (Int64.ofInt n).toBitVec.toNat = (UInt64.ofNat (n % 2 ^ 64).toNat).toNat
  rw [Int64.toBitVec_ofInt, BitVec.toNat_ofInt, UInt64.toNat_ofNat_of_lt' hlt]
  rfl

theorem ofInt_uint64 (n : UInt64) : (Int64.ofInt n.toNat).toUInt64 = n := by
  rw [Int64.ofInt_eq_ofNat, ← UInt64.toInt64_ofNat', UInt64.toUInt64_toInt64, UInt64.ofNat_toNat]

theorem ofInt_uint32 (n : UInt32) : (Int64.ofInt n.toNat).toUInt64.toUInt32 = n := by
  rw [← n.toNat_toUInt64, ofInt_uint64, n.toUInt32_toUInt64]

/-- The conversions through `int64_t` undo each other. -/
theorem ofInt64_ofInt (t : IntType) (n : t.Val) : t.ofInt64 (Int64.ofInt (t.toInt n)) = n := by
  cases t with
  | int32 => exact ofInt_int32 n
  | int64 => exact Int64.ofInt_toInt n
  | uint32 => exact ofInt_uint32 n
  | uint64 => exact ofInt_uint64 n

theorem ofInt64_toInt64 (t : IntType) (n : t.Val) : t.ofInt64 (t.toInt64 n) = n := by
  cases t with
  | int32 => exact Int32.toInt32_toInt64 n
  | int64 => rfl
  | uint32 => exact UInt32.toUInt32_toUInt64 n
  | uint64 => exact UInt64.toUInt64_toInt64 n

theorem le_toInt (t : IntType) (n : t.Val) : -2 ^ 63 ≤ t.toInt n := by
  cases t with
  | int32 => exact Int.le_trans (by decide) (Int32.le_toInt n)
  | int64 => exact Int64.le_toInt n
  | uint32 => exact Int.le_trans (by decide) (Int.natCast_nonneg (UInt32.toNat n))
  | uint64 => exact Int.le_trans (by decide) (Int.natCast_nonneg (UInt64.toNat n))

/-- An integer in a vector comes back if `GetInt64` reads it. -/
theorem setT_iff (t : IntType) (n : t.Val) :
    t.setT (.number (t.toInt n)) = .ok n ↔ t.toInt n < 2 ^ 63 := by
  show (if Json.isInt 64 (t.toInt n) then .ok (t.ofInt64 (Int64.ofInt (t.toInt n)))
    else .error Stop.aborts) = Except.ok n ↔ _
  rw [ofInt64_ofInt]
  constructor
  · intro h
    split at h
    next hn => exact (isInt_iff.mp hn).2
    next => cases h
  · intro h
    exact if_pos (isInt_iff.mpr ⟨t.le_toInt n, h⟩)

end IntType

/-- A string field comes back if it is a C string that `SizeType` can count. -/
theorem decodeString_iff {name : String} {obj : Json} {bytes : List UInt8}
    (hobj : obj.member name = some (.stringRef bytes)) (init : List UInt8) :
    decodeString name obj init = (bytes, none) ↔ stringPortable bytes := by
  have hdecode : decodeString name obj init =
      (cString ((cString bytes).take ((cString bytes).length % 2 ^ 32)), none) := by
    have hread : readString (.stringRef bytes) = some _ := rfl
    rw [decodeString_eq]
    exact decodeMember_ok hobj hread init
  rw [hdecode, Prod.mk.injEq]
  have hlen : ∀ l : List UInt8, (cString l).length ≤ l.length := fun l =>
    (List.takeWhile_prefix _).length_le
  constructor
  · rintro ⟨h, -⟩
    -- nothing may get lost in any of the three steps
    have h1 := hlen ((cString bytes).take ((cString bytes).length % 2 ^ 32))
    rw [h, List.length_take] at h1
    have h2 := hlen bytes
    have hfull : (cString bytes).length = bytes.length := by omega
    refine ⟨cString_eq_self.mp ((List.takeWhile_prefix _).eq_of_length hfull), ?_⟩
    rw [hfull] at h1
    have hmod := Nat.mod_lt bytes.length (show 2 ^ 32 > 0 by decide)
    omega
  · rintro ⟨h, hsize⟩
    rw [cString_eq_self.mpr h, Nat.mod_eq_of_lt hsize, List.take_length]
    exact ⟨cString_eq_self.mpr h, rfl⟩

/-- A string in a vector keeps its NUL bytes. -/
theorem setString_iff {bytes : List UInt8} :
    bytes.take (bytes.length % 2 ^ 32) = bytes ↔ bytes.length < 2 ^ 32 := by
  constructor
  · intro h
    have hlen := congrArg List.length h
    rw [List.length_take] at hlen
    have hmod := Nat.mod_lt bytes.length (show 2 ^ 32 > 0 by decide)
    omega
  · intro h
    rw [Nat.mod_eq_of_lt h, List.take_length]

/-! ## Vectors and structures -/

section

variable {α : Type} (setT : Json → Except Stop α) (createJsonValue : α → Json)

/-- The loop only appends. -/
theorem decodeElements_prefix (vs : List Json) (elements : List α) :
    elements <+: (decodeElements setT vs elements).1 := by
  induction vs generalizing elements with
  | nil => exact List.prefix_rfl
  | cons v vs ih =>
    unfold decodeElements
    split
    next t _ => exact (List.prefix_append elements [t]).trans (ih _)
    next => exact List.prefix_rfl

/-- The loop gives back a vector if it gives back every element. -/
theorem decodeElements_iff (xs elements : List α) :
    decodeElements setT (xs.map createJsonValue) elements = (elements ++ xs, none) ↔
      ∀ x ∈ xs, setT (createJsonValue x) = .ok x := by
  induction xs generalizing elements with
  | nil =>
    rw [List.append_nil]
    exact ⟨fun _ => nofun, fun _ => rfl⟩
  | cons x xs ih =>
    rw [List.map_cons, decodeElements, List.forall_mem_cons]
    cases hx : setT (createJsonValue x) with
    | error stop =>
      constructor
      · intro h
        cases (Prod.mk.inj h).2
      · intro h
        cases h.1
    | ok t =>
      have hsplit : elements ++ x :: xs = elements ++ [x] ++ xs := by simp
      constructor
      · intro h
        have hrest : decodeElements setT (xs.map createJsonValue) (elements ++ [t]) =
            (elements ++ x :: xs, none) := h
        have hprefix := decodeElements_prefix setT (xs.map createJsonValue) (elements ++ [t])
        rw [hrest] at hprefix
        obtain rfl : t = x := by simpa using hprefix
        rw [hsplit] at h
        exact ⟨rfl, (ih (elements ++ [t])).mp h⟩
      · rintro ⟨htx, hxs⟩
        obtain rfl : t = x := Except.ok.inj htx
        rw [hsplit]
        exact (ih (elements ++ [t])).mpr hxs

end

theorem lookup_of_mem {members : List (String × Json)} {name : String} {v : Json}
    (hnodup : (members.map (·.1)).Nodup) (hmem : (name, v) ∈ members) :
    members.lookup name = some v := by
  induction members with
  | nil => cases hmem
  | cons p members ih =>
    obtain ⟨hp, hnodup⟩ := List.nodup_cons.mp hnodup
    rcases List.mem_cons.mp hmem with rfl | hmem
    · exact List.lookup_cons_self
    · have hne : name ≠ p.1 := by
        rintro rfl
        exact hp (List.mem_map.mpr ⟨_, hmem, rfl⟩)
      rw [List.lookup_cons, beq_false_of_ne hne]
      exact ih hnodup hmem

namespace Struct

theorem names_nodup : (s : Struct) → s.Distinct → s.names.Nodup
  | .nil, _ => List.nodup_nil
  | .field _ _ rest, h => List.nodup_cons.mpr ⟨h.1, rest.names_nodup h.2.2⟩

theorem map_acceptEncode : (s : Struct) → (x : s.Val) → (s.acceptEncode x).map (·.1) = s.names
  | .nil, _ => rfl
  | .field name _ rest, (_, xs) => congrArg (name :: ·) (rest.map_acceptEncode xs)

/-- In its own document, every name finds its field. -/
theorem member_document {s : Struct} (hs : s.Distinct) (x : s.Val) :
    ∀ p ∈ s.acceptEncode x, (s.document x).member p.1 = some p.2 := fun p hp =>
  lookup_of_mem (by rw [s.map_acceptEncode x]; exact s.names_nodup hs) hp

end Struct

section

variable {new : (s : Struct) → s.Val}

mutual

theorem FieldType.decode_iff (hnew : ∀ s : Struct, s.Fresh (new s)) {name : String} {obj : Json} :
    (t : FieldType) → t.Distinct → (x init : t.Val) → t.Fresh init →
      obj.member name = some (t.encode x) → (t.decode new name obj init = (x, none) ↔ t.Portable x)
  | .bool, _, b, init, _, hobj => by
    refine ⟨fun _ => True.intro, fun _ => ?_⟩
    show decodeBool name obj init = _
    have hread : readBool (.bool b) = some b := rfl
    rw [decodeBool_eq]
    exact decodeMember_ok hobj hread init
  | .int t, _, n, init, _, hobj =>
    ⟨fun _ => True.intro, fun _ => t.decode_encode n init hobj⟩
  | .string, _, bytes, init, _, hobj => decodeString_iff hobj init
  | .vector t, hd, xs, init, hfresh, hobj => by
    have hdecode : decodeVector (t.setT new) name obj init =
        decodeElements (t.setT new) (List.map t.createJsonValue xs) [] := by
      obtain rfl : init = [] := hfresh
      unfold decodeVector
      rw [hobj]
      rfl
    refine (iff_of_eq (congrArg (· = (xs, none)) hdecode)).trans ?_
    refine (decodeElements_iff (t.setT new) t.createJsonValue xs []).trans ?_
    exact forall₂_congr fun x _ => t.setT_iff hnew hd x
  | .element s, hd, x, init, hfresh, hobj => by
    have hdecode : (FieldType.element s).decode new name obj init =
        s.acceptDecode new (s.document x) init := by
      simp only [FieldType.decode]
      rw [hobj]
      rfl
    refine (iff_of_eq (congrArg (· = (x, none)) hdecode)).trans ?_
    exact s.accept_iff hnew hd x init hfresh (Struct.member_document hd x)

theorem ElementType.setT_iff (hnew : ∀ s : Struct, s.Fresh (new s)) :
    (t : ElementType) → t.Distinct → (x : t.Val) →
      (t.setT new (t.createJsonValue x) = .ok x ↔ t.Portable x)
  | .bool, _, _ | .double, _, _ => ⟨fun _ => True.intro, fun _ => rfl⟩
  | .int t, _, n => t.setT_iff n
  | .string, _, bytes => by
    refine Iff.trans ?_ setString_iff
    exact ⟨fun h => Except.ok.inj h, fun h => congrArg Except.ok h⟩
  | .element s, hd, x => by
    refine Iff.trans ?_
      (s.accept_iff hnew hd x (new s) (hnew s) (Struct.member_document hd x))
    show (match s.acceptDecode new (s.document x) (new s) with
      | (element, none) => Except.ok element
      | (_, some stop) => Except.error stop) = Except.ok x ↔ _
    rcases s.acceptDecode new (s.document x) (new s) with ⟨element, _ | stop⟩
    · exact ⟨fun h => congrArg (·, none) (Except.ok.inj h), fun h =>
        congrArg Except.ok (Prod.mk.inj h).1⟩
    · exact ⟨nofun, nofun⟩

theorem Struct.accept_iff (hnew : ∀ s : Struct, s.Fresh (new s)) {obj : Json} :
    (s : Struct) → s.Distinct → (x init : s.Val) → s.Fresh init →
      (∀ p ∈ s.acceptEncode x, obj.member p.1 = some p.2) →
      (s.acceptDecode new obj init = (x, none) ↔ s.Portable x)
  | .nil, _, _, _, _, _ => ⟨fun _ => True.intro, fun _ => rfl⟩
  | .field name t rest, hd, (x, xs), (init, inits), hfresh, hobj => by
    have ht := t.decode_iff hnew hd.2.1 x init hfresh.1 (hobj _ List.mem_cons_self)
    have hrest := rest.accept_iff hnew hd.2.2 xs inits hfresh.2 fun p hp =>
      hobj p (List.mem_cons_of_mem _ hp)
    show (match t.decode new name obj init with
      | (element, some stop) => ((element, inits), some stop)
      | (element, none) =>
        match rest.acceptDecode new obj inits with
        | (elements, stop) => ((element, elements), stop)) = ((x, xs), none) ↔
      t.Portable x ∧ rest.Portable xs
    rw [← ht, ← hrest]
    rcases t.decode new name obj init with ⟨element, _ | stop⟩
    · rcases rest.acceptDecode new obj inits with ⟨elements, stop⟩
      simp only [Prod.mk.injEq, and_true]
      exact and_assoc
    · refine ⟨fun h => absurd (Prod.mk.inj h).2 nofun, fun h => absurd (Prod.mk.inj h.1).2 nofun⟩

end

/-! ## Errors -/

theorem append_ne_empty (name : String) {text : String} (htext : text ≠ "") : name ++ text ≠ "" :=
  fun h => htext (String.append_eq_empty_iff.mp h).2

theorem IntType.decodeSigned_error {α : Type} {bits : Nat} {ofInt : Int → α} {name : String}
    {obj : Json} {init : α} {err : String}
    (h : (decodeSigned bits ofInt name obj init).2 = some (.throws err)) : err ≠ "" := by
  rw [decodeSigned_eq] at h
  exact decodeMember_throws h ▸ append_ne_empty name (by decide)

theorem IntType.decode_error {t : IntType} {name : String} {obj : Json} {init : t.Val}
    {err : String} (h : (t.decode name obj init).2 = some (.throws err)) : err ≠ "" := by
  have hunsigned : ∀ (t : IntType) (init : t.Val),
      (decodeUnsigned t name obj init).2 = some (.throws err) → err ≠ "" := by
    intro t init h
    unfold decodeUnsigned at h
    split at h
    next => cases h
    next stop heq =>
      have heq := congrArg Prod.snd heq
      rw [show some stop = some (Stop.throws err) from h] at heq
      exact decodeSigned_error heq
  cases t with
  | int32 | int64 => exact decodeSigned_error h
  | uint32 => exact hunsigned .uint32 init h
  | uint64 => exact hunsigned .uint64 init h

theorem decodeElements_error {α : Type} {setT : Json → Except Stop α} {err : String}
    (hset : ∀ v, setT v = .error (.throws err) → err ≠ "") (vs : List Json) (elements : List α)
    (h : (decodeElements setT vs elements).2 = some (.throws err)) : err ≠ "" := by
  induction vs generalizing elements with
  | nil => cases h
  | cons v vs ih =>
    unfold decodeElements at h
    split at h
    next => exact ih _ h
    next stop heq =>
      obtain rfl : stop = .throws err := Option.some.inj h
      exact hset v heq

mutual

/-- An error that is thrown has a text. -/
theorem FieldType.decode_error {name : String} {obj : Json} {err : String} :
    (t : FieldType) → (init : t.Val) → (t.decode new name obj init).2 = some (.throws err) →
      err ≠ ""
  | .bool, init, h => by
    have h : (decodeBool name obj init).2 = some (.throws err) := h
    rw [decodeBool_eq] at h
    exact decodeMember_throws h ▸ append_ne_empty name (by decide)
  | .int t, init, h => t.decode_error h
  | .string, init, h => by
    have h : (decodeString name obj init).2 = some (.throws err) := h
    rw [decodeString_eq] at h
    exact decodeMember_throws h ▸ append_ne_empty name (by decide)
  | .vector t, init, h => by
    have h : (decodeVector (t.setT new) name obj init).2 = some (.throws err) := h
    unfold decodeVector at h
    split at h
    next => cases h
    next => exact decodeElements_error (fun v => t.setT_error v) _ _ h
    next => cases h; exact append_ne_empty name (by decide)
  | .element s, init, h => by
    have htext : "json wrong fomat object: " ++ name ≠ "" := fun hnil =>
      absurd (String.append_eq_empty_iff.mp hnil).1 (by decide)
    simp only [FieldType.decode] at h
    cases hobj : obj.member name with
    | none => rw [hobj] at h; cases h
    | some v =>
      rw [hobj] at h
      cases v with
      | object members => exact s.accept_error init h
      | null | bool b | number n | double d | string bytes | array vs => cases h; exact htext

theorem ElementType.setT_error {err : String} :
    (t : ElementType) → (v : Json) → t.setT new v = .error (.throws err) → err ≠ ""
  | .bool, v, h => by
    have h : setBool v = .error (.throws err) := h
    unfold setBool at h
    split at h <;> cases h
  | .double, v, h => by
    have h : setDouble v = .error (.throws err) := h
    unfold setDouble at h
    split at h <;> cases h
  | .int t, v, h => by
    have h : t.setT v = .error (.throws err) := h
    unfold IntType.setT at h
    split at h
    next => split at h <;> cases h
    next => cases h
  | .string, v, h => by
    simp only [ElementType.setT] at h
    split at h <;> cases h
  | .element s, v, h => by
    simp only [ElementType.setT] at h
    split at h
    next => cases h
    next stop heq =>
      cases h
      exact s.accept_error (new s) (congrArg Prod.snd heq)

theorem Struct.accept_error {obj : Json} {err : String} :
    (s : Struct) → (init : s.Val) → (s.acceptDecode new obj init).2 = some (.throws err) → err ≠ ""
  | .nil, _, h => by cases h
  | .field name t rest, (init, inits), h => by
    simp only [Struct.acceptDecode] at h
    split at h
    next heq =>
      cases h
      exact t.decode_error init (congrArg Prod.snd heq)
    next => exact rest.accept_error inits h

end

/-! ## The round trip -/

/-- rapidjson in the middle: the target takes the document that the fields were added to. -/
theorem unSerializeJson_serializeJson {lib : Rapidjson} {s : Struct} {x : s.Val}
    (hlib : lib.Undoes (s.document x)) (init : s.Val) :
    unSerializeJson new lib s init (serializeJson lib s x) =
      match s.acceptDecode new (s.document x) init with
      | (element, none) => some ("", element)
      | (element, some (.throws err)) => some (err, element)
      | (_, some .aborts) => none := by
  have htext : serializeJson lib s x = lib.write (s.document x) := cString_eq_self.mpr hlib.noNul
  have hparse : lib.parse (cString (serializeJson lib s x)) = some (s.document x) := by
    rw [htext, cString_eq_self.mpr hlib.noNul]
    exact hlib.parse_write
  unfold unSerializeJson
  rw [hparse]

/-- A new target takes the value that was serialized, and no error is reported, exactly if the
value is portable. -/
theorem roundTrip_iff {lib : Rapidjson} (hnew : ∀ s : Struct, s.Fresh (new s)) {s : Struct}
    (hs : s.Distinct) (x : s.Val) (hlib : lib.Undoes (s.document x)) :
    unSerializeJson new lib s (new s) (serializeJson lib s x) = some ("", x) ↔ s.Portable x := by
  rw [← s.accept_iff hnew hs x (new s) (hnew s) (Struct.member_document hs x),
    unSerializeJson_serializeJson hlib]
  rcases h : s.acceptDecode new (s.document x) (new s) with ⟨element, _ | stop⟩
  · simp
  · cases stop with
    | throws err =>
      have herr := s.accept_error (new s) (congrArg Prod.snd h)
      simp [herr]
    | aborts => simp

end

mutual

/-- Default constructors that set every field to zero. -/
def FieldType.zero : (t : FieldType) → t.Val
  | .bool => false
  | .int .int32 => (0 : Int32)
  | .int .int64 => (0 : Int64)
  | .int .uint32 => (0 : UInt32)
  | .int .uint64 => (0 : UInt64)
  | .string => []
  | .vector _ => []
  | .element s => s.zero

def Struct.zero : (s : Struct) → s.Val
  | .nil => ()
  | .field _ t rest => (t.zero, rest.zero)

end

mutual

theorem FieldType.zero_fresh : (t : FieldType) → t.Fresh t.zero
  | .bool => True.intro
  | .int .int32 | .int .int64 | .int .uint32 | .int .uint64 => True.intro
  | .string => True.intro
  | .vector _ => rfl
  | .element s => s.zero_fresh

theorem Struct.zero_fresh : (s : Struct) → s.Fresh s.zero
  | .nil => True.intro
  | .field _ t rest => ⟨t.zero_fresh, rest.zero_fresh⟩

end

/-- rapidjson, as far as one document and its text are concerned. -/
def Rapidjson.ofText (document : Json) (text : List UInt8) : Rapidjson :=
  ⟨fun _ => text, fun input => if input = text then some document else none⟩

theorem Rapidjson.ofText_undoes {document : Json} {text : List UInt8} (htext : 0 ∉ text) :
    (ofText document text).Undoes document :=
  ⟨if_pos rfl, htext⟩

/-- A structure with a string and a number, and its text. -/
def addrPort : Struct := .field "addr" .string (.field "port" (.int .uint64) .nil)

def addrPortLib : Rapidjson :=
  .ofText (.object [("addr", .string [97]), ("port", .number (-1))])
    "\x7b\"addr\":\"a\",\"port\":-1\x7d".toUTF8.toList

/-- The largest `uint64_t` comes back: in the text it is -1. -/
theorem roundTrip_max_uint64 :
    unSerializeJson Struct.zero addrPortLib addrPort (Struct.zero addrPort)
      (serializeJson addrPortLib addrPort ([97], (18446744073709551615 : UInt64), ())) =
      some ("", ([97], (18446744073709551615 : UInt64), ())) := by
  have hs : addrPort.Distinct := ⟨by decide, True.intro, nofun, True.intro, True.intro⟩
  have hlib : addrPortLib.Undoes
      (addrPort.document ([97], (18446744073709551615 : UInt64), ())) :=
    Rapidjson.ofText_undoes (by decide +kernel)
  have hx : addrPort.Portable ([97], (18446744073709551615 : UInt64), ()) :=
    ⟨⟨by decide, by decide⟩, True.intro, True.intro⟩
  exact (roundTrip_iff Struct.zero_fresh hs _ hlib).mpr hx

def addrOnly : Struct := .field "addr" .string .nil

def addrOnlyLib : Rapidjson :=
  .ofText (.object [("addr", .string [97])]) "\x7b\"addr\":\"a\"\x7d".toUTF8.toList

/-- A string field loses what follows a NUL byte. -/
theorem nul_byte_lost :
    addrOnly.Distinct ∧ addrOnlyLib.Undoes (addrOnly.document ([97, 0, 98], ())) ∧
    unSerializeJson Struct.zero addrOnlyLib addrOnly (Struct.zero addrOnly)
      (serializeJson addrOnlyLib addrOnly ([97, 0, 98], ())) = some ("", ([97], ())) ∧
    unSerializeJson Struct.zero addrOnlyLib addrOnly (Struct.zero addrOnly)
      (serializeJson addrOnlyLib addrOnly ([97, 0, 98], ())) ≠ some ("", ([97, 0, 98], ())) := by
  have hlib : addrOnlyLib.Undoes (addrOnly.document ([97, 0, 98], ())) :=
    Rapidjson.ofText_undoes (by decide +kernel)
  have hlost : unSerializeJson Struct.zero addrOnlyLib addrOnly (Struct.zero addrOnly)
      (serializeJson addrOnlyLib addrOnly ([97, 0, 98], ())) = some ("", ([97], ())) := by
    rw [unSerializeJson_serializeJson hlib]
    rfl
  refine ⟨⟨nofun, True.intro, True.intro⟩, hlib, hlost, ?_⟩
  rw [hlost]
  exact fun h => absurd (congrArg (fun x => (x.map (fun y => y.2.1.length))) h) (by decide)

end Sheep
