import Sheep.Config.JsonReload
import Sheep.Config.SmallToml

/-!
# One configuration as JSON and as TOML

A `Doc` is a document that both formats can write: a tree of named scalars and tables. `ReadsAlike`
is what is expected of its two texts: `UnSerializeJson` and `UnSerializeToml` leave the same value
in a structure, and report an error together.

Both decoders leave a field alone that the document does not have. A value of another type is an
error for the JSON visitor, and is passed over by the TOML visitor. `readsAlike_iff`: the two read a
document alike exactly if every field that it has, at any depth, `Fits`.
-/

namespace Sheep

/-! ## Documents -/

/-- A document value. The strings have no NUL byte. -/
inductive Doc
  | bool (b : Bool)
  | int (n : Int)
  | double (d : Float)
  | string (bytes : List UInt8) (noNul : 0 ∉ bytes)
  | table (members : List (String × Doc))

mutual

/-- What rapidjson has for the JSON text of a document. -/
def Doc.json : Doc → Json
  | .bool b => .bool b
  | .int n => .number n
  | .double d => .double d
  | .string bytes _ => .string bytes
  | .table members => .object (Doc.jsonMembers members)

def Doc.jsonMembers : List (String × Doc) → List (String × Json)
  | [] => []
  | (name, d) :: members => (name, d.json) :: Doc.jsonMembers members

end

theorem Doc.lookup_jsonMembers (name : String) (members : List (String × Doc)) :
    (Doc.jsonMembers members).lookup name = (members.lookup name).map Doc.json := by
  induction members with
  | nil => rfl
  | cons p members ih =>
    obtain ⟨key, d⟩ := p
    rw [Doc.jsonMembers, List.lookup_cons, List.lookup_cons, ih]
    cases name == key <;> rfl

/-- What tinytoml is relied on for: `value` is the value that it has for the TOML text of a
document. A name without a `.` is looked up in a table, and the accessors give back a scalar of
their type. -/
structure Tinytoml.Represents (lib : Tinytoml) (value : Doc → lib.Value) : Prop where
  find : ∀ (members : List (String × Doc)) (name : String), '.' ∉ name.toList →
    lib.find (value (.table members)) name = (members.lookup name).map value
  asBool : ∀ b : Bool, lib.asBool (value (.bool b)) = some b
  asInt : ∀ n : Int, Json.isInt 32 n = true → lib.asInt (value (.int n)) = some (Int32.ofInt n)
  asInt64 : ∀ n : Int, Json.isInt 64 n = true →
    lib.asInt64 (value (.int n)) = some (Int64.ofInt n)
  asString : ∀ (bytes : List UInt8) (noNul : 0 ∉ bytes),
    lib.asString (value (.string bytes noNul)) = some bytes

/-! ## Fields that both decoders have -/

mutual

/-- No vector, and no name with a `.` -/
def FieldType.Common : FieldType → Prop
  | .bool | .int _ | .string => True
  | .vector _ => False
  | .element s => s.Common

def Struct.Common : Struct → Prop
  | .nil => True
  | .field name t rest => '.' ∉ name.toList ∧ t.Common ∧ rest.Common

end

mutual

/-- The value has the type of the field. The unsigned types are read as `int64_t`. -/
def FieldType.Fits : FieldType → Doc → Prop
  | .bool, d => ∃ b, d = .bool b
  | .int t, d => ∃ n, d = .int n ∧ Json.isInt t.bits n = true
  | .string, d => ∃ bytes noNul, d = .string bytes noNul
  | .vector _, _ => False
  | .element s, d => ∃ members, d = .table members ∧ s.Fits members

/-- Every field that the table has fits. -/
def Struct.Fits : Struct → List (String × Doc) → Prop
  | .nil, _ => True
  | .field name t rest, members =>
    (∀ d, members.lookup name = some d → t.Fits d) ∧ rest.Fits members

end

/-! ## Where JSON reports an error -/

mutual

theorem FieldType.fits_iff : (t : FieldType) → t.Common → (d : Doc) →
    (firstFault (t.faults d.json) = none ↔ t.Fits d)
  | .bool, _, d => by
    cases d <;> simp [FieldType.faults, FieldType.Fits, Doc.json, firstFault]
  | .int t, _, d => by
    cases d with
    | int n =>
      simp only [FieldType.faults, FieldType.Fits, Doc.json, Doc.int.injEq, exists_eq_left']
      split
      next hn => cases t.inRange n <;> simp [firstFault, hn]
      next hn => simp [firstFault, hn]
    | bool b | double x | string bytes noNul | table members =>
      simp [FieldType.faults, FieldType.Fits, Doc.json, firstFault]
  | .string, _, d => by
    cases d with
    | string bytes noNul => exact iff_of_true rfl ⟨bytes, noNul, rfl⟩
    | bool b | int n | double x | table members =>
      simp [FieldType.faults, FieldType.Fits, Doc.json, firstFault]
  | .element s, hs, d => by
    cases d with
    | table members =>
      simp only [FieldType.faults, FieldType.Fits, Doc.json, Doc.table.injEq, exists_eq_left']
      exact s.fits_iff hs members
    | bool b | int n | double x | string bytes noNul =>
      simp [FieldType.faults, FieldType.Fits, Doc.json, firstFault]

/-- The JSON visitor stops nowhere exactly if every field fits. -/
theorem Struct.fits_iff : (s : Struct) → s.Common → (members : List (String × Doc)) →
    (firstFault (s.faults (Doc.table members).json) = none ↔ s.Fits members)
  | .nil, _, _ => iff_of_true rfl True.intro
  | .field name t rest, hs, members => by
    have hmember : (Doc.table members).json.member name = (members.lookup name).map Doc.json :=
      Doc.lookup_jsonMembers name members
    rw [Struct.faults, firstFault_append, Option.or_eq_none_iff, rest.fits_iff hs.2.2 members,
      Struct.Fits, hmember]
    refine and_congr_left fun _ => ?_
    cases members.lookup name with
    | none => simp [firstFault]
    | some d => simpa using t.fits_iff hs.2.1 d

end

/-! ## Where both return -/

section

variable {lib : Tinytoml} {value : Doc → lib.Value}

/-- A scalar that both read. -/
theorem decodeImp_eq_decodeMember {α : Type} {read : Json → Option α} {as : lib.Value → Option α}
    {err name : String} {obj v : Json} {nowObj w : lib.Value} {x : α}
    (hv : obj.member name = some v) (hw : lib.find nowObj name = some w) (hread : read v = some x)
    (has : as w = some x) (element : α) :
    decodeMember read err name obj element = (decodeImp lib as name nowObj element, none) := by
  rw [decodeMember_ok hv hread, decodeImp_present hw has]

theorem IntType.decode_eq_decodeToml (hlib : lib.Represents value) (t : IntType) {name : String}
    {obj : Json} {nowObj : lib.Value} {n : Int} (hv : obj.member name = some (.number n))
    (hw : lib.find nowObj name = some (value (.int n))) (hn : Json.isInt t.bits n = true)
    (element : t.Val) :
    t.decode name obj element = (t.decodeToml lib name nowObj element, none) := by
  have hunsigned : ∀ (t : IntType) (element : t.Val), Json.isInt 64 n = true →
      decodeUnsigned t name obj element =
        (t.ofInt64 (decodeImp lib lib.asInt64 name nowObj (t.toInt64 element)), none) := by
    intro t element hn
    unfold decodeUnsigned
    rw [decodeSigned_number hv hn, decodeImp_present hw (hlib.asInt64 n hn)]
  cases t with
  | int32 =>
    refine (decodeSigned_number hv hn element).trans ?_
    exact congrArg (·, none) (decodeImp_present hw (hlib.asInt n hn) element).symm
  | int64 =>
    refine (decodeSigned_number hv hn element).trans ?_
    exact congrArg (·, none) (decodeImp_present hw (hlib.asInt64 n hn) element).symm
  | uint32 => exact hunsigned .uint32 element hn
  | uint64 => exact hunsigned .uint64 element hn

variable {new : (s : Struct) → s.Val}

theorem FieldType.decodeToml_absent (t : FieldType) {name : String} {nowObj : lib.Value}
    (h : lib.find nowObj name = none) (element : t.Val) :
    t.decodeToml lib name nowObj element = element := by
  have himp : ∀ {α : Type} (as : lib.Value → Option α) (element : α),
      decodeImp lib as name nowObj element = element := by
    intro α as element
    unfold decodeImp
    rw [h]
  cases t with
  | bool => exact himp lib.asBool element
  | int t =>
    cases t with
    | int32 => exact himp lib.asInt element
    | int64 => exact himp lib.asInt64 element
    | uint32 =>
      refine (congrArg (IntType.ofInt64 .uint32) (himp _ _)).trans ?_
      exact IntType.ofInt64_toInt64 .uint32 element
    | uint64 =>
      refine (congrArg (IntType.ofInt64 .uint64) (himp _ _)).trans ?_
      exact IntType.ofInt64_toInt64 .uint64 element
  | string => exact himp lib.asString element
  | vector t => exact himp (lib.asVector t) element
  | element s =>
    simp only [FieldType.decodeToml]
    rw [h]

mutual

theorem FieldType.decode_eq_decodeToml (hlib : lib.Represents value) {name : String} {obj : Json}
    {nowObj : lib.Value} : (t : FieldType) → t.Common → (d : Doc) → t.Fits d →
      obj.member name = some d.json → lib.find nowObj name = some (value d) → (x : t.Val) →
        t.decode new name obj x = (t.decodeToml lib name nowObj x, none)
  | .bool, _, d, hd, hv, hw, x => by
    obtain ⟨b, rfl⟩ := hd
    have hread : readBool (Doc.bool b).json = some b := rfl
    show decodeBool name obj x = _
    rw [decodeBool_eq]
    exact decodeImp_eq_decodeMember hv hw hread (hlib.asBool b) x
  | .int t, _, d, hd, hv, hw, x => by
    obtain ⟨n, rfl, hn⟩ := hd
    exact t.decode_eq_decodeToml hlib hv hw hn x
  | .string, _, d, hd, hv, hw, x => by
    obtain ⟨bytes, noNul, rfl⟩ := hd
    have hread : readString (Doc.string bytes noNul).json = some bytes :=
      congrArg some (cString_eq_self.mpr noNul)
    show decodeString name obj x = _
    rw [decodeString_eq]
    exact decodeImp_eq_decodeMember hv hw hread (hlib.asString bytes noNul) x
  | .element s, hs, d, hd, hv, hw, x => by
    obtain ⟨members, rfl, hfits⟩ := hd
    simp only [FieldType.decode, FieldType.decodeToml]
    rw [hv, hw]
    exact s.acceptDecode_eq_acceptToml hlib hs members hfits x

/-- On a table whose fields fit, both visitors return, with the same value. -/
theorem Struct.acceptDecode_eq_acceptToml (hlib : lib.Represents value) : (s : Struct) →
    s.Common → (members : List (String × Doc)) → s.Fits members → (x : s.Val) →
      s.acceptDecode new (Doc.table members).json x =
        (s.acceptToml lib (value (.table members)) x, none)
  | .nil, _, _, _, _ => rfl
  | .field name t rest, hs, members, hfits, (x, xs) => by
    have hmember : (Doc.table members).json.member name = (members.lookup name).map Doc.json :=
      Doc.lookup_jsonMembers name members
    have hfind := hlib.find members name hs.1
    have hfield : t.decode new name (Doc.table members).json x =
        (t.decodeToml lib name (value (.table members)) x, none) := by
      cases hd : members.lookup name with
      | none =>
        rw [hd] at hmember hfind
        rw [t.decode_absent hmember x, t.decodeToml_absent hfind x]
      | some d =>
        rw [hd] at hmember hfind
        exact t.decode_eq_decodeToml hlib hs.2.1 d (hfits.1 d hd) hmember hfind x
    simp only [Struct.acceptDecode, Struct.acceptToml]
    rw [hfield, rest.acceptDecode_eq_acceptToml hlib hs.2.2 members hfits.2 xs]

end

end

/-! ## tinytoml on one text -/

/-- tinytoml on one text. A `Value` is a document. -/
def Tinytoml.ofText (document : Doc) (text : List UInt8) : Tinytoml where
  Value := Doc
  parse input := if input = text then .ok document else .error "invalid"
  find
    | .table members, name => members.lookup name
    | _, _ => none
  asBool
    | .bool b => some b
    | _ => none
  asInt
    | .int n => some (Int32.ofInt n)
    | _ => none
  asInt64
    | .int n => some (Int64.ofInt n)
    | _ => none
  asString
    | .string bytes _ => some bytes
    | _ => none
  asVector _ _ := none

theorem Tinytoml.ofText_parse (document : Doc) (text : List UInt8) :
    (Tinytoml.ofText document text).parse text = .ok document := by
  simp only [ofText, if_true]

theorem Tinytoml.ofText_represents (document : Doc) (text : List UInt8) :
    (Tinytoml.ofText document text).Represents id where
  find members name _ := (congrFun Option.map_id (members.lookup name)).symm
  asBool _ := rfl
  asInt _ _ := rfl
  asInt64 _ _ := rfl
  asString _ _ := rfl

/-! ## Two texts of one document -/

/-- The two decoders leave the same value behind, and one reports an error exactly if the other
does. -/
def ReadsAlike (new : (s : Struct) → s.Val) (json : Rapidjson) (toml : Tinytoml) (s : Struct)
    (x : s.Val) (jsonText tomlText : List UInt8) : Prop :=
  ∃ (jsonError tomlError : String) (y : s.Val),
    unSerializeJson new json s x jsonText = some (jsonError, y) ∧
      unSerializeToml toml s x tomlText = (tomlError, y) ∧ (jsonError = "" ↔ tomlError = "")

/-- The two texts of a document are read alike exactly if every field of the structure that it has
fits: there the TOML decoder reports no error, and the JSON decoder does where one does not. -/
theorem readsAlike_iff (new : (s : Struct) → s.Val) (json : Rapidjson) (toml : Tinytoml)
    (value : Doc → toml.Value) (hlib : toml.Represents value) (s : Struct) (hs : s.Common)
    (x : s.Val) (members : List (String × Doc)) (jsonText tomlText : List UInt8)
    (hjson : json.parse (cString jsonText) = some (Doc.table members).json)
    (htoml : toml.parse tomlText = .ok (value (.table members))) :
    ReadsAlike new json toml s x jsonText tomlText ↔ s.Fits members := by
  have hread : unSerializeToml toml s x tomlText =
      ("", s.acceptToml toml (value (.table members)) x) := by
    unfold unSerializeToml
    rw [htoml]
  constructor
  · rintro ⟨jsonError, tomlError, y, hy, hy', herr⟩
    obtain ⟨rfl, -⟩ := Prod.mk.inj (hread.symm.trans hy')
    obtain rfl : jsonError = "" := herr.mpr rfl
    have hok := (unSerializeJson_ok_iff hjson).mp hy
    refine (s.fits_iff hs members).mp ?_
    exact (Struct.acceptDecode_none_iff s _ x).mp (congrArg Prod.snd hok)
  · intro hfits
    refine ⟨"", "", _, (unSerializeJson_ok_iff hjson).mpr ?_, hread, Iff.rfl⟩
    exact s.acceptDecode_eq_acceptToml hlib hs members hfits x

/-- An address, a port and a table. -/
def nestConfig : Struct :=
  .field "addr" .string
    (.field "port" (.int .uint64) (.field "nest" (.element (.field "nest_addr" .string .nil)) .nil))

def nestConfigDoc : List (String × Doc) :=
  [("addr", .string [97] (by decide)), ("port", .int 1),
    ("nest", .table [("nest_addr", .string [98] (by decide))])]

def nestConfigJson : Bytes :=
  bytes "\x7b\"addr\":\"a\",\"port\":1,\"nest\":\x7b\"nest_addr\":\"b\"\x7d\x7d"

def nestConfigToml : Bytes := bytes "addr = \"a\"\nport = 1\n[nest]\nnest_addr = \"b\"\n"

theorem nestConfig_readsAlike :
    ReadsAlike Struct.zero (.ofText (Doc.table nestConfigDoc).json nestConfigJson)
      (.ofText (.table nestConfigDoc) nestConfigToml) nestConfig (Struct.zero nestConfig)
      nestConfigJson nestConfigToml := by
  have hcommon : nestConfig.Common :=
    ⟨by decide, True.intro, by decide, True.intro, by decide, ⟨by decide, True.intro, True.intro⟩,
      True.intro⟩
  have hfits : nestConfig.Fits nestConfigDoc := by
    refine ⟨fun d hd => ?_, fun d hd => ?_, fun d hd => ?_, True.intro⟩
    · exact ⟨_, _, (Option.some.inj hd).symm⟩
    · exact ⟨1, (Option.some.inj hd).symm, by decide⟩
    · refine ⟨_, (Option.some.inj hd).symm, fun d hd => ?_, True.intro⟩
      exact ⟨_, _, (Option.some.inj hd).symm⟩
  have hnul : cString nestConfigJson = nestConfigJson := by decide
  have hjson : (Rapidjson.ofText (Doc.table nestConfigDoc).json nestConfigJson).parse
      (cString nestConfigJson) = some (Doc.table nestConfigDoc).json := by
    rw [hnul]
    exact (Rapidjson.ofText_undoes (cString_eq_self.mp hnul)).parse_write
  exact (readsAlike_iff Struct.zero _ _ id (Tinytoml.ofText_represents _ _) nestConfig hcommon
    (Struct.zero nestConfig) nestConfigDoc nestConfigJson nestConfigToml hjson
    (Tinytoml.ofText_parse _ _)).mpr hfits

def stringPort : List (String × Doc) := [("port", .string [56, 48] (by decide))]

def stringPortJson : Bytes := bytes "\x7b\"port\":\"80\"\x7d"

def stringPortToml : Bytes := bytes "port = \"80\"\n"

/-- A port that is a string is an error in one format only. -/
theorem stringPort_unlike :
    unSerializeJson Struct.zero (.ofText (Doc.table stringPort).json stringPortJson) nestConfig
        (Struct.zero nestConfig) stringPortJson =
      some ("port is invalid", Struct.zero nestConfig) ∧
    unSerializeToml (.ofText (.table stringPort) stringPortToml) nestConfig
        (Struct.zero nestConfig) stringPortToml = ("", Struct.zero nestConfig) ∧
    ¬ ReadsAlike Struct.zero (.ofText (Doc.table stringPort).json stringPortJson)
      (.ofText (.table stringPort) stringPortToml) nestConfig (Struct.zero nestConfig)
      stringPortJson stringPortToml := by
  have hjson : unSerializeJson Struct.zero (.ofText (Doc.table stringPort).json stringPortJson)
      nestConfig (Struct.zero nestConfig) stringPortJson =
        some ("port is invalid", Struct.zero nestConfig) := rfl
  have htoml : unSerializeToml (.ofText (.table stringPort) stringPortToml) nestConfig
      (Struct.zero nestConfig) stringPortToml = ("", Struct.zero nestConfig) := rfl
  refine ⟨hjson, htoml, ?_⟩
  rintro ⟨jsonError, tomlError, y, hy, hy', herr⟩
  have h1 := congrArg Prod.fst (Option.some.inj (hjson.symm.trans hy))
  have h2 := congrArg Prod.fst (htoml.symm.trans hy')
  exact absurd (h1.trans (herr.mpr h2.symm)) (by decide)

end Sheep
