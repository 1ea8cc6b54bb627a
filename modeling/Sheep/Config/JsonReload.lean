import Sheep.Config.JsonFaults

/-!
# `UnSerializeJson` into a value that is not new

A configuration may be read again into the structure that has the last one. `ReloadLaw` is what is
then expected of a text that reports no error: what the document sets depends on the document
only (`Agree`), what it does not mention is left alone (`Keeps`), and reading it a second time
changes nothing.

Vectors are appended to, so a document that has a vector meets none of this. `reloadLaw_iff`: the
law holds for a text exactly if it ends with an error, or its document sets no vector.
-/

namespace Sheep

/-! ## What a document sets -/

mutual

/-- The values agree where the document sets them. -/
def FieldType.Agree : (t : FieldType) → Json → t.Val → t.Val → Prop
  | .bool, _, y, y' => y = y'
  | .int _, _, y, y' => y = y'
  | .string, _, y, y' => y = y'
  | .vector _, _, y, y' => y = y'
  | .element s, v, y, y' => s.Agree v y y'

def Struct.Agree : (s : Struct) → Json → s.Val → s.Val → Prop
  | .nil, _, _, _ => True
  | .field name t rest, obj, (y, ys), (y', ys') =>
    (∀ v, obj.member name = some v → t.Agree v y y') ∧ rest.Agree obj ys ys'

end

mutual

/-- The fields that the document does not have are those of `x` in `y`. -/
def FieldType.Keeps : (t : FieldType) → Json → t.Val → t.Val → Prop
  | .bool, _, _, _ | .int _, _, _, _ | .string, _, _, _ | .vector _, _, _, _ => True
  | .element s, v, x, y => s.Keeps v x y

def Struct.Keeps : (s : Struct) → Json → s.Val → s.Val → Prop
  | .nil, _, _, _ => True
  | .field name t rest, obj, (x, xs), (y, ys) =>
    (obj.member name = none → y = x) ∧ (∀ v, obj.member name = some v → t.Keeps v x y) ∧
      rest.Keeps obj xs ys

end

mutual

/-- The document sets no vector. -/
def FieldType.NoVector : FieldType → Json → Prop
  | .bool, _ | .int _, _ | .string, _ => True
  | .vector _, _ => False
  | .element s, v => s.NoVector v

def Struct.NoVector : Struct → Json → Prop
  | .nil, _ => True
  | .field name t rest, obj =>
    (∀ v, obj.member name = some v → t.NoVector v) ∧ rest.NoVector obj

end

/-! ## Fields that are absent -/

theorem IntType.decode_absent (t : IntType) {name : String} {obj : Json}
    (h : obj.member name = none) (init : t.Val) : t.decode name obj init = (init, none) := by
  have hsigned : ∀ {α : Type} (bits : Nat) (ofInt : Int → α) (init : α),
      decodeSigned bits ofInt name obj init = (init, none) := by
    intro α bits ofInt init
    rw [decodeSigned_eq]
    exact decodeMember_absent h init
  have hunsigned : ∀ (t : IntType) (init : t.Val),
      decodeUnsigned t name obj init = (init, none) := by
    intro t init
    unfold decodeUnsigned
    rw [hsigned 64 Int64.ofInt (t.toInt64 init)]
    exact congrArg (·, none) (t.ofInt64_toInt64 init)
  cases t with
  | int32 => exact hsigned 32 _ init
  | int64 => exact hsigned 64 _ init
  | uint32 => exact hunsigned .uint32 init
  | uint64 => exact hunsigned .uint64 init

section

variable {new : (s : Struct) → s.Val}

theorem FieldType.decode_absent (t : FieldType) {name : String} {obj : Json}
    (h : obj.member name = none) (init : t.Val) : t.decode new name obj init = (init, none) := by
  cases t with
  | bool =>
    show decodeBool name obj init = _
    rw [decodeBool_eq]
    exact decodeMember_absent h init
  | int t => exact t.decode_absent h init
  | string =>
    show decodeString name obj init = _
    rw [decodeString_eq]
    exact decodeMember_absent h init
  | vector t =>
    show decodeVector (t.setT new) name obj init = _
    unfold decodeVector
    rw [h]
    rfl
  | element s =>
    simp only [FieldType.decode]
    rw [h]

/-! ## Fields that are present -/

theorem IntType.decodeSigned_present {α : Type} {bits : Nat} {ofInt : Int → α} {name : String}
    {obj v : Json} (hv : obj.member name = some v) {init : α}
    (hok : (decodeSigned bits ofInt name obj init).2 = none) (init' : α) :
    decodeSigned bits ofInt name obj init' = decodeSigned bits ofInt name obj init := by
  rw [decodeSigned_eq] at hok ⊢
  exact decodeMember_present hv hok init'

/-- A number that is there and has its type is the value, whatever was there before. -/
theorem IntType.decode_present (t : IntType) {name : String} {obj v : Json}
    (hv : obj.member name = some v) {init : t.Val} (hok : (t.decode name obj init).2 = none)
    (init' : t.Val) : t.decode name obj init' = t.decode name obj init := by
  have hunsigned : ∀ (t : IntType) (init init' : t.Val),
      (decodeUnsigned t name obj init).2 = none →
        decodeUnsigned t name obj init' = decodeUnsigned t name obj init := by
    intro t init init' hok
    have hsigned : (decodeSigned 64 Int64.ofInt name obj (t.toInt64 init)).2 = none := by
      unfold decodeUnsigned at hok
      split at hok
      next heq => exact congrArg Prod.snd heq
      next => cases hok
    unfold decodeUnsigned
    rw [decodeSigned_present hv hsigned (t.toInt64 init')]
    rcases h : decodeSigned 64 Int64.ofInt name obj (t.toInt64 init) with ⟨element1, _ | stop⟩
    · rfl
    · rw [h] at hsigned
      cases hsigned
  cases t with
  | int32 => exact decodeSigned_present hv hok init'
  | int64 => exact decodeSigned_present hv hok init'
  | uint32 => exact hunsigned .uint32 init init' hok
  | uint64 => exact hunsigned .uint64 init init' hok

theorem decodeBool_present {name : String} {obj v : Json} (hv : obj.member name = some v)
    {init : Bool} (hok : (decodeBool name obj init).2 = none) (init' : Bool) :
    decodeBool name obj init' = decodeBool name obj init := by
  rw [decodeBool_eq] at hok ⊢
  exact decodeMember_present hv hok init'

theorem decodeString_present {name : String} {obj v : Json} (hv : obj.member name = some v)
    {init : List UInt8} (hok : (decodeString name obj init).2 = none) (init' : List UInt8) :
    decodeString name obj init' = decodeString name obj init := by
  rw [decodeString_eq] at hok ⊢
  exact decodeMember_present hv hok init'

/-- Where `Decode` of a structure returns, it goes through the object. -/
theorem FieldType.decode_element {s : Struct} {name : String} {obj v : Json}
    (hv : obj.member name = some v) {init : s.Val}
    (hok : ((FieldType.element s).decode new name obj init).2 = none) (init' : s.Val) :
    (FieldType.element s).decode new name obj init' = s.acceptDecode new v init' := by
  simp only [FieldType.decode] at hok ⊢
  rw [hv] at hok ⊢
  cases v with
  | object members => rfl
  | null | bool b | number n | double d | string bytes | array vs => cases hok

/-- The two halves of `Accept` where it returns. -/
theorem Struct.acceptDecode_ok {name : String} {t : FieldType} {rest : Struct} {obj : Json}
    {init : t.Val} {inits : rest.Val}
    (hok : ((Struct.field name t rest).acceptDecode new obj (init, inits)).2 = none) :
    (t.decode new name obj init).2 = none ∧ (rest.acceptDecode new obj inits).2 = none ∧
      ((Struct.field name t rest).acceptDecode new obj (init, inits)).1 =
        ((t.decode new name obj init).1, (rest.acceptDecode new obj inits).1) := by
  revert hok
  simp only [Struct.acceptDecode]
  rcases t.decode new name obj init with ⟨element, _ | stop⟩
  · exact fun hok => ⟨rfl, hok, rfl⟩
  · intro hok
    cases hok

/-! ## Documents without vectors -/

mutual

theorem FieldType.decode_agree {name : String} {obj v : Json} (hv : obj.member name = some v) :
    (t : FieldType) → t.NoVector v → (x x' : t.Val) → (t.decode new name obj x).2 = none →
      (t.decode new name obj x').2 = none →
        t.Agree v (t.decode new name obj x).1 (t.decode new name obj x').1
  | .bool, _, _, x', hx, _ => (congrArg Prod.fst (decodeBool_present hv hx x')).symm
  | .int t, _, _, x', hx, _ => (congrArg Prod.fst (t.decode_present hv hx x')).symm
  | .string, _, _, x', hx, _ => (congrArg Prod.fst (decodeString_present hv hx x')).symm
  | .element s, hno, x, x', hx, hx' => by
    have hdecode := FieldType.decode_element hv hx
    rw [hdecode x] at hx
    rw [hdecode x'] at hx'
    rw [hdecode x, hdecode x']
    exact s.acceptDecode_agree hno x x' hx hx'

/-- Two values into which one document is read agree on what it sets. -/
theorem Struct.acceptDecode_agree {obj : Json} :
    (s : Struct) → s.NoVector obj → (x x' : s.Val) → (s.acceptDecode new obj x).2 = none →
      (s.acceptDecode new obj x').2 = none →
        s.Agree obj (s.acceptDecode new obj x).1 (s.acceptDecode new obj x').1
  | .nil, _, _, _, _, _ => True.intro
  | .field name t rest, hno, (x, xs), (x', xs'), hx, hx' => by
    obtain ⟨ht, hrest, hy⟩ := Struct.acceptDecode_ok hx
    obtain ⟨ht', hrest', hy'⟩ := Struct.acceptDecode_ok hx'
    rw [hy, hy']
    exact ⟨fun v hv => t.decode_agree hv (hno.1 v hv) x x' ht ht',
      rest.acceptDecode_agree hno.2 xs xs' hrest hrest'⟩

end

mutual

theorem FieldType.decode_keeps {name : String} {obj v : Json} (hv : obj.member name = some v) :
    (t : FieldType) → (x : t.Val) → (t.decode new name obj x).2 = none →
      t.Keeps v x (t.decode new name obj x).1
  | .bool, _, _ | .int _, _, _ | .string, _, _ | .vector _, _, _ => True.intro
  | .element s, x, hx => by
    have hdecode := FieldType.decode_element hv hx
    rw [hdecode x] at hx ⊢
    exact s.acceptDecode_keeps x hx

/-- What the document does not have is left alone. -/
theorem Struct.acceptDecode_keeps {obj : Json} :
    (s : Struct) → (x : s.Val) → (s.acceptDecode new obj x).2 = none →
      s.Keeps obj x (s.acceptDecode new obj x).1
  | .nil, _, _ => True.intro
  | .field name t rest, (x, xs), hx => by
    obtain ⟨ht, hrest, hy⟩ := Struct.acceptDecode_ok hx
    rw [hy]
    refine ⟨fun hv => congrArg Prod.fst (t.decode_absent hv x), fun v hv => ?_, ?_⟩
    · exact t.decode_keeps hv x ht
    · exact rest.acceptDecode_keeps xs hrest

end

mutual

theorem FieldType.decode_again {name : String} {obj v : Json} (hv : obj.member name = some v) :
    (t : FieldType) → t.NoVector v → (x : t.Val) → (t.decode new name obj x).2 = none →
      t.decode new name obj (t.decode new name obj x).1 = ((t.decode new name obj x).1, none)
  | .bool, _, x, hx => (decodeBool_present hv hx _).trans (Prod.ext rfl hx)
  | .int t, _, x, hx => (t.decode_present hv hx _).trans (Prod.ext rfl hx)
  | .string, _, x, hx => (decodeString_present hv hx _).trans (Prod.ext rfl hx)
  | .element s, hno, x, hx => by
    have hdecode := FieldType.decode_element hv hx
    rw [hdecode x] at hx ⊢
    rw [hdecode]
    exact s.acceptDecode_again hno x hx

/-- Reading the document a second time changes nothing. -/
theorem Struct.acceptDecode_again {obj : Json} :
    (s : Struct) → s.NoVector obj → (x : s.Val) → (s.acceptDecode new obj x).2 = none →
      s.acceptDecode new obj (s.acceptDecode new obj x).1 = ((s.acceptDecode new obj x).1, none)
  | .nil, _, _, _ => rfl
  | .field name t rest, hno, (x, xs), hx => by
    obtain ⟨ht, hrest, hy⟩ := Struct.acceptDecode_ok hx
    have hfield : t.decode new name obj (t.decode new name obj x).1 =
        ((t.decode new name obj x).1, none) := by
      cases hv : obj.member name with
      | none => exact t.decode_absent hv _
      | some v => exact t.decode_again hv (hno.1 v hv) x ht
    rw [hy]
    simp only [Struct.acceptDecode]
    rw [hfield, rest.acceptDecode_again hno.2 xs hrest]

end

/-! ## Documents with a vector -/

/-- The loop does not look at the elements that are there. -/
theorem decodeElements_append {α : Type} (setT : Json → Except Stop α) (vs : List Json)
    (xs ys : List α) : decodeElements setT vs (xs ++ ys) =
      (xs ++ (decodeElements setT vs ys).1, (decodeElements setT vs ys).2) := by
  induction vs generalizing ys with
  | nil => rfl
  | cons v vs ih =>
    simp only [decodeElements]
    cases setT v with
    | ok t => exact (congrArg _ (List.append_assoc xs ys [t])).trans (ih (ys ++ [t]))
    | error stop => rfl

/-- With one element more before, there is one more after. -/
theorem decodeElements_differ {α : Type} (setT : Json → Except Stop α) (vs : List Json)
    (xs : List α) (x : α) :
    (decodeElements setT vs xs).1 ≠ (decodeElements setT vs (xs ++ [x])).1 := by
  have h := decodeElements_append setT vs xs []
  rw [List.append_nil] at h
  have h' := decodeElements_append setT vs (xs ++ [x]) []
  rw [List.append_nil] at h'
  rw [h, h', List.append_assoc]
  intro heq
  have hlength := congrArg List.length (List.append_cancel_left heq)
  rw [List.length_append, List.length_singleton] at hlength
  exact absurd hlength (Nat.ne_of_lt (Nat.lt_add_of_pos_left Nat.one_pos))

/-- A value for an element of a vector. -/
def ElementType.zero : (t : ElementType) → t.Val
  | .bool => false
  | .int t => t.ofInt64 0
  | .double => (0 : Float)
  | .string => []
  | .element s => s.zero

mutual

theorem FieldType.decode_differ {name : String} {obj v : Json} (hv : obj.member name = some v) :
    (t : FieldType) → ¬ t.NoVector v → (x : t.Val) → (t.decode new name obj x).2 = none →
      ∃ x', ¬ t.Agree v (t.decode new name obj x).1 (t.decode new name obj x').1
  | .bool, hvec, _, _ => absurd True.intro hvec
  | .int _, hvec, _, _ => absurd True.intro hvec
  | .string, hvec, _, _ => absurd True.intro hvec
  | .vector t, _, x, hx => by
    have hx : (decodeVector (t.setT new) name obj x).2 = none := hx
    refine ⟨List.append x [t.zero], ?_⟩
    show (decodeVector (t.setT new) name obj x).1 ≠
      (decodeVector (t.setT new) name obj (List.append x [t.zero])).1
    unfold decodeVector at hx ⊢
    rw [hv] at hx ⊢
    cases v with
    | array vs => exact decodeElements_differ (t.setT new) vs x t.zero
    | null | bool b | number n | double d | string bytes | object members => cases hx
  | .element s, hvec, x, hx => by
    have hdecode := FieldType.decode_element hv hx
    rw [hdecode x] at hx
    obtain ⟨x', hx'⟩ := s.acceptDecode_differ hvec x hx
    refine ⟨x', ?_⟩
    rw [hdecode x, hdecode x']
    exact hx'

/-- What a document with a vector sets depends on the value before. -/
theorem Struct.acceptDecode_differ {obj : Json} :
    (s : Struct) → ¬ s.NoVector obj → (x : s.Val) → (s.acceptDecode new obj x).2 = none →
      ∃ x', ¬ s.Agree obj (s.acceptDecode new obj x).1 (s.acceptDecode new obj x').1
  | .nil, hvec, _, _ => absurd True.intro hvec
  | .field name t rest, hvec, (x, xs), hx => by
    obtain ⟨ht, hrest, hy⟩ := Struct.acceptDecode_ok hx
    -- another value before does not bring an error about
    have hok : ∀ x', ((Struct.field name t rest).acceptDecode new obj x').2 = none := fun x' =>
      (Struct.acceptDecode_none_iff _ obj x').mpr ((Struct.acceptDecode_none_iff _ obj _).mp hx)
    by_cases hfield : ∀ v, obj.member name = some v → t.NoVector v
    · have hvec' : ¬ rest.NoVector obj := fun hrest => hvec ⟨hfield, hrest⟩
      obtain ⟨xs', hxs'⟩ := rest.acceptDecode_differ hvec' xs hrest
      refine ⟨(x, xs'), ?_⟩
      rw [hy, (Struct.acceptDecode_ok (hok (x, xs'))).2.2]
      exact fun h => hxs' h.2
    · obtain ⟨v, hv⟩ := Classical.not_forall.mp hfield
      obtain ⟨hv, hvec'⟩ := Classical.not_imp.mp hv
      obtain ⟨x', hx'⟩ := t.decode_differ hv hvec' x ht
      refine ⟨(x', xs), ?_⟩
      rw [hy, (Struct.acceptDecode_ok (hok (x', xs))).2.2]
      exact fun h => hx' (h.1 v hv)

end

/-! ## Every text -/

variable (new)

/-- If `UnSerializeJson` into `x` reports no error, then what the document sets is the same for
every other value before, what it does not have is that of `x`, and a second time changes
nothing. -/
def ReloadLaw (lib : Rapidjson) (s : Struct) (x : s.Val) (input : List UInt8) : Prop :=
  ∀ y, unSerializeJson new lib s x input = some ("", y) →
    ∀ document, lib.parse (cString input) = some document →
      (∀ x' y', unSerializeJson new lib s x' input = some ("", y') → s.Agree document y y') ∧
        s.Keeps document x y ∧ unSerializeJson new lib s y input = some ("", y)

variable {new}

/-- No error is reported where `Accept` returns. -/
theorem unSerializeJson_ok_iff {lib : Rapidjson} {s : Struct} {x y : s.Val} {input : List UInt8}
    {document : Json} (hparse : lib.parse (cString input) = some document) :
    unSerializeJson new lib s x input = some ("", y) ↔
      s.acceptDecode new document x = (y, none) := by
  unfold unSerializeJson
  simp only [hparse]
  rcases h : s.acceptDecode new document x with ⟨element, _ | err | _⟩
  · simp
  · have herr := s.accept_error x (congrArg Prod.snd h)
    simp [herr]
  · simp

/-- The law holds for a text exactly if it does not parse, or its document has a mismatch that the
visitor stops at, or sets no vector. -/
theorem reloadLaw_iff (lib : Rapidjson) (s : Struct) (x : s.Val) (input : List UInt8) :
    ReloadLaw new lib s x input ↔
      ∀ document, lib.parse (cString input) = some document →
        firstFault (s.faults document) ≠ none ∨ s.NoVector document := by
  constructor
  · intro h document hparse
    by_cases hfault : firstFault (s.faults document) = none
    · right
      by_contra hvec
      have hok := fun x => (@Struct.acceptDecode_none_iff new s document x).mpr hfault
      have hread : ∀ x, unSerializeJson new lib s x input =
          some ("", (s.acceptDecode new document x).1) := fun x =>
        (unSerializeJson_ok_iff hparse).mpr (Prod.ext rfl (hok x))
      obtain ⟨x', hx'⟩ := s.acceptDecode_differ hvec x (hok x)
      exact hx' ((h _ (hread x) document hparse).1 x' _ (hread x'))
    · exact .inl hfault
  · intro h y hy document hparse
    have hx := (unSerializeJson_ok_iff hparse).mp hy
    have hok : (s.acceptDecode new document x).2 = none := congrArg Prod.snd hx
    obtain rfl : (s.acceptDecode new document x).1 = y := congrArg Prod.fst hx
    rcases h document hparse with hfault | hno
    · exact absurd ((Struct.acceptDecode_none_iff s document x).mp hok) hfault
    · refine ⟨fun x' y' hy' => ?_, s.acceptDecode_keeps x hok, ?_⟩
      · have hx' := (unSerializeJson_ok_iff hparse).mp hy'
        obtain rfl : (s.acceptDecode new document x').1 = y' := congrArg Prod.fst hx'
        exact s.acceptDecode_agree hno x x' hok (congrArg Prod.snd hx')
      · exact (unSerializeJson_ok_iff hparse).mpr (s.acceptDecode_again hno x hok)

end

def intsOnly : Struct := .field "ints" (.vector (.int .int32)) .nil

def intsText : Bytes := bytes "\x7b\"ints\":[1]\x7d"

def intsLib : Rapidjson := .ofText (.object [("ints", .array [.number 1])]) intsText

/-- The second time there are two elements. -/
theorem vector_grows :
    unSerializeJson Struct.zero intsLib intsOnly (Struct.zero intsOnly) intsText =
        some ("", ([(1 : Int32)], ())) ∧
      unSerializeJson Struct.zero intsLib intsOnly ([(1 : Int32)], ()) intsText =
        some ("", ([(1 : Int32), (1 : Int32)], ())) ∧
      ¬ ReloadLaw Struct.zero intsLib intsOnly (Struct.zero intsOnly) intsText := by
  have hread : unSerializeJson Struct.zero intsLib intsOnly (Struct.zero intsOnly) intsText =
      some ("", ([(1 : Int32)], ())) := rfl
  have hagain : unSerializeJson Struct.zero intsLib intsOnly ([(1 : Int32)], ()) intsText =
      some ("", ([(1 : Int32), (1 : Int32)], ())) := rfl
  refine ⟨hread, hagain, fun h => ?_⟩
  have hsame := hagain.symm.trans (h _ hread _ rfl).2.2
  have hlength : 2 = 1 := congrArg (fun r => (r.map fun y => y.2.1.length).getD 0) hsame
  exact absurd hlength (by decide)

end Sheep
