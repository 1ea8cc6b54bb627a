import Sheep.Lib.Bytes

/-!
# `UrlEncode` and `UrlDecode`

The functions of `extends/small_http_parser/urlcode.h`, in the C locale. A `char` is signed.

`urlDecode_urlEncode`: a string without a NUL byte comes back. `encoded_urlEncode` says which bytes
the encoded text is made of, so it has none of the separators of a query string.
-/

namespace Sheep

/-! ## Characters -/

/-- `isalnum` in the C locale. -/
def isalnum (ch : UInt8) : Bool := isalpha ch || isDigit ch

/-- The characters that `url_encode` leaves as they are. -/
def unreserved (ch : UInt8) : Bool :=
  isalnum ch || ch = '-'.toUInt8 || ch = '_'.toUInt8 || ch = '.'.toUInt8 || ch = '~'.toUInt8

def isxdigit (ch : UInt8) : Bool := isDigit ch || 97 ≤ ch && ch ≤ 102 || 65 ≤ ch && ch ≤ 70

/-! ## The functions -/

def fromHex (ch : UInt8) : Int8 :=
  if isDigit ch then ch.toInt8 - 48 else (tolower ch).toInt8 - 97 + 10

def hex : Bytes := bytes "0123456789abcdef"

def toHex (code : Int8) : UInt8 := hex.getD (code &&& 15).toUInt8.toNat 0

/-- What `url_encode` writes for a character. The first shift keeps the sign. -/
def encodeChar (ch : UInt8) : Bytes :=
  if unreserved ch then [ch]
  else if ch = ' '.toUInt8 then ['+'.toUInt8]
  else ['%'.toUInt8, toHex (ch.toInt8 >>> 4), toHex (ch.toInt8 &&& 15)]

/-- `url_encode` of a C string. -/
def encodeChars (str : Bytes) : Bytes := str.flatMap encodeChar

/-- `url_decode` of a C string. A `%` with less than two characters behind it is left out. -/
def decodeChars : Bytes → Bytes
  | [] => []
  | ch :: rest =>
    if ch = '%'.toUInt8 then
      match rest with
      | [] => decodeChars []
      | [a] => decodeChars [a]
      | a :: b :: rest => (fromHex a <<< 4 ||| fromHex b).toUInt8 :: decodeChars rest
    else if ch = '+'.toUInt8 then ' '.toUInt8 :: decodeChars rest
    else ch :: decodeChars rest

def urlEncode (str : Bytes) : Bytes := cString (encodeChars (cString str))

def urlDecode (str : Bytes) : Bytes := cString (decodeChars (cString str))

/-! ## Encoded text -/

/-- Unreserved characters, `+` and well formed triples. -/
inductive Encoded : Bytes → Prop
  | nil : Encoded []
  | unreserved {ch : UInt8} {rest : Bytes} :
      unreserved ch = true → Encoded rest → Encoded (ch :: rest)
  | plus {rest : Bytes} : Encoded rest → Encoded ('+'.toUInt8 :: rest)
  | triple {a b : UInt8} {rest : Bytes} :
      isxdigit a = true → isxdigit b = true → Encoded rest →
      Encoded ('%'.toUInt8 :: a :: b :: rest)

/-- The bytes that have a place in encoded text. -/
def urlChar (ch : UInt8) : Bool := unreserved ch || ch = '+'.toUInt8 || ch = '%'.toUInt8

theorem isxdigit_toHex (code : Int8) : isxdigit (toHex code) = true := by
  have h : ∀ ch : UInt8, isxdigit (toHex ch.toInt8) = true := forall_byte (by decide +kernel)
  simpa using h code.toUInt8

theorem urlChar_of_isxdigit {ch : UInt8} (h : isxdigit ch = true) : urlChar ch = true :=
  forall_byte (p := fun ch => isxdigit ch = true → urlChar ch = true) (by decide +kernel) ch h

theorem Encoded.urlChar {text : Bytes} (h : Encoded text) : ∀ ch ∈ text, urlChar ch = true := by
  induction h with
  | nil => exact fun ch hch => absurd hch List.not_mem_nil
  | unreserved hun _ ih =>
    refine List.forall_mem_cons.mpr ⟨?_, ih⟩
    simp only [Sheep.urlChar, hun, Bool.true_or]
  | plus _ ih => exact List.forall_mem_cons.mpr ⟨by decide, ih⟩
  | triple ha hb _ ih =>
    refine List.forall_mem_cons.mpr ⟨by decide, ?_⟩
    exact List.forall_mem_cons.mpr ⟨urlChar_of_isxdigit ha,
      List.forall_mem_cons.mpr ⟨urlChar_of_isxdigit hb, ih⟩⟩

/-- No separator of a query string, no space, no line end and no NUL byte. -/
theorem Encoded.not_mem {text : Bytes} (h : Encoded text) {ch : UInt8}
    (hch : Sheep.urlChar ch = false) : ch ∉ text := fun hmem =>
  Bool.false_ne_true (hch.symm.trans (h.urlChar ch hmem))

theorem encoded_encodeChar (ch : UInt8) {rest : Bytes} (h : Encoded rest) :
    Encoded (encodeChar ch ++ rest) := by
  unfold encodeChar
  split
  next hun => exact .unreserved hun h
  next =>
    split
    next => exact .plus h
    next => exact .triple (isxdigit_toHex _) (isxdigit_toHex _) h

theorem encoded_encodeChars (str : Bytes) : Encoded (encodeChars str) := by
  induction str with
  | nil => exact .nil
  | cons ch rest ih => exact encoded_encodeChar ch ih

/-- Nothing is cut off behind the encoded text. -/
theorem urlEncode_eq (str : Bytes) : urlEncode str = encodeChars (cString str) :=
  cString_eq_self.mpr ((encoded_encodeChars _).not_mem (by decide))

theorem encoded_urlEncode (str : Bytes) : Encoded (urlEncode str) := by
  rw [urlEncode_eq]
  exact encoded_encodeChars _

/-! ## The round trip -/

theorem decodeChars_triple (a b : UInt8) (rest : Bytes) :
    decodeChars ('%'.toUInt8 :: a :: b :: rest) =
      (fromHex a <<< 4 ||| fromHex b).toUInt8 :: decodeChars rest := rfl

theorem decodeChars_cons {ch : UInt8} (hpercent : ch ≠ '%'.toUInt8) (hplus : ch ≠ '+'.toUInt8)
    (rest : Bytes) : decodeChars (ch :: rest) = ch :: decodeChars rest := by
  rw [decodeChars.eq_def]
  simp only [if_neg hpercent, if_neg hplus]

theorem decodeChars_plus (rest : Bytes) :
    decodeChars ('+'.toUInt8 :: rest) = ' '.toUInt8 :: decodeChars rest := by
  rw [decodeChars.eq_def]
  rfl

theorem unreserved_ne (ch : UInt8) :
    unreserved ch = true → ch ≠ '%'.toUInt8 ∧ ch ≠ '+'.toUInt8 :=
  forall_byte (p := fun ch => unreserved ch = true → ch ≠ '%'.toUInt8 ∧ ch ≠ '+'.toUInt8)
    (by decide +kernel) ch

/-- The two digits of a byte, also of a negative `char`. -/
theorem fromHex_toHex (ch : UInt8) :
    (fromHex (toHex (ch.toInt8 >>> 4)) <<< 4 ||| fromHex (toHex (ch.toInt8 &&& 15))).toUInt8 = ch :=
  forall_byte (p := fun ch =>
    (fromHex (toHex (ch.toInt8 >>> 4)) <<< 4 ||| fromHex (toHex (ch.toInt8 &&& 15))).toUInt8 = ch)
    (by decide +kernel) ch

theorem decodeChars_encodeChar (ch : UInt8) (rest : Bytes) :
    decodeChars (encodeChar ch ++ rest) = ch :: decodeChars rest := by
  unfold encodeChar
  split
  next hun =>
    obtain ⟨hpercent, hplus⟩ := unreserved_ne ch hun
    exact decodeChars_cons hpercent hplus rest
  next =>
    split
    next hspace =>
      rw [hspace]
      exact decodeChars_plus rest
    next =>
      show decodeChars ('%'.toUInt8 :: _ :: _ :: rest) = _
      rw [decodeChars_triple, fromHex_toHex]

theorem decodeChars_encodeChars (str : Bytes) : decodeChars (encodeChars str) = str := by
  induction str with
  | nil => rfl
  | cons ch rest ih =>
    show decodeChars (encodeChar ch ++ encodeChars rest) = ch :: rest
    rw [decodeChars_encodeChar, ih]

/-- A string without a NUL byte comes back. -/
theorem urlDecode_urlEncode {str : Bytes} (h : 0 ∉ str) : urlDecode (urlEncode str) = str := by
  have hself : cString str = str := cString_eq_self.mpr h
  have hencoded : cString (encodeChars str) = encodeChars str :=
    cString_eq_self.mpr ((encoded_encodeChars str).not_mem (by decide))
  rw [urlEncode_eq, urlDecode, hself, hencoded, decodeChars_encodeChars, hself]

example : urlEncode (bytes "a b&c") = bytes "a+b%26c" := by decide

end Sheep
