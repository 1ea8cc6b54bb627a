import Sheep.Lib.Bytes

/-!
# The framing of an HTTP/1.1 request

How the bytes of a connection are cut into requests: the request line up to the first CRLF, the
header lines up to the empty line, and as many bytes of a body as `Content-Length` says. Several
fields of that name have to agree.

`readRequest_lines`: a text that is put together from lines is cut at these lines, and the body is
what `bodyLength` makes of the headers.
-/

namespace Sheep

structure HttpRequest where
  method : Bytes
  target : Bytes
  headers : List (Bytes × Bytes)
  body : Bytes
  /-- what is left for the next request -/
  rest : Bytes
  deriving DecidableEq

namespace HttpRequest

def crlf : Bytes := bytes "\r\n"

/-! ## Reading -/

/-- The first line, and what is behind its CRLF. -/
def readLine : Bytes → Option (Bytes × Bytes)
  | [] => none
  | ch :: rest =>
    if ch = '\r'.toUInt8 ∧ rest.head? = some '\n'.toUInt8 then some ([], rest.tail)
    else (readLine rest).map fun (line, behind) => (ch :: line, behind)

/-- The header lines up to the empty line, and what is behind it. One space after the colon does not
belong to the value. -/
def readHeaders : Nat → Bytes → Option (List (Bytes × Bytes) × Bytes)
  | 0, _ => none
  | fuel + 1, text =>
    (readLine text).bind fun (line, rest) =>
      if line = [] then some ([], rest)
      else
        (splitFirst ':'.toUInt8 line).bind fun (name, value) =>
          let value := if value.head? = some ' '.toUInt8 then value.tail else value
          (readHeaders fuel rest).map fun (headers, behind) => ((name, value) :: headers, behind)

/-- Field names have no case. -/
def isContentLength (name : Bytes) : Bool := name.map tolower = bytes "content-length"

def isBlank (ch : UInt8) : Bool := ch = ' '.toUInt8 || ch = '\t'.toUInt8

/-- The number that a field value denotes, without the blanks around it. -/
def fieldNumber (value : Bytes) : Option Nat :=
  decimal ((value.dropWhile isBlank).reverse.dropWhile isBlank).reverse

/-- The length of the body: 0 without the field, `none` if the fields are no number or differ. -/
def bodyLength (headers : List (Bytes × Bytes)) : Option Nat :=
  match (headers.filter fun h => isContentLength h.1).map fun h => fieldNumber h.2 with
  | [] => some 0
  | n :: more => if more.all (· = n) then n else none

/-- The first request of a text, if it is complete. -/
def read (text : Bytes) : Option HttpRequest :=
  (readLine text).bind fun (line, rest) =>
    (splitFirst ' '.toUInt8 line).bind fun (method, line) =>
      (splitFirst ' '.toUInt8 line).bind fun (target, _) =>
        (readHeaders (rest.length + 1) rest).bind fun (headers, rest) =>
          (bodyLength headers).bind fun n =>
            if n ≤ rest.length then some ⟨method, target, headers, rest.take n, rest.drop n⟩
            else none

/-! ## Reading what is put together from lines -/

theorem readLine_append {line : Bytes} (h : '\r'.toUInt8 ∉ line) (rest : Bytes) :
    readLine (line ++ (crlf ++ rest)) = some (line, rest) := by
  induction line with
  | nil => exact if_pos ⟨rfl, rfl⟩
  | cons ch line ih =>
    have hne : ch ≠ '\r'.toUInt8 := fun heq => h (heq ▸ List.mem_cons_self)
    have ih' := ih fun hmem => h (List.mem_cons_of_mem ch hmem)
    rw [List.cons_append, readLine, if_neg fun hcr => hne hcr.1, ih']
    rfl

/-- A header that can be told from its line. -/
structure FieldOk (header : Bytes × Bytes) : Prop where
  name : '\r'.toUInt8 ∉ header.1
  colon : ':'.toUInt8 ∉ header.1
  value : '\r'.toUInt8 ∉ header.2

def fieldLine (header : Bytes × Bytes) : Bytes := header.1 ++ bytes ": " ++ header.2 ++ crlf

theorem readHeaders_lines {headers : List (Bytes × Bytes)} (h : ∀ x ∈ headers, FieldOk x)
    (rest : Bytes) {fuel : Nat} (hfuel : headers.length < fuel) :
    readHeaders fuel (headers.flatMap fieldLine ++ (crlf ++ rest)) = some (headers, rest) := by
  induction headers generalizing fuel with
  | nil =>
    cases fuel with
    | zero => exact absurd hfuel (Nat.not_lt_zero _)
    | succ fuel => rfl
  | cons header headers ih =>
    cases fuel with
    | zero => exact absurd hfuel (Nat.not_lt_zero _)
    | succ fuel =>
      obtain ⟨name, value⟩ := header
      obtain ⟨hname, hcolon, hvalue⟩ := h _ List.mem_cons_self
      have ih' := ih (fun x hx => h x (List.mem_cons_of_mem _ hx)) (Nat.lt_of_succ_lt_succ hfuel)
      have hline : '\r'.toUInt8 ∉ name ++ ':'.toUInt8 :: ' '.toUInt8 :: value := by
        rw [List.mem_append, List.mem_cons, List.mem_cons]
        rintro (hmem | hmem | hmem | hmem)
        · exact hname hmem
        · exact absurd hmem (by decide)
        · exact absurd hmem (by decide)
        · exact hvalue hmem
      have htext : ((name, value) :: headers).flatMap fieldLine ++ (crlf ++ rest) =
          (name ++ ':'.toUInt8 :: ' '.toUInt8 :: value) ++
            (crlf ++ (headers.flatMap fieldLine ++ (crlf ++ rest))) := by
        simp [fieldLine, bytes]
      have hne : name ++ ':'.toUInt8 :: ' '.toUInt8 :: value ≠ [] := by simp
      rw [htext, readHeaders, readLine_append hline]
      simp only [Option.bind_some, if_neg hne, splitFirst_append hcolon, List.head?_cons,
        ↓reduceIte, List.tail_cons, ih', Option.map_some]

theorem length_le_fieldLines (headers : List (Bytes × Bytes)) :
    headers.length ≤ (headers.flatMap fieldLine).length := by
  induction headers with
  | nil => exact Nat.le_refl 0
  | cons header headers ih =>
    have hline : 1 ≤ (fieldLine header).length := by
      unfold fieldLine
      rw [List.length_append]
      exact Nat.le_add_left_of_le (by decide)
    rw [List.flatMap_cons, List.length_append, List.length_cons, Nat.add_comm]
    exact Nat.add_le_add hline ih

/-- The lines of a request are read as they were put together. -/
theorem read_lines {method target version : Bytes} {headers : List (Bytes × Bytes)}
    (hmethod : ' '.toUInt8 ∉ method) (htarget : ' '.toUInt8 ∉ target)
    (hline : '\r'.toUInt8 ∉ method ++ ' '.toUInt8 :: (target ++ ' '.toUInt8 :: version))
    (hheaders : ∀ x ∈ headers, FieldOk x) (behind : Bytes) :
    read (method ++ ' '.toUInt8 :: (target ++ ' '.toUInt8 :: version) ++
        (crlf ++ (headers.flatMap fieldLine ++ (crlf ++ behind)))) =
      (bodyLength headers).bind fun n =>
        if n ≤ behind.length then some ⟨method, target, headers, behind.take n, behind.drop n⟩
        else none := by
  have hfuel : headers.length <
      (headers.flatMap fieldLine ++ (crlf ++ behind)).length + 1 := by
    rw [List.length_append]
    exact Nat.lt_succ_of_le (Nat.le_add_right_of_le (length_le_fieldLines headers))
  unfold read
  rw [readLine_append hline]
  simp only [Option.bind_some, splitFirst_append hmethod, splitFirst_append htarget,
    readHeaders_lines hheaders behind hfuel]

/-! ## The length of the body -/

/-- With a field `Content-Length`, the length is `n` exactly when every such field says so. -/
theorem bodyLength_iff {headers : List (Bytes × Bytes)} {n : Nat}
    (hfield : ∃ h ∈ headers, isContentLength h.1 = true) :
    bodyLength headers = some n ↔
      ∀ h ∈ headers, isContentLength h.1 = true → fieldNumber h.2 = some n := by
  have hall : (∀ h ∈ headers, isContentLength h.1 = true → fieldNumber h.2 = some n) ↔
      ∀ number ∈ (headers.filter fun h => isContentLength h.1).map fun h => fieldNumber h.2,
        number = some n := by
    simp only [List.forall_mem_map, List.mem_filter, and_imp]
  obtain ⟨h, hmem, hname⟩ := hfield
  have hne : fieldNumber h.2 ∈
      (headers.filter fun h => isContentLength h.1).map fun h => fieldNumber h.2 :=
    List.mem_map_of_mem (List.mem_filter.mpr ⟨hmem, hname⟩)
  rw [hall, bodyLength]
  revert hne
  generalize (headers.filter fun h => isContentLength h.1).map (fun h => fieldNumber h.2) = numbers
  intro hne
  cases numbers with
  | nil => exact absurd hne List.not_mem_nil
  | cons first more =>
    simp only [Option.ite_none_right_eq_some, List.all_eq_true, decide_eq_true_eq,
      List.forall_mem_cons]
    constructor
    · rintro ⟨hmore, rfl⟩
      exact ⟨rfl, hmore⟩
    · rintro ⟨rfl, hmore⟩
      exact ⟨hmore, rfl⟩

end HttpRequest

end Sheep
