import Sheep.Http.ReqFormater
import Sheep.Lib.HttpFraming

/-!
# The framing of a formatted request

A `PUT` or `POST` request of `ReqFormater`, as a server cuts it out of the connection. `Format`
files the length of the body with `Map::Set`, which leaves a header alone that is there already.

`Framed`: the server reads the method, the target, the headers of the map and the body, and nothing
is left. `framed_iff`: it does exactly when each `Content-Length` of the header map, in any case,
is the length of the body.
-/

namespace Sheep

namespace ReqFormater

/-- The request is read as it was meant. -/
def Framed (f : ReqFormater) : Prop :=
  ∃ headers, HttpRequest.read f.format.result = some
      ⟨f.method, f.target ++ queryText f.queryStrings.entries, headers, f.body, []⟩ ∧
    ∀ header ∈ f.headers.entries, header ∈ headers

/-- The lengths that the header map declares are right. -/
def LengthsRight (f : ReqFormater) : Prop :=
  ∀ header ∈ f.headers.entries, HttpRequest.isContentLength header.1 = true →
    HttpRequest.fieldNumber header.2 = some f.body.length

/-- Text without a space or a line end. -/
def OneWord (text : Bytes) : Prop :=
  ' '.toUInt8 ∉ text ∧ '\r'.toUInt8 ∉ text ∧ '\n'.toUInt8 ∉ text

instance (text : Bytes) : Decidable (OneWord text) := inferInstanceAs (Decidable (_ ∧ _))

/-- A header whose name and value have no line end, and whose name has no colon. -/
def HeaderOk (header : Bytes × Bytes) : Prop :=
  ('\r'.toUInt8 ∉ header.1 ∧ '\n'.toUInt8 ∉ header.1 ∧ ':'.toUInt8 ∉ header.1) ∧
    '\r'.toUInt8 ∉ header.2 ∧ '\n'.toUInt8 ∉ header.2

instance (header : Bytes × Bytes) : Decidable (HeaderOk header) :=
  inferInstanceAs (Decidable (_ ∧ _))

/-! ## The headers that are sent -/

theorem mem_hostHeaders {f : ReqFormater} {header : Bytes × Bytes}
    (h : header ∈ f.hostHeaders.entries) :
    header ∈ f.headers.entries ∨ header = (hostField, f.host) := by
  unfold hostHeaders at h
  split at h
  next => exact (OrderedMap.mem_of_mem_insertEntry h).symm
  next => exact .inl h

theorem mem_sentHeaders {f : ReqFormater} {header : Bytes × Bytes}
    (h : header ∈ f.sentHeaders.entries) :
    header ∈ f.headers.entries ∨ header = (hostField, f.host) ∨
      header = (contentLength, bytes (toString f.body.length)) := by
  unfold sentHeaders at h
  split at h
  next =>
    rcases OrderedMap.mem_of_mem_insertEntry h with h | h
    · exact .inr (.inr h)
    · exact (mem_hostHeaders h).imp_right .inl
  next => exact (mem_hostHeaders h).imp_right .inl

theorem mem_sentHeaders_of_mem {f : ReqFormater} {header : Bytes × Bytes}
    (h : header ∈ f.headers.entries) : header ∈ f.sentHeaders.entries := by
  have hhost : header ∈ f.hostHeaders.entries := by
    unfold hostHeaders
    split
    next => exact OrderedMap.mem_insert_of_mem h
    next => exact h
  unfold sentHeaders
  split
  next => exact OrderedMap.mem_insert_of_mem hhost
  next => exact hhost

theorem contentLength_mem_sentHeaders {f : ReqFormater} (hbody : f.hasBody = true) :
    ∃ value, (contentLength, value) ∈ f.sentHeaders.entries := by
  unfold sentHeaders
  rw [if_pos hbody]
  exact OrderedMap.exists_mem_insert _ _ _

theorem fieldOk_host {host : Bytes} (h : '\r'.toUInt8 ∉ host) :
    HttpRequest.FieldOk (hostField, host) :=
  ⟨(by decide : '\r'.toUInt8 ∉ hostField), (by decide : ':'.toUInt8 ∉ hostField), h⟩

theorem fieldOk_contentLength (n : Nat) :
    HttpRequest.FieldOk (contentLength, bytes (toString n)) := by
  refine ⟨(by decide : '\r'.toUInt8 ∉ contentLength), (by decide : ':'.toUInt8 ∉ contentLength),
    fun hmem => ?_⟩
  exact absurd (isDigit_of_mem_toString hmem) (by decide)

theorem fieldOk_sentHeaders {f : ReqFormater} (hheaders : ∀ x ∈ f.headers.entries, HeaderOk x)
    (hhost : OneWord f.host) : ∀ x ∈ f.sentHeaders.entries, HttpRequest.FieldOk x := by
  intro x hx
  rcases mem_sentHeaders hx with h | rfl | rfl
  · obtain ⟨⟨hcr, -, hcolon⟩, hvalue, -⟩ := hheaders x h
    exact ⟨hcr, hcolon, hvalue⟩
  · exact fieldOk_host hhost.2.1
  · exact fieldOk_contentLength _

theorem dropWhile_digits {text : Bytes} (h : ∀ ch ∈ text, isDigit ch = true) :
    text.dropWhile HttpRequest.isBlank = text := by
  cases text with
  | nil => rfl
  | cons ch rest =>
    have hblank : HttpRequest.isBlank ch = false :=
      forall_byte (p := fun ch => isDigit ch = true → HttpRequest.isBlank ch = false)
        (by decide +kernel) ch (h ch List.mem_cons_self)
    rw [List.dropWhile_cons, hblank]
    rfl

/-- The value that `Format` writes. -/
theorem fieldNumber_toString (n : Nat) :
    HttpRequest.fieldNumber (bytes (toString n)) = some n := by
  unfold HttpRequest.fieldNumber
  rw [dropWhile_digits fun ch hch => isDigit_of_mem_toString hch,
    dropWhile_digits fun ch hch => isDigit_of_mem_toString (List.mem_reverse.mp hch),
    List.reverse_reverse, decimal_toString]

theorem isContentLength_contentLength : HttpRequest.isContentLength contentLength = true := by
  decide

theorem isContentLength_host : HttpRequest.isContentLength hostField = false := by decide

/-- The declared lengths are those of the header map and the one of `Format`. -/
theorem bodyLength_sentHeaders {f : ReqFormater} (hbody : f.hasBody = true) :
    HttpRequest.bodyLength f.sentHeaders.entries = some f.body.length ↔ f.LengthsRight := by
  obtain ⟨value, hvalue⟩ := contentLength_mem_sentHeaders hbody
  rw [HttpRequest.bodyLength_iff ⟨_, hvalue, isContentLength_contentLength⟩]
  constructor
  · intro h header hmem
    exact h header (mem_sentHeaders_of_mem hmem)
  · intro h header hmem hname
    rcases mem_sentHeaders hmem with hmem | rfl | rfl
    · exact h header hmem hname
    · exact absurd hname (Bool.eq_false_iff.mp isContentLength_host)
    · exact fieldNumber_toString _

/-! ## The request -/

/-- What a server makes of the request. -/
theorem read_format {f : ReqFormater} (hbody : f.hasBody = true) (htarget : OneWord f.target)
    (hhost : OneWord f.host) (hheaders : ∀ x ∈ f.headers.entries, HeaderOk x) :
    HttpRequest.read f.format.result =
      (HttpRequest.bodyLength f.sentHeaders.entries).bind fun n =>
        if n ≤ f.body.length then some ⟨f.method, f.target ++ queryText f.queryStrings.entries,
          f.sentHeaders.entries, f.body.take n, f.body.drop n⟩
        else none := by
  have hmethod : ' '.toUInt8 ∉ f.method ∧ '\r'.toUInt8 ∉ f.method := by
    rcases Bool.or_eq_true_iff.mp hbody with h | h
    · rw [of_decide_eq_true h]
      decide
    · rw [of_decide_eq_true h]
      decide
  have hspace : ' '.toUInt8 ∉ f.target ++ queryText f.queryStrings.entries := by
    rw [List.mem_append, not_or]
    exact ⟨htarget.1, not_mem_queryText (by decide) (by decide) (by decide) (by decide) _⟩
  have hcr : '\r'.toUInt8 ∉ f.target ++ queryText f.queryStrings.entries := by
    rw [List.mem_append, not_or]
    exact ⟨htarget.2.1, not_mem_queryText (by decide) (by decide) (by decide) (by decide) _⟩
  have htext : f.format.result =
      f.method ++ ' '.toUInt8 :: ((f.target ++ queryText f.queryStrings.entries) ++
          ' '.toUInt8 :: bytes "HTTP/1.1") ++
        (HttpRequest.crlf ++ (f.sentHeaders.entries.flatMap HttpRequest.fieldLine ++
          (HttpRequest.crlf ++ f.body))) := by
    rw [format_result, format_target, if_pos hbody]
    have hline : headerLine = HttpRequest.fieldLine := rfl
    have hlr : lr = HttpRequest.crlf := rfl
    have hhttp : bytes " HTTP/1.1" = ' '.toUInt8 :: bytes "HTTP/1.1" := rfl
    have hblank : bytes " " = [' '.toUInt8] := rfl
    simp only [hline, hlr, hhttp, hblank, List.append_assoc, List.cons_append, List.nil_append]
  rw [htext]
  refine HttpRequest.read_lines hmethod.1 hspace ?_ (fieldOk_sentHeaders hheaders hhost) f.body
  rw [List.mem_append, List.mem_cons, List.mem_append, List.mem_cons]
  rintro (h | h | h | h | h)
  · exact hmethod.2 h
  · exact absurd h (by decide)
  · exact hcr h
  · exact absurd h (by decide)
  · exact absurd h (by decide)

/-- A `PUT` or `POST` request is read as it was meant exactly when no header of the map declares
another length. -/
theorem framed_iff (f : ReqFormater) (hmethod : f.method = methodPUT ∨ f.method = methodPOST)
    (htarget : OneWord f.target) (hhost : OneWord f.host)
    (hheaders : ∀ x ∈ f.headers.entries, HeaderOk x) : f.Framed ↔ f.LengthsRight := by
  have hbody : f.hasBody = true := by
    unfold hasBody
    rw [Bool.or_eq_true, decide_eq_true_eq, decide_eq_true_eq]
    exact hmethod
  rw [← bodyLength_sentHeaders hbody, Framed, read_format hbody htarget hhost hheaders]
  constructor
  · rintro ⟨headers, hread, -⟩
    obtain ⟨n, hn, hread⟩ := Option.bind_eq_some_iff.mp hread
    obtain ⟨hle, hread⟩ := Option.ite_none_right_eq_some.mp hread
    simp only [Option.some.injEq, HttpRequest.mk.injEq] at hread
    -- nothing is left of the body, so it has the declared length
    have hrest : f.body.length ≤ n := List.drop_eq_nil_iff.mp hread.2.2.2.2
    rw [hn, Nat.le_antisymm hle hrest]
  · intro hn
    refine ⟨f.sentHeaders.entries, ?_, fun header hmem => mem_sentHeaders_of_mem hmem⟩
    rw [hn, Option.bind_some, if_pos (Nat.le_refl _), List.take_length, List.drop_length]

theorem framed_test : testReqFormater.Framed :=
  (framed_iff testReqFormater (.inr rfl) (by decide) (by decide) (by decide)).mpr (by
    have hnone : ∀ header ∈ testReqFormater.headers.entries,
        HttpRequest.isContentLength header.1 = false := by decide
    exact fun header hmem hname => absurd hname (Bool.eq_false_iff.mp (hnone header hmem)))

/-- The header map declares two bytes for a body of three. -/
def shortLength : ReqFormater :=
  (new methodPUT (bytes "/") (bytes "abc")).setHeader
    (OrderedMap.empty.insert (bytes "Content-Length") (bytes "2"))

/-- One byte of the body is left for the next request. -/
theorem shortLength_not_framed :
    shortLength.method = methodPUT ∧ OneWord shortLength.target ∧ OneWord shortLength.host ∧
      (∀ x ∈ shortLength.headers.entries, HeaderOk x) ∧
      (HttpRequest.read shortLength.format.result).map (fun r => (r.body, r.rest)) =
        some (bytes "ab", bytes "c") ∧
      ¬ shortLength.Framed := by
  refine ⟨rfl, by decide, by decide, by decide, by decide, ?_⟩
  rintro ⟨headers, hread, -⟩
  have hrest : (HttpRequest.read shortLength.format.result).map HttpRequest.rest = some [] :=
    congrArg (Option.map HttpRequest.rest) hread
  exact absurd hrest (by decide)

end ReqFormater

end Sheep
