import Sheep.Http.RespParser

/-!
# Complete responses

What `RespParser` makes of a response that is complete: its body ends where its `Content-Length`
says, with its last chunk, or with the connection. `HttpParser.Delimits` says when the library calls
`on_message_complete` for it.

`Fed` is the parser after the first bytes of a response, in terms of those bytes alone, so it does
not depend on the calls of `Feed` that brought them. `Fed.feed` is one more call.
-/

namespace Sheep

/-- What ends the body of a response. -/
inductive Delimiter
  | contentLength
  | chunked
  | close
  deriving DecidableEq, Repr

/-! ## What the callbacks say -/

def bodyPart : Callback → Bytes
  | .span .body c => c
  | .span .headerField _ | .span .headerValue _ | .note _ => []

/-- The body that `on_body` is called for. -/
def bodyOf (cs : List Callback) : Bytes := cs.flatMap bodyPart

/-- The response `response`, which has the body `body`, is complete: `on_message_complete` is called
at its end, and for a body that the connection delimits when the library is told of the end of the
stream. -/
structure HttpParser.Delimits (http : HttpParser) (delimiter : Delimiter)
    (response body : Bytes) : Prop where
  nonempty : response ≠ []
  accepted : http.Accepts response
  body : bodyOf (http.execute http.init response).2 = body
  early : ∀ n < response.length, 0 < n →
    .note .messageComplete ∉ (http.execute http.init (response.take n)).2
  complete : delimiter ≠ .close →
    .note .messageComplete ∈ (http.execute http.init response).2
  closed : delimiter = .close →
    .note .messageComplete ∉ (http.execute http.init response).2 ∧
      .note .messageComplete ∈ (http.execute (http.execute http.init response).1 []).2

/-- `http_parser_execute` does nothing any more once it has found an error. -/
def HttpParser.ErrorsStay (http : HttpParser) : Prop :=
  ∀ p xs, http.httpErrno p ≠ 0 → http.httpErrno (http.execute p xs).1 ≠ 0

/-- The library after its first bytes, with the callbacks that it has made. -/
def HttpParser.after (http : HttpParser) (str : Bytes) : http.State × List Callback :=
  if str = [] then (http.init, []) else http.execute http.init str

/-- `RespParser` after the bytes `popped`. -/
structure Fed {http : HttpParser} (popped : Bytes) (t : RespParser http) : Prop where
  parser : t.parser = (http.after popped).1
  body : t.body = bodyOf (http.after popped).2
  finished : t.finished = true ↔ .note .messageComplete ∈ (http.after popped).2

section

variable {http : HttpParser} {popped str : Bytes} {t : RespParser http}

open RespParser

theorem bodyOf_cons (c : Callback) (cs : List Callback) :
    bodyOf (c :: cs) = bodyPart c ++ bodyOf cs := List.flatMap_cons

theorem foldl_callback_body (cs : List Callback) (t : RespParser http) :
    (cs.foldl callback t).body = t.body ++ bodyOf cs := by
  induction cs generalizing t with
  | nil => simp [bodyOf]
  | cons c cs ih =>
    have hcall : (t.callback c).body = t.body ++ bodyPart c := by
      cases c with
      | span k c => cases k <;> simp [callback, onHeaderField, onHeaderValue, onBody, bodyPart]
      | note n => cases n; simp [callback, onMessageEnd, bodyPart]
    rw [List.foldl_cons, ih, hcall, bodyOf_cons, List.append_assoc]

/-- A body that is cut is the body. -/
theorem Joined.bodyOf {cut : Option SpanKind} {r₁ r₂ r : List Callback} (h : Joined cut r₁ r₂ r) :
    bodyOf r = bodyOf r₁ ++ bodyOf r₂ := by
  cases h with
  | apart => exact List.flatMap_append
  | @cut k xs ys r₁ r₂ => cases k <;> simp [Sheep.bodyOf, bodyPart]

theorem Joined.note_mem {cut : Option SpanKind} {r₁ r₂ r : List Callback} (h : Joined cut r₁ r₂ r)
    (n : Notify) : .note n ∈ r ↔ .note n ∈ r₁ ∨ .note n ∈ r₂ := by
  cases h with
  | apart => exact List.mem_append
  | cut => simp

/-- One more call of the library. -/
theorem HttpParser.after_append (hdoc : http.Documented) (hstr : str ≠ [])
    (hok : http.httpErrno (http.after (popped ++ str)).1 = 0) :
    (http.after (popped ++ str)).1 = (http.execute (http.after popped).1 str).1 ∧
      bodyOf (http.after (popped ++ str)).2 =
        bodyOf (http.after popped).2 ++ bodyOf (http.execute (http.after popped).1 str).2 ∧
      (.note .messageComplete ∈ (http.after (popped ++ str)).2 ↔
        .note .messageComplete ∈ (http.after popped).2 ∨
          .note .messageComplete ∈ (http.execute (http.after popped).1 str).2) := by
  by_cases hpopped : popped = []
  · subst hpopped
    simp [after, hstr, bodyOf]
  · have happ : popped ++ str ≠ [] := by simp [hstr]
    simp only [after, if_neg happ, if_neg hpopped] at hok ⊢
    have hjoined := hdoc.incremental.reports http.init popped str hpopped hstr hok
    exact ⟨hdoc.incremental.state http.init popped str hpopped hstr hok, hjoined.bodyOf,
      hjoined.note_mem .messageComplete⟩

/-- The length of a piece that `RespPop` feeds. -/
theorem fitsInt_of_le {n : Nat} (h : n ≤ 1024) : FitsInt n := by
  unfold FitsInt throughInt
  rw [Int.bmod_eq_of_le (by omega) (by omega)]
  omega

theorem feed_eq (hdoc : http.Documented) (t : RespParser http) (errMsg : String) (str : Bytes)
    (hok : http.httpErrno (http.execute t.parser str).1 = 0) (hfit : FitsInt str.length) :
    t.feed errMsg str = (errMsg, (t.feed errMsg str).2.2.finished, (t.feed errMsg str).2.2) := by
  have hsize : throughInt str.length = str.length := hfit
  simp [feed, hok, hdoc.nparsed _ _ hok, hsize]

theorem Fed.new : Fed [] (RespParser.new http) := by
  refine ⟨rfl, rfl, ?_⟩
  simp [HttpParser.after, RespParser.new]

/-- One more call of `Feed`. -/
theorem Fed.feed (hdoc : http.Documented) (h : Fed popped t) (hstr : str ≠ [])
    (hfit : FitsInt str.length) (hok : http.httpErrno (http.after (popped ++ str)).1 = 0) :
    ∃ t', t.feed "" str = ("", t'.finished, t') ∧ Fed (popped ++ str) t' := by
  obtain ⟨hstate, hbody, hnote⟩ := HttpParser.after_append hdoc hstr hok
  rw [← h.parser] at hstate hbody hnote
  refine ⟨(t.feed "" str).2.2, feed_eq hdoc t "" str (hstate ▸ hok) hfit, ?_⟩
  rw [feed_after]
  refine ⟨hstate.symm, ?_, ?_⟩
  · show (_ : RespParser http).body = _
    rw [hbody, foldl_callback_body, h.body]
  · show (_ : RespParser http).finished = true ↔ _
    rw [hnote, finished_foldl, h.finished]

end

/-! ## The first bytes of a complete response -/

section

variable {http : HttpParser} {delimiter : Delimiter} {response body xs : Bytes}

theorem HttpParser.Delimits.after_eq (h : http.Delimits delimiter response body) :
    http.after response = http.execute http.init response :=
  if_neg h.nonempty

/-- The library finds no error in the first bytes. -/
theorem HttpParser.Delimits.ok (h : http.Delimits delimiter response body)
    (hdoc : http.Documented) (hstay : http.ErrorsStay) (hxs : xs <+: response) :
    http.httpErrno (http.after xs).1 = 0 := by
  obtain ⟨ys, rfl⟩ := hxs
  have hall : http.httpErrno (http.after (xs ++ ys)).1 = 0 := by
    rw [h.after_eq]
    exact h.accepted
  by_cases hys : ys = []
  · rw [hys, List.append_nil] at hall
    exact hall
  · by_contra hbad
    rw [(HttpParser.after_append hdoc hys hall).1] at hall
    exact hstay _ ys hbad hall

/-- The message is complete with all bytes of the response and not before, if the connection does
not delimit it. -/
theorem HttpParser.Delimits.note_iff (h : http.Delimits delimiter response body)
    (hxs : xs <+: response) :
    .note .messageComplete ∈ (http.after xs).2 ↔ xs = response ∧ delimiter ≠ .close := by
  constructor
  · intro hnote
    by_cases hnil : xs = []
    · simp [HttpParser.after, hnil] at hnote
    · have hall : xs = response := by
        by_contra hne
        have hlt : xs.length < response.length :=
          Nat.lt_of_le_of_ne hxs.length_le fun hc => hne (hxs.eq_of_length hc)
        refine h.early xs.length hlt (List.length_pos_of_ne_nil hnil) ?_
        rw [← List.prefix_iff_eq_take.mp hxs]
        rw [HttpParser.after, if_neg hnil] at hnote
        exact hnote
      subst hall
      refine ⟨rfl, fun hclose => (h.closed hclose).1 ?_⟩
      rw [← h.after_eq]
      exact hnote
  · rintro ⟨rfl, hne⟩
    rw [h.after_eq]
    exact h.complete hne

/-- When `finished` is set, the body is there. -/
theorem HttpParser.Delimits.finished (h : http.Delimits delimiter response body)
    {t : RespParser http} (hxs : xs <+: response) (hfed : Fed xs t)
    (hfinished : t.finished = true) :
    delimiter ≠ .close ∧ t.getBody = body := by
  obtain ⟨rfl, hdelimiter⟩ := (h.note_iff hxs).mp (hfed.finished.mp hfinished)
  refine ⟨hdelimiter, ?_⟩
  rw [RespParser.getBody, hfed.body, h.after_eq, h.body]

/-- When all bytes are there, `finished` is set, if the connection does not delimit the body. -/
theorem HttpParser.Delimits.unfinished (h : http.Delimits delimiter response body)
    {t : RespParser http} (hfed : Fed response t) (hfinished : t.finished = false) :
    delimiter = .close := by
  by_contra hdelimiter
  have hnote := (h.note_iff List.prefix_rfl).mpr ⟨rfl, hdelimiter⟩
  exact absurd (hfinished.symm.trans (hfed.finished.mpr hnote)) Bool.false_ne_true

end

/-! ## A parser for responses with a length -/

/-- Where the parser is: the header that it reads, and how many bytes of the body are left if it has
seen a `Content-Length`. -/
structure Reading where
  phase : RespPhase
  status : Nat
  name : Bytes
  left : Option Nat
  deriving DecidableEq, Repr

namespace Reading

def go (s : Reading) (phase : RespPhase) : Reading := { s with phase := phase }

/-- A digit of a header value. -/
def digit (s : Reading) (b : UInt8) : Reading :=
  if s.name = bytes "Content-Length" then
    { s with left := some (10 * s.left.getD 0 + (b - 48).toNat) }
  else s

/-- A byte of the body. With the last one the message is complete. -/
def take (s : Reading) (before : List (Mark SpanKind Notify)) :
    Reading × List (Mark SpanKind Notify) :=
  match s.left with
  | none => (s.go .body, before ++ [.take])
  | some n =>
    if n ≤ 1 then ({ s with phase := .version, left := none },
      before ++ [.take, .stop, .note .messageComplete])
    else ({ s with phase := .body, left := some (n - 1) }, before ++ [.take])

end Reading

/-- A response with a `Content-Length`, or with a body that goes on until the connection closes. -/
def lengthResponse : Scanner Reading SpanKind UInt8 Notify where
  next s b :=
    match s.phase with
    | .version => if b = 32 then (s.go .status, []) else (s, [])
    | .status =>
      if 48 ≤ b ∧ b ≤ 57 then ({ s with status := 10 * s.status + (b - 48).toNat }, [])
      else if b = 10 then (s.go .lineStart, [])
      else (s.go .reason, [])
    | .reason => if b = 10 then (s.go .lineStart, []) else (s, [])
    | .lineStart =>
      if b = 13 then (s.go .headersEnd, [])
      else ({ s with phase := .field, name := [b] }, [.start .headerField, .take])
    | .field =>
      if b = 58 then (s.go .valueStart, [.stop]) else ({ s with name := s.name ++ [b] }, [.take])
    | .valueStart =>
      if b = 32 then (s, [])
      else if b = 13 then (s.go .lineEnd, [.start .headerValue, .stop])
      else ((s.digit b).go .value, [.start .headerValue, .take])
    | .value => if b = 13 then (s.go .lineEnd, [.stop]) else (s.digit b, [.take])
    | .lineEnd => (s.go .lineStart, [])
    | .headersEnd =>
      if s.left = some 0 then ({ s with phase := .version, left := none }, [.note .messageComplete])
      else (s.go .bodyStart, [])
    | .bodyStart => s.take [.start .body]
    | .body => s.take []

/-- The end of the stream ends a body without a length. -/
def lengthExecute (s : Reading × Option SpanKind) (str : Bytes) :
    (Reading × Option SpanKind) × List Callback :=
  if str = [] then
    if s.1.left = none ∧ (s.1.phase = .bodyStart ∨ s.1.phase = .body) then
      (({ s.1 with phase := .version }, none), [.note .messageComplete])
    else (s, [])
  else lengthResponse.execute s str

def lengthParser : HttpParser where
  State := Reading × Option SpanKind
  init := (⟨.version, 0, [], none⟩, none)
  execute := lengthExecute
  nparsed _ str := str.length
  httpErrno _ := 0
  errnoDescription _ := "success"
  statusCode s := s.1.status
  inside s := s.2

theorem lengthExecute_eq {s : Reading × Option SpanKind} {str : Bytes} (hstr : str ≠ []) :
    lengthExecute s str = lengthResponse.execute s str :=
  if_neg hstr

theorem lengthExecute_incremental (ok : Reading × Option SpanKind → Prop) :
    Incremental lengthExecute (fun s => s.2) ok := by
  have hscan := lengthResponse.incremental ok
  refine ⟨fun s xs ys hxs hys hok => ?_, fun s xs ys hxs hys hok => ?_⟩
  · rw [lengthExecute_eq (List.append_ne_nil_of_left_ne_nil hxs ys)] at hok ⊢
    rw [lengthExecute_eq hxs, lengthExecute_eq hys]
    exact hscan.state s xs ys hxs hys hok
  · rw [lengthExecute_eq (List.append_ne_nil_of_left_ne_nil hxs ys)] at hok ⊢
    rw [lengthExecute_eq hxs, lengthExecute_eq hys]
    exact hscan.reports s xs ys hxs hys hok

theorem lengthParser_documented : lengthParser.Documented :=
  ⟨lengthExecute_incremental _, fun _ _ _ => rfl⟩

theorem lengthParser_errorsStay : lengthParser.ErrorsStay := fun _ _ h => absurd rfl h

theorem lengthParser_contentLength : lengthParser.Delimits .contentLength
    (bytes "HTTP/1.1 200 OK\r\nContent-Length: 5\r\n\r\nhello") (bytes "hello") := by
  refine ⟨by decide, rfl, by decide +kernel, by decide +kernel, fun _ => by decide +kernel, ?_⟩
  exact fun h => absurd h (by decide)

theorem lengthParser_close : lengthParser.Delimits .close
    (bytes "HTTP/1.1 200 OK\r\n\r\nhello") (bytes "hello") := by
  refine ⟨by decide, rfl, by decide +kernel, by decide +kernel, fun h => absurd rfl h, ?_⟩
  exact fun _ => ⟨by decide +kernel, by decide +kernel⟩

end Sheep
