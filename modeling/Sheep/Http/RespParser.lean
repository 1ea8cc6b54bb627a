import Mathlib.Algebra.Order.BigOperators.Group.List
import Mathlib.Algebra.Order.Group.Nat
import Mathlib.Data.List.Perm.Subperm
import Sheep.Lib.Bytes
import Sheep.Lib.Spans

/-!
# `RespParser`

The response parser (`extends/small_http_parser/resp_parser.cpp`) over the library `http_parser`,
whose callbacks fill in the headers and the body. The library is not part of this repository:
`HttpParser` has the functions that `RespParser` calls, and `HttpParser.Documented` is what it
relies on, that a span cut by the end of a buffer is reported in parts.

`FeedLaw` says that a response fed in pieces gives what it gives in one call. Bodies are put
together again. Header names are not, `onHeaderField` keeps the last part, and of a value the first
part counts, since `Map::Set` does not overwrite. `feedLaw_iff` says for which cuts the law holds.
-/

namespace Sheep

/-- The spans that `RespParser` has callbacks for. -/
inductive SpanKind
  | headerField
  | headerValue
  | body
  deriving DecidableEq, Repr

/-- `on_message_complete`. -/
inductive Notify
  | messageComplete
  deriving DecidableEq, Repr

abbrev Callback := Report SpanKind UInt8 Notify

/-! ## `http_parser` -/

/-- `http_parser`: `execute` is `http_parser_execute` with the callbacks it makes, and `nparsed` its
result. `inside` is the span that the parser is in the middle of. -/
structure HttpParser where
  State : Type
  /-- after `http_parser_init(HTTP_RESPONSE)` -/
  init : State
  execute : State → Bytes → State × List Callback
  nparsed : State → Bytes → Nat
  httpErrno : State → Nat
  errnoDescription : Nat → String
  statusCode : State → Nat
  inside : State → Option SpanKind

/-- A response: the parser finds no error in it. -/
def HttpParser.Accepts (http : HttpParser) (str : Bytes) : Prop :=
  http.httpErrno (http.execute http.init str).1 = 0

/-- What the library promises. -/
structure HttpParser.Documented (http : HttpParser) : Prop where
  incremental : Incremental http.execute http.inside fun p => http.httpErrno p = 0
  nparsed : ∀ p xs, http.httpErrno (http.execute p xs).1 = 0 → http.nparsed p xs = xs.length

/-! ## The parser -/

structure Map where
  kvs : Bytes → Option Bytes

/-- `std::map::insert`: a key that is there keeps its value. -/
def Map.set (m : Map) (key value : Bytes) : Map :=
  match m.kvs key with
  | none => ⟨Function.update m.kvs key (some value)⟩
  | some _ => m

structure RespParser (http : HttpParser) where
  parser : http.State
  headers : Map
  body : Bytes
  tmpField : Bytes
  buf : Bytes
  finished : Bool

namespace RespParser

variable {http : HttpParser}

/-- A new parser. The first `Feed` registers the callbacks. -/
def new (http : HttpParser) : RespParser http := ⟨http.init, ⟨fun _ => none⟩, [], [], [], false⟩

def onHeaderField (t : RespParser http) (c : Bytes) : RespParser http := { t with tmpField := c }

def onHeaderValue (t : RespParser http) (c : Bytes) : RespParser http :=
  { t with headers := t.headers.set t.tmpField c }

def onBody (t : RespParser http) (c : Bytes) : RespParser http := { t with body := t.body ++ c }

def onMessageEnd (t : RespParser http) : RespParser http := { t with finished := true }

def callback (t : RespParser http) : Callback → RespParser http
  | .span .headerField c => t.onHeaderField c
  | .span .headerValue c => t.onHeaderValue c
  | .span .body c => t.onBody c
  | .note .messageComplete => t.onMessageEnd

/-- `int nparsed = ...` of a `size_t`, and back to `size_t` in the comparison with `str.size()`. -/
def throughInt (n : Nat) : Int := (n : Int).bmod (2 ^ 32) % 2 ^ 64

/-- The comparison succeeds for a call that parses all of its `n` bytes. -/
def FitsInt (n : Nat) : Prop := throughInt n = n

instance (n : Nat) : Decidable (FitsInt n) := inferInstanceAs (Decidable (throughInt n = n))

/-- `Feed`: the error message, `finished` and the parser after it. -/
def feed (t : RespParser http) (errMsg : String) (str : Bytes) :
    String × Bool × RespParser http :=
  let offset := t.buf.length
  let buf := t.buf ++ str
  let data := (buf.drop offset).take str.length
  let (parser, callbacks) := http.execute t.parser data
  let t' := callbacks.foldl callback { t with buf := buf, parser := parser }
  if http.httpErrno parser ≠ 0 then
    ("RespParser Feed failed: " ++ http.errnoDescription (http.httpErrno parser), false, t')
  else if throughInt (http.nparsed t.parser data) ≠ str.length then
    ("RespParser Feed failed: unknown", false, t')
  else (errMsg, t'.finished, t')

/-- Successive calls of `Feed`. -/
def feedAll : RespParser http → String → Bool → List Bytes → String × Bool × RespParser http
  | t, errMsg, finished, [] => (errMsg, finished, t)
  | t, errMsg, _, str :: strs =>
    let r := t.feed errMsg str
    r.2.2.feedAll r.1 r.2.1 strs

def getStatusCode (t : RespParser http) : Nat := http.statusCode t.parser

def getBody (t : RespParser http) : Bytes := t.body

end RespParser

/-! ## The contract -/

structure Resp where
  headers : Map
  body : Bytes
  statusCode : Nat
  finished : Bool

/-- What a response gives that is fed in these pieces. -/
def respOf (http : HttpParser) (pieces : List Bytes) : Resp :=
  let r := (RespParser.new http).feedAll "" false pieces
  ⟨r.2.2.headers, r.2.2.body, r.2.2.getStatusCode, r.2.1⟩

def FeedLaw (http : HttpParser) (pieces : List Bytes) : Prop :=
  respOf http pieces = respOf http [pieces.flatten]

/-- A header name has no bytes before a cut, a header value has none after one. -/
def Part.Smooth : Part SpanKind UInt8 Notify → Prop
  | .span .headerField first more => ∀ p ∈ (first :: more).dropLast, p = []
  | .span .headerValue _ more => ∀ p ∈ more, p = []
  | .span .body _ _ | .note _ => True

instance : ∀ p : Part SpanKind UInt8 Notify, Decidable p.Smooth
  | .span .headerField first more =>
    inferInstanceAs (Decidable (∀ p ∈ (first :: more).dropLast, p = []))
  | .span .headerValue _ more => inferInstanceAs (Decidable (∀ p ∈ more, p = []))
  | .span .body _ _ | .note _ => isTrue True.intro

/-- No cut is inside a header name, or inside a header value. -/
def SmoothCuts (http : HttpParser) (pieces : List Bytes) : Prop :=
  ∀ p ∈ partsOf http.execute http.inside http.init pieces, p.Smooth

instance (http : HttpParser) (pieces : List Bytes) : Decidable (SmoothCuts http pieces) :=
  inferInstanceAs (Decidable
    (∀ p ∈ partsOf http.execute http.inside http.init pieces, p.Smooth))

/-- A response that is complete fits into `int` in one call as well as its last piece does: with
`2 ^ 31` bytes the comparison fails, and the call reports an error in place of `finished`. -/
def SizesFit (http : HttpParser) (pieces : List Bytes) : Prop :=
  .note .messageComplete ∈ (http.execute http.init pieces.flatten).2 →
    (RespParser.FitsInt pieces.flatten.length ↔
      RespParser.FitsInt (pieces.getLast?.getD []).length)

instance (http : HttpParser) (pieces : List Bytes) : Decidable (SizesFit http pieces) :=
  inferInstanceAs (Decidable
    (.note .messageComplete ∈ (http.execute http.init pieces.flatten).2 →
      (RespParser.FitsInt pieces.flatten.length ↔
        RespParser.FitsInt (pieces.getLast?.getD []).length)))

/-- The header lines of a response whose names and values come in turn. -/
inductive HeaderLines : List Callback → List (Bytes × Bytes) → Prop
  | nil : HeaderLines [] []
  | body (c : Bytes) {cs : List Callback} {lines : List (Bytes × Bytes)} :
      HeaderLines cs lines → HeaderLines (.span .body c :: cs) lines
  | messageEnd {cs : List Callback} {lines : List (Bytes × Bytes)} :
      HeaderLines cs lines → HeaderLines (.note .messageComplete :: cs) lines
  | line (name value : Bytes) {cs : List Callback} {lines : List (Bytes × Bytes)} :
      HeaderLines cs lines →
        HeaderLines (.span .headerField name :: .span .headerValue value :: cs)
          ((name, value) :: lines)

/-- Each header has a name of its own. -/
def DistinctHeaders (http : HttpParser) (str : Bytes) : Prop :=
  ∃ lines, HeaderLines (http.execute http.init str).2 lines ∧ (lines.map Prod.fst).Nodup

/-! ## Lists in which the first entry of a key counts -/

/-- Keys that are suffixes of keys that differ, and the same first entries: the same lists. -/
theorem keys_eq_of_suffix {ks ks' : List Bytes} (hsuffix : List.Forall₂ (· <:+ ·) ks' ks)
    (hnodup : ks.Nodup) (hsub : ks ⊆ ks') : ks' = ks := by
  have hperm : ks.Perm ks' :=
    (List.subperm_of_subset hnodup hsub).perm_of_length_le (Nat.le_of_eq hsuffix.length_eq)
  have hsum : (ks'.map List.length).sum = (ks.map List.length).sum := (hperm.map _).sum_eq.symm
  clear hperm hnodup hsub
  induction hsuffix with
  | nil => rfl
  | @cons k' k ks' ks hk hks ih =>
    -- no key is shorter, so none is a proper suffix
    have hle : (ks'.map List.length).sum ≤ (ks.map List.length).sum := by
      refine List.Forall₂.sum_le_sum ?_
      rw [List.forall₂_map_left_iff, List.forall₂_map_right_iff]
      exact hks.imp fun _ _ h => h.length_le
    have hlen := hk.length_le
    simp only [List.map_cons, List.sum_cons] at hsum
    rw [hk.eq_of_length (by omega), ih (by omega)]

theorem lookup_cons_of_ne {k : Bytes} {l : Bytes × Bytes} {ls : List (Bytes × Bytes)}
    (h : k ≠ l.1) : (l :: ls).lookup k = ls.lookup k := by
  rw [List.lookup_cons, beq_false_of_ne h]

theorem eq_of_lookup_eq {ls ls' : List (Bytes × Bytes)}
    (hkeys : ls'.map Prod.fst = ls.map Prod.fst) (hnodup : (ls.map Prod.fst).Nodup)
    (hlookup : ∀ k, ls'.lookup k = ls.lookup k) : ls' = ls := by
  induction ls generalizing ls' with
  | nil => simpa using hkeys
  | cons l ls ih =>
    obtain ⟨k, v⟩ := l
    obtain ⟨l', ls', rfl, hk, htail⟩ := List.map_eq_cons_iff.mp hkeys
    obtain ⟨k', v'⟩ := l'
    obtain rfl : k' = k := hk
    obtain ⟨hfresh, hnodup⟩ := List.nodup_cons.mp hnodup
    have hv : v' = v := by simpa using hlookup k'
    rw [hv, ih htail hnodup fun j => ?_]
    by_cases hj : j = k'
    · -- the key of the head is no key of the tails
      have hnone : ∀ es : List (Bytes × Bytes), k' ∉ es.map Prod.fst → es.lookup k' = none := by
        intro es hes
        refine List.lookup_eq_none_iff.mpr fun e he => bne_iff_ne.mpr ?_
        rintro rfl
        exact hes (List.mem_map_of_mem he)
      rw [hj, hnone ls hfresh, hnone ls' (htail ▸ hfresh)]
    · have h := hlookup j
      rwa [lookup_cons_of_ne hj, lookup_cons_of_ne hj] at h

def Map.setAll (m : Map) (lines : List (Bytes × Bytes)) : Map :=
  lines.foldl (fun m l => m.set l.1 l.2) m

theorem Map.setAll_kvs (m : Map) (lines : List (Bytes × Bytes)) (key : Bytes) :
    (m.setAll lines).kvs key = (m.kvs key).or (lines.lookup key) := by
  induction lines generalizing m with
  | nil => simp [Map.setAll]
  | cons l lines ih =>
    refine (ih (m.set l.1 l.2)).trans ?_
    rcases eq_or_ne key l.1 with rfl | hkey
    · have hhead : (l :: lines).lookup l.1 = some l.2 := List.lookup_cons_self
      cases hm : m.kvs l.1 <;> simp [Map.set, hm, hhead]
    · have hset : (m.set l.1 l.2).kvs key = m.kvs key := by
        cases hm : m.kvs l.1 <;> simp [Map.set, hm, hkey]
      rw [hset, lookup_cons_of_ne hkey]

/-! ## The parts of a span -/

namespace RespParser

variable {http : HttpParser}

theorem foldl_headerField (t : RespParser http) (c : Bytes) (more : List Bytes) :
    (Part.span SpanKind.headerField c more).pieces.foldl callback t =
      t.onHeaderField ((c :: more).getLast (List.cons_ne_nil c more)) := by
  induction more generalizing t c with
  | nil => rfl
  | cons d more ih => exact ih (t.onHeaderField c) d

theorem onHeaderValue_twice (t : RespParser http) (c d : Bytes) :
    (t.onHeaderValue c).onHeaderValue d = t.onHeaderValue c := by
  simp only [onHeaderValue, Map.set]
  cases h : t.headers.kvs t.tmpField <;> simp [h]

theorem foldl_headerValue (t : RespParser http) (c : Bytes) (more : List Bytes) :
    (Part.span SpanKind.headerValue c more).pieces.foldl callback t = t.onHeaderValue c := by
  induction more with
  | nil => rfl
  | cons d more ih =>
    simp only [Part.pieces, List.map_cons, List.foldl_cons, callback, onHeaderValue_twice] at ih ⊢
    exact ih

theorem foldl_body (t : RespParser http) (c : Bytes) (more : List Bytes) :
    (Part.span SpanKind.body c more).pieces.foldl callback t = t.onBody (c ++ more.flatten) := by
  induction more generalizing t c with
  | nil => simp [Part.pieces, callback]
  | cons d more ih =>
    have h := ih (t.onBody c) d
    simp only [Part.pieces, List.foldl_cons, callback] at h
    simp only [Part.pieces, List.map_cons, List.foldl_cons, callback, h]
    simp [onBody]

/-- The last part of a name, behind the others. -/
theorem dropLast_append_getLast (c : Bytes) (more : List Bytes) :
    (c :: more).dropLast.flatten ++ (c :: more).getLast (List.cons_ne_nil c more) =
      c ++ more.flatten := by
  have h := congrArg List.flatten (List.dropLast_concat_getLast (List.cons_ne_nil c more))
  simpa only [List.flatten_append, List.flatten_cons, List.flatten_nil, List.append_nil] using h

/-- A name whose last part is all of it. -/
theorem getLast_eq_iff {c : Bytes} {more : List Bytes} :
    (c :: more).getLast (List.cons_ne_nil c more) = c ++ more.flatten ↔
      ∀ p ∈ (c :: more).dropLast, p = [] := by
  rw [← dropLast_append_getLast, List.self_eq_append_left, List.flatten_eq_nil_iff]

theorem getLast_suffix (c : Bytes) (more : List Bytes) :
    (c :: more).getLast (List.cons_ne_nil c more) <:+ c ++ more.flatten := by
  rw [← dropLast_append_getLast]
  exact List.suffix_append _ _

/-- A span without a bad cut does what it does whole. -/
theorem foldl_pieces_of_smooth {p : Part SpanKind UInt8 Notify} (h : p.Smooth)
    (t : RespParser http) : p.pieces.foldl callback t = t.callback p.whole := by
  cases p with
  | span k c more =>
    cases k with
    | headerField =>
      rw [foldl_headerField, getLast_eq_iff.mpr h]
      rfl
    | headerValue =>
      rw [foldl_headerValue, Part.whole, List.flatten_eq_nil_iff.mpr h, List.append_nil]
      rfl
    | body => exact foldl_body t c more
  | note n => rfl

theorem foldl_of_smooth {ps : List (Part SpanKind UInt8 Notify)} (h : ∀ p ∈ ps, p.Smooth)
    (t : RespParser http) :
    (ps.flatMap Part.pieces).foldl callback t = (ps.map Part.whole).foldl callback t := by
  induction ps generalizing t with
  | nil => rfl
  | cons p ps ih =>
    rw [List.flatMap_cons, List.foldl_append, foldl_pieces_of_smooth (h p List.mem_cons_self),
      ih fun q hq => h q (List.mem_cons_of_mem p hq)]
    rfl

/-! ## The header lines, whole and in parts -/

theorem foldl_headers {cs : List Callback} {lines : List (Bytes × Bytes)}
    (h : HeaderLines cs lines) (t : RespParser http) :
    (cs.foldl callback t).headers = t.headers.setAll lines := by
  induction h generalizing t with
  | nil => rfl
  | body c _ ih => exact ih (t.onBody c)
  | messageEnd _ ih => exact ih t.onMessageEnd
  | line name value _ ih => exact ih ((t.onHeaderField name).onHeaderValue value)

/-- The header lines that a cut response gives: they are the lines of the whole response only if
all cuts are smooth. -/
theorem foldl_headers_parts {cs : List Callback} {lines : List (Bytes × Bytes)}
    (h : HeaderLines cs lines) {ps : List (Part SpanKind UInt8 Notify)}
    (hps : ps.map Part.whole = cs) :
    ∃ lines' : List (Bytes × Bytes),
      (∀ t : RespParser http,
        ((ps.flatMap Part.pieces).foldl callback t).headers = t.headers.setAll lines') ∧
      List.Forall₂ (· <:+ ·) (lines'.map Prod.fst) (lines.map Prod.fst) ∧
      (lines' = lines → ∀ p ∈ ps, p.Smooth) := by
  induction h generalizing ps with
  | nil =>
    obtain rfl := List.map_eq_nil_iff.mp hps
    exact ⟨[], fun _ => rfl, .nil, fun _ => nofun⟩
  | body c _ ih =>
    obtain ⟨p, ps, rfl, hp, hps⟩ := List.map_eq_cons_iff.mp hps
    obtain ⟨lines', hfold, hsuffix, hsmooth⟩ := ih hps
    cases p with
    | note n => cases hp
    | span k first more =>
      cases hp
      refine ⟨lines', fun t => ?_, hsuffix, fun he => List.forall_mem_cons.mpr ⟨?_, hsmooth he⟩⟩
      · rw [List.flatMap_cons, List.foldl_append, foldl_body]
        exact hfold _
      · exact True.intro
  | messageEnd _ ih =>
    obtain ⟨p, ps, rfl, hp, hps⟩ := List.map_eq_cons_iff.mp hps
    obtain ⟨lines', hfold, hsuffix, hsmooth⟩ := ih hps
    cases p with
    | span k first more => cases hp
    | note n =>
      cases hp
      refine ⟨lines', fun t => hfold t.onMessageEnd, hsuffix, fun he => ?_⟩
      exact List.forall_mem_cons.mpr ⟨True.intro, hsmooth he⟩
  | line name value _ ih =>
    -- of a name in pieces the last one is kept, of a value the first
    obtain ⟨p, ps, rfl, hp, hps⟩ := List.map_eq_cons_iff.mp hps
    obtain ⟨q, ps, rfl, hq, hps⟩ := List.map_eq_cons_iff.mp hps
    obtain ⟨lines', hfold, hsuffix, hsmooth⟩ := ih hps
    cases p with
    | note n => cases hp
    | span k c cs =>
      cases q with
      | note n => cases hq
      | span k' d ds =>
        cases hp
        cases hq
        refine ⟨((c :: cs).getLast (List.cons_ne_nil c cs), d) :: lines', fun t => ?_,
          .cons (getLast_suffix c cs) hsuffix, fun he => ?_⟩
        · rw [List.flatMap_cons, List.flatMap_cons, List.foldl_append, List.foldl_append,
            foldl_headerField, foldl_headerValue]
          exact hfold _
        · obtain ⟨hline, he⟩ := List.cons.inj he
          obtain ⟨hname, hvalue⟩ := Prod.mk.inj hline
          rw [List.self_eq_append_right] at hvalue
          exact List.forall_mem_cons.mpr ⟨getLast_eq_iff.mp hname,
            List.forall_mem_cons.mpr ⟨List.flatten_eq_nil_iff.mp hvalue, hsmooth he⟩⟩

/-- With a name of its own for each header, only smooth cuts give the headers of the whole
response. -/
theorem smooth_of_headers_eq {cs : List Callback} {lines : List (Bytes × Bytes)}
    (h : HeaderLines cs lines) (hnodup : (lines.map Prod.fst).Nodup)
    {ps : List (Part SpanKind UInt8 Notify)} (hps : ps.map Part.whole = cs)
    (heq : ((ps.flatMap Part.pieces).foldl callback (new http)).headers =
      (cs.foldl callback (new http)).headers) : ∀ p ∈ ps, p.Smooth := by
  obtain ⟨lines', hfold, hsuffix, hsmooth⟩ := @foldl_headers_parts http _ _ h _ hps
  have hlookup : ∀ k, lines'.lookup k = lines.lookup k := by
    intro k
    have hk := congrArg (fun m => m.kvs k) ((hfold _).symm.trans (heq.trans (foldl_headers h _)))
    simpa only [Map.setAll_kvs, new, Option.none_or] using hk
  have hsub : lines.map Prod.fst ⊆ lines'.map Prod.fst := by
    intro k hk
    have hsome : (lines.lookup k).isSome := by simpa [List.lookup_isSome_iff] using hk
    rw [← hlookup k] at hsome
    simpa [List.lookup_isSome_iff] using hsome
  exact hsmooth (eq_of_lookup_eq (keys_eq_of_suffix hsuffix hnodup hsub) hnodup hlookup)

/-! ## Calls of `Feed` -/

theorem foldl_callback_with (cs : List Callback) (t : RespParser http) (buf : Bytes)
    (parser : http.State) :
    cs.foldl callback { t with buf := buf, parser := parser } =
      { cs.foldl callback t with buf := buf, parser := parser } := by
  induction cs generalizing t with
  | nil => rfl
  | cons c cs ih =>
    obtain ⟨t', ht⟩ : ∃ t', t' = t.callback c := ⟨_, rfl⟩
    have hone : RespParser.callback { t with buf := buf, parser := parser } c =
        { t.callback c with buf := buf, parser := parser } := by
      cases c with
      | span k c => cases k <;> rfl
      | note n => rfl
    rw [List.foldl_cons, List.foldl_cons, hone, ih]

/-- The parser after a call. -/
theorem feed_after (t : RespParser http) (errMsg : String) (str : Bytes) :
    (t.feed errMsg str).2.2 =
      { (http.execute t.parser str).2.foldl callback t with
        buf := t.buf ++ str, parser := (http.execute t.parser str).1 } := by
  have hdata : ((t.buf ++ str).drop t.buf.length).take str.length = str := by simp
  rw [← foldl_callback_with]
  simp only [feed, hdata]
  split
  · rfl
  · split <;> rfl

/-- The `finished` of a call that finds no error. -/
theorem feed_finished (hdoc : http.Documented) (t : RespParser http) (errMsg : String) (str : Bytes)
    (hok : http.httpErrno (http.execute t.parser str).1 = 0) :
    (t.feed errMsg str).2.1 = true ↔
      ((http.execute t.parser str).2.foldl callback t).finished = true ∧ FitsInt str.length := by
  have hdata : ((t.buf ++ str).drop t.buf.length).take str.length = str := by simp
  simp only [feed, hdata, hok, hdoc.nparsed _ _ hok, ne_eq, not_true_eq_false, ↓reduceIte,
    foldl_callback_with]
  split
  · rename_i hsize
    exact ⟨nofun, fun h => absurd h.2 hsize⟩
  · rename_i hsize
    exact ⟨fun h => ⟨h, Decidable.not_not.mp hsize⟩, fun h => h.1⟩

/-- The parser after successive calls. -/
theorem feedAll_after (t : RespParser http) (errMsg : String) (finished : Bool)
    (pieces : List Bytes) :
    (t.feedAll errMsg finished pieces).2.2 =
      { (executeAll http.execute t.parser pieces).2.foldl callback t with
        buf := t.buf ++ pieces.flatten
        parser := (executeAll http.execute t.parser pieces).1 } := by
  induction pieces generalizing t errMsg finished with
  | nil => simp [feedAll, executeAll]
  | cons str strs ih =>
    simp only [feedAll, ih, feed_after, executeAll, List.foldl_append, foldl_callback_with,
      List.flatten_cons, List.append_assoc]

/-- The `finished` of the last of successive calls. -/
theorem feedAll_finished (hdoc : http.Documented) (t : RespParser http) (errMsg : String)
    (finished : Bool) (strs : List Bytes) (last : Bytes)
    (hok : http.httpErrno (executeAll http.execute t.parser (strs ++ [last])).1 = 0) :
    (t.feedAll errMsg finished (strs ++ [last])).2.1 = true ↔
      ((executeAll http.execute t.parser (strs ++ [last])).2.foldl callback t).finished = true ∧
        FitsInt last.length := by
  induction strs generalizing t errMsg finished with
  | nil =>
    simp only [List.nil_append, feedAll, executeAll, List.append_nil] at hok ⊢
    exact feed_finished hdoc t errMsg last hok
  | cons str strs ih =>
    have hparser : (t.feed errMsg str).2.2.parser = (http.execute t.parser str).1 := by
      rw [feed_after]
    simp only [List.cons_append, feedAll, executeAll] at hok ⊢
    rw [ih _ _ _ (hparser ▸ hok), hparser, feed_after, foldl_callback_with, List.foldl_append]

theorem finished_foldl (cs : List Callback) (t : RespParser http) :
    (cs.foldl callback t).finished = true ↔
      t.finished = true ∨ .note .messageComplete ∈ cs := by
  induction cs generalizing t with
  | nil => simp
  | cons c cs ih =>
    rw [List.foldl_cons, ih]
    cases c with
    | span k c => cases k <;> simp [callback, onHeaderField, onHeaderValue, onBody]
    | note n =>
      cases n
      simp [callback, onMessageEnd]

end RespParser

/-! ## Pieces and the whole response -/

section

variable {http : HttpParser} {pieces : List Bytes}

open RespParser

theorem note_mem_pieces (ps : List (Part SpanKind UInt8 Notify)) (n : Notify) :
    .note n ∈ ps.flatMap Part.pieces ↔ .note n ∈ ps.map Part.whole := by
  induction ps with
  | nil => simp
  | cons p ps ih => cases p <;> simp [Part.pieces, Part.whole, ih]

/-- What a response in pieces gives, from the callbacks. -/
theorem respOf_eq (hdoc : http.Documented) (strs : List Bytes) (last : Bytes)
    (hok : http.httpErrno (executeAll http.execute http.init (strs ++ [last])).1 = 0) :
    respOf http (strs ++ [last]) =
      let q := executeAll http.execute http.init (strs ++ [last])
      let t := q.2.foldl callback (new http)
      ⟨t.headers, t.body, http.statusCode q.1,
        decide (.note .messageComplete ∈ q.2 ∧ FitsInt last.length)⟩ := by
  have hfinished := feedAll_finished hdoc (new http) "" false strs last hok
  rw [finished_foldl] at hfinished
  simp only [respOf, feedAll_after, getStatusCode, Resp.mk.injEq]
  refine ⟨rfl, rfl, rfl, ?_⟩
  rw [Bool.eq_iff_iff, hfinished, decide_eq_true_iff]
  simp [new]

/-- The headers and the body of a response, whole and in parts. -/
theorem body_parts (ps : List (Part SpanKind UInt8 Notify)) (t t' : RespParser http)
    (h : t.body = t'.body) :
    ((ps.flatMap Part.pieces).foldl callback t).body =
      ((ps.map Part.whole).foldl callback t').body := by
  induction ps generalizing t t' with
  | nil => exact h
  | cons p ps ih =>
    rw [List.flatMap_cons, List.foldl_append]
    refine ih _ _ ?_
    cases p with
    | note n => exact h
    | span k c more =>
      cases k with
      | headerField =>
        rw [foldl_headerField]
        exact h
      | headerValue =>
        rw [foldl_headerValue]
        exact h
      | body =>
        rw [foldl_body]
        exact congrArg (· ++ (c ++ more.flatten)) h

/-- The law, by what the two ways of feeding a response can differ in. -/
theorem feedLaw_iff_headers (hdoc : http.Documented) (hpieces : pieces ≠ [])
    (hne : ∀ str ∈ pieces, str ≠ []) (hok : http.Accepts pieces.flatten) :
    FeedLaw http pieces ↔ SizesFit http pieces ∧
      (((partsOf http.execute http.inside http.init pieces).flatMap Part.pieces).foldl callback
          (new http)).headers =
        ((http.execute http.init pieces.flatten).2.foldl callback (new http)).headers := by
  obtain ⟨hstate, hwhole, hparts⟩ := hdoc.incremental.parts hpieces hne hok
  obtain ⟨strs, last, rfl⟩ := (List.eq_nil_or_concat' pieces).resolve_left hpieces
  have hbody := body_parts (partsOf http.execute http.inside http.init (strs ++ [last]))
    (new http) (new http) rfl
  have hnote := note_mem_pieces (partsOf http.execute http.inside http.init (strs ++ [last]))
    .messageComplete
  rw [hparts, hwhole] at hbody hnote
  have hone := respOf_eq hdoc [] (strs ++ [last]).flatten
    (by simpa [executeAll, HttpParser.Accepts] using hok)
  rw [List.nil_append] at hone
  rw [FeedLaw, respOf_eq hdoc strs last (hstate ▸ hok), hone, hparts]
  simp only [executeAll, List.append_nil, Resp.mk.injEq, hbody, hstate, true_and, hnote,
    decide_eq_decide, SizesFit, List.getLast?_concat, Option.getD_some]
  constructor
  · rintro ⟨hheaders, hfinished⟩
    refine ⟨fun hend => ?_, hheaders⟩
    simpa only [hend, true_and] using hfinished.symm
  · rintro ⟨hsizes, hheaders⟩
    exact ⟨hheaders, and_congr_right fun hend => (hsizes hend).symm⟩

/-- A response fed in pieces gives what it gives in one call if no cut is inside a header name or
value and the sizes fit, and, with a name of its own for each header, only then. -/
theorem feedLaw_iff (http : HttpParser) (pieces : List Bytes) (hdoc : http.Documented)
    (hpieces : pieces ≠ []) (hne : ∀ str ∈ pieces, str ≠ []) (hok : http.Accepts pieces.flatten) :
    (SmoothCuts http pieces ∧ SizesFit http pieces → FeedLaw http pieces) ∧
      (DistinctHeaders http pieces.flatten →
        (FeedLaw http pieces ↔ SmoothCuts http pieces ∧ SizesFit http pieces)) := by
  have hwhole := (hdoc.incremental.parts hpieces hne hok).2.1
  have hsmooth : SmoothCuts http pieces ∧ SizesFit http pieces → FeedLaw http pieces := by
    rintro ⟨hcuts, hsizes⟩
    refine (feedLaw_iff_headers hdoc hpieces hne hok).mpr ⟨hsizes, ?_⟩
    rw [foldl_of_smooth hcuts, hwhole]
  refine ⟨hsmooth, fun ⟨lines, hlines, hnodup⟩ => ⟨fun hlaw => ?_, hsmooth⟩⟩
  obtain ⟨hsizes, hheaders⟩ := (feedLaw_iff_headers hdoc hpieces hne hok).mp hlaw
  exact ⟨smooth_of_headers_eq hlines hnodup hwhole hheaders, hsizes⟩

end

/-! ## A parser for small responses -/

/-- Where the parser is in a response. -/
inductive RespPhase
  | version
  | status
  | reason
  | lineStart
  | field
  | valueStart
  | value
  | lineEnd
  | headersEnd
  | bodyStart
  | body
  deriving DecidableEq, Repr

/-- A response without a `Content-Length` or other headers that have a meaning to the parser: its
body goes on until the connection closes, and with the status 204 there is none. -/
def smallResponse : Scanner (RespPhase × Nat) SpanKind UInt8 Notify where
  next s b :=
    match s.1 with
    | .version => if b = 32 then ((.status, 0), []) else (s, [])
    | .status =>
      if 48 ≤ b ∧ b ≤ 57 then ((.status, 10 * s.2 + (b - 48).toNat), [])
      else if b = 10 then ((.lineStart, s.2), [])
      else ((.reason, s.2), [])
    | .reason => if b = 10 then ((.lineStart, s.2), []) else (s, [])
    | .lineStart =>
      if b = 13 then ((.headersEnd, s.2), []) else ((.field, s.2), [.start .headerField, .take])
    | .field => if b = 58 then ((.valueStart, s.2), [.stop]) else (s, [.take])
    | .valueStart =>
      if b = 32 then (s, [])
      else if b = 13 then ((.lineEnd, s.2), [.start .headerValue, .stop])
      else ((.value, s.2), [.start .headerValue, .take])
    | .value => if b = 13 then ((.lineEnd, s.2), [.stop]) else (s, [.take])
    | .lineEnd => ((.lineStart, s.2), [])
    | .headersEnd =>
      if s.2 = 204 then ((.version, s.2), [.note .messageComplete]) else ((.bodyStart, s.2), [])
    | .bodyStart => ((.body, s.2), [.start .body, .take])
    | .body => (s, [.take])

def smallParser : HttpParser where
  State := (RespPhase × Nat) × Option SpanKind
  init := ((.version, 0), none)
  execute := smallResponse.execute
  nparsed _ str := str.length
  httpErrno _ := 0
  errnoDescription _ := "success"
  statusCode s := s.1.2
  inside s := s.2

theorem smallParser_documented : smallParser.Documented :=
  ⟨smallResponse.incremental _, fun _ _ _ => rfl⟩

/-- Cuts behind a header value and in the body. -/
theorem feedLaw_small :
    FeedLaw smallParser
      [bytes "HTTP/1.1 200 OK\r\nETag: 1", bytes "\r\n\r\nhel", bytes "lo"] :=
  (feedLaw_iff smallParser _ smallParser_documented (by decide) (by decide) rfl).1
    ⟨by decide, by decide⟩

/-- A cut inside a header name: the value is filed under the second part of it. -/
theorem cut_name_loses_header :
    smallParser.Documented ∧
      (respOf smallParser
        [bytes "HTTP/1.1 204 No Content\r\nET", bytes "ag: 1\r\n\r\n"]).headers.kvs (bytes "ag") =
          some (bytes "1") ∧
      ¬ FeedLaw smallParser [bytes "HTTP/1.1 204 No Content\r\nET", bytes "ag: 1\r\n\r\n"] := by
  refine ⟨smallParser_documented, by decide, fun h => ?_⟩
  have hkvs := congrArg (fun r => r.headers.kvs (bytes "ag")) h
  exact absurd hkvs (by decide)

end Sheep
