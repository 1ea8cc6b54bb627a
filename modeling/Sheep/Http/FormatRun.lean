import Sheep.Http.ReqFormater
import Sheep.Lib.System

/-!
# Formatting again

`HttpClient` formats a request each time it sends it. `Format` writes to what it reads: the query
string stays on the target, and the first host stays in the header map until the next `SetHeader`.
`formatRun` is a formater with the calls on it in any order.

`FormatLaw`: `Format` returns what a new formater with the latest settings returns, so the same
text again as long as nothing was set in between. `formatLaw_iff`: a run keeps the law exactly when
no query string was appended before a `Format`, and no other host was filed that hides the latest
one.
-/

namespace Sheep

namespace ReqFormater

/-! ## What a formater sends -/

/-- The host that `Format` files. -/
def filedHost (f : ReqFormater) : Option Bytes := if f.host ≠ [] then some f.host else none

theorem find_hostHeaders (f : ReqFormater) (k : Bytes) :
    f.hostHeaders.find k =
      if k = hostField then (f.headers.find k).or f.filedHost else f.headers.find k := by
  unfold hostHeaders filedHost
  by_cases hempty : f.host ≠ []
  · rw [if_pos hempty, if_pos hempty, OrderedMap.find_insert_or]
    refine ite_congr rfl (fun hk => ?_) fun _ => rfl
    rw [hk]
  · rw [if_neg hempty, if_neg hempty, Option.or_none, ite_self]

theorem find_sentHeaders (f : ReqFormater) (k : Bytes) :
    f.sentHeaders.find k =
      if k = hostField then (f.headers.find k).or f.filedHost
      else if f.hasBody = true ∧ k = contentLength then
        (f.headers.find k).or (some (bytes (toString f.body.length)))
      else f.headers.find k := by
  have hne : contentLength ≠ hostField := by decide
  unfold sentHeaders
  by_cases hbody : f.hasBody = true
  · rw [if_pos hbody, OrderedMap.find_insert_or]
    rcases eq_or_ne k contentLength with rfl | hk
    · rw [if_pos rfl, if_neg hne, if_pos (And.intro hbody rfl), find_hostHeaders, if_neg hne]
    · rw [if_neg hk, find_hostHeaders]
      refine ite_congr rfl (fun _ => rfl) fun _ => ?_
      rw [if_neg fun h => hk h.2]
  · rw [if_neg hbody, find_hostHeaders]
    refine ite_congr rfl (fun _ => rfl) fun _ => ?_
    rw [if_neg fun h => hbody h.1]

/-- The host line of a header text determines the host. -/
theorem headerLines_injective {o o' : Option Bytes}
    (h : (o.toList.map (hostField, ·)).flatMap headerLine =
      (o'.toList.map (hostField, ·)).flatMap headerLine) : o = o' := by
  have hline : ∀ host, headerLine (hostField, host) = hostField ++ bytes ": " ++ host ++ lr :=
    fun _ => rfl
  cases o with
  | none =>
    cases o' with
    | none => rfl
    | some host' => exact absurd h (List.ne_nil_of_length_pos (by simp [hline, lr, bytes])).symm
  | some host =>
    cases o' with
    | none => exact absurd h (List.ne_nil_of_length_pos (by simp [hline, lr, bytes]))
    | some host' =>
      simp only [Option.toList_some, List.map_cons, List.map_nil, List.flatMap_cons,
        List.flatMap_nil, List.append_nil, hline] at h
      rw [List.append_cancel_left (List.append_cancel_right h)]

/-- Headers that differ at the host at most have the same text exactly when they have the same
host. -/
theorem headerText_iff {m m' : Kvs} (h : ∀ k, k ≠ hostField → m.find k = m'.find k) :
    m.entries.flatMap headerLine = m'.entries.flatMap headerLine ↔
      m.find hostField = m'.find hostField := by
  obtain ⟨hbelow, habove⟩ := OrderedMap.around_congr h
  rw [m.entries_eq_around hostField, m'.entries_eq_around hostField, hbelow, habove]
  simp only [List.flatMap_append]
  constructor
  · intro heq
    exact headerLines_injective (List.append_cancel_left (List.append_cancel_right heq))
  · intro heq
    rw [heq]

/-- Two formaters for the same request, the first with some more on its target. -/
theorem result_iff {f g : ReqFormater} (hmethod : f.method = g.method) (hbody : f.body = g.body)
    (hquery : f.queryStrings = g.queryStrings) {more : Bytes}
    (htarget : f.target = g.target ++ more) (hspace : ' '.toUInt8 ∉ more)
    (hheaders : ∀ k, k ≠ hostField → f.sentHeaders.find k = g.sentHeaders.find k) :
    f.format.result = g.format.result ↔
      more = [] ∧ f.sentHeaders.find hostField = g.sentHeaders.find hostField := by
  have hhas : f.hasBody = g.hasBody := by unfold hasBody; rw [hmethod]
  have hversion : bytes " HTTP/1.1" = ' '.toUInt8 :: bytes "HTTP/1.1" := rfl
  have hsplit : ∀ (text behind : Bytes), ' '.toUInt8 ∉ text →
      splitFirst ' '.toUInt8 (text ++ ' '.toUInt8 :: behind) = some (text, behind) :=
    fun text behind hmem => splitFirst_append hmem behind
  rw [← headerText_iff hheaders, format_result, format_result, format_target, format_target,
    hmethod, hbody, hquery, htarget, hhas, hversion]
  simp only [List.append_assoc, List.append_cancel_left_eq, List.cons_append]
  have hquerySpace := not_mem_queryText
    (by decide : urlChar ' '.toUInt8 = false) (by decide) (by decide) (by decide)
    g.queryStrings.entries
  constructor
  · intro heq
    have hmore : ' '.toUInt8 ∉ more ++ queryText g.queryStrings.entries := by
      rw [List.mem_append, not_or]
      exact ⟨hspace, hquerySpace⟩
    -- the first space is behind the target
    have hfirst := congrArg (splitFirst ' '.toUInt8) heq
    rw [← List.append_assoc, hsplit _ _ hmore, hsplit _ _ hquerySpace, Option.some.injEq,
      Prod.mk.injEq] at hfirst
    refine ⟨List.append_left_eq_self.mp hfirst.1, ?_⟩
    have hrest := List.append_cancel_left (List.append_cancel_left hfirst.2)
    exact List.append_cancel_right hrest
  · rintro ⟨rfl, heq⟩
    rw [heq]
    rfl

theorem queryText_eq_nil {kvs : List (Bytes × Bytes)} : queryText kvs = [] ↔ kvs = [] := by
  cases kvs with
  | nil => exact iff_of_true rfl rfl
  | cons kv rest => exact iff_of_false (List.cons_ne_nil _ _) (List.cons_ne_nil _ _)

end ReqFormater

open ReqFormater

/-! ## Calls in any order -/

inductive FormatCall
  | setHost (host : Bytes)
  | setHeader (map : Kvs)
  | setQueryString (map : Kvs)
  | format

structure FormatRun where
  formater : ReqFormater
  /-- ghost: a new formater with the latest settings, never formatted -/
  latest : ReqFormater
  /-- ghost: a query string was appended -/
  queried : Bool
  /-- ghost: the host that was first filed after the last `SetHeader` -/
  filed : Option Bytes
  /-- ghost: the text of the last `Format`, if nothing was set since -/
  last : Option Bytes

namespace FormatRun

def init (f : ReqFormater) : FormatRun := ⟨f, f, false, none, none⟩

def step (s : FormatRun) : FormatCall → Option FormatRun
  | .setHost host => some { s with
      formater := s.formater.setHost host, latest := s.latest.setHost host, last := none }
  | .setHeader map => some { s with
      formater := s.formater.setHeader map, latest := s.latest.setHeader map
      filed := none, last := none }
  | .setQueryString map => some { s with
      formater := s.formater.setQueryString map, latest := s.latest.setQueryString map
      last := none }
  | .format => some { s with
      formater := s.formater.format
      queried := s.queried || !s.latest.queryStrings.entries.isEmpty
      filed := s.filed.or s.latest.filedHost
      last := some s.formater.format.result }

end FormatRun

def formatRun (method target body : Bytes) : System FormatRun FormatCall :=
  ⟨.init (.new method target body), FormatRun.step⟩

/-- `Format` returns what a new formater returns, and the same again if nothing was set. -/
def FormatLaw (s : FormatRun) (a : FormatCall) : Prop :=
  a = .format → s.formater.format.result = s.latest.format.result ∧
    ∀ text ∈ s.last, s.formater.format.result = text

/-- Nothing of an earlier `Format` shows: no query string, and no other host, unless the header map
has one anyway. -/
def NothingLeft (s : FormatRun) (a : FormatCall) : Prop :=
  a = .format → s.queried = false ∧
    (s.latest.headers.find hostField ≠ none ∨ ∀ host ∈ s.filed, host = s.latest.host)

/-! ## What the calls keep -/

structure FormatInv (s : FormatRun) : Prop where
  method : s.formater.method = s.latest.method
  body : s.formater.body = s.latest.body
  host : s.formater.host = s.latest.host
  queryStrings : s.formater.queryStrings = s.latest.queryStrings
  target : ∃ more, s.formater.target = s.latest.target ++ more ∧ ' '.toUInt8 ∉ more ∧
    (more = [] ↔ s.queried = false)
  filed : s.formater.headers.find hostField = (s.latest.headers.find hostField).or s.filed
  filed_ne : [] ∉ s.filed
  others : ∀ k, k ≠ hostField → s.formater.headers.find k = s.latest.headers.find k ∨
    s.formater.headers.find k = s.latest.sentHeaders.find k
  last : ∀ text ∈ s.last, s.latest.format.result = text

namespace FormatInv

variable {s t : FormatRun}

theorem init (f : ReqFormater) : FormatInv (.init f) :=
  ⟨rfl, rfl, rfl, rfl, ⟨[], (List.append_nil _).symm, List.not_mem_nil, iff_of_true rfl rfl⟩,
    Option.or_none.symm, nofun, fun _ _ => .inl rfl, nofun⟩

theorem hasBody (h : FormatInv s) : s.formater.hasBody = s.latest.hasBody := by
  unfold ReqFormater.hasBody
  rw [h.method]

theorem filedHost (h : FormatInv s) : s.formater.filedHost = s.latest.filedHost := by
  unfold ReqFormater.filedHost
  rw [h.host]

/-- Setting the length twice is setting it once. -/
theorem sentHeaders (h : FormatInv s) (k : Bytes) (hk : k ≠ hostField) :
    s.formater.sentHeaders.find k = s.latest.sentHeaders.find k := by
  rw [find_sentHeaders, if_neg hk, h.hasBody, h.body]
  have hlatest := find_sentHeaders s.latest k
  rw [if_neg hk] at hlatest
  rcases h.others k hk with hfind | hfind
  · rw [hfind, hlatest]
  · rw [hfind, hlatest]
    split
    next hlength => rw [Option.or_assoc, Option.or_self]
    next => rfl

theorem sentHost (h : FormatInv s) : s.formater.sentHeaders.find hostField =
    ((s.latest.headers.find hostField).or s.filed).or s.latest.filedHost := by
  rw [find_sentHeaders, if_pos rfl, h.filed, h.filedHost]

/-- A `Format` after which the latest host is the one that is sent. -/
theorem sentHost_iff (h : FormatInv s) :
    s.formater.sentHeaders.find hostField = s.latest.sentHeaders.find hostField ↔
      s.latest.headers.find hostField ≠ none ∨ ∀ host ∈ s.filed, host = s.latest.host := by
  rw [h.sentHost, find_sentHeaders, if_pos rfl]
  cases s.latest.headers.find hostField with
  | some host => exact iff_of_true rfl (.inl (Option.some_ne_none _))
  | none =>
    have hne := h.filed_ne
    revert hne
    cases s.filed with
    | none => exact fun _ => iff_of_true rfl (.inr nofun)
    | some host =>
      intro hne
      have hhost : host ≠ [] := fun heq => hne (heq ▸ rfl)
      simp only [Option.none_or, Option.some_or, ne_eq, not_true_eq_false, false_or,
        Option.mem_def, Option.some.injEq, forall_eq']
      unfold ReqFormater.filedHost
      constructor
      · intro heq
        split at heq
        next => exact Option.some.inj heq
        next => cases heq
      · intro heq
        rw [← heq, if_pos hhost]

theorem result_iff (h : FormatInv s) :
    s.formater.format.result = s.latest.format.result ↔ s.queried = false ∧
      (s.latest.headers.find hostField ≠ none ∨ ∀ host ∈ s.filed, host = s.latest.host) := by
  obtain ⟨more, htarget, hspace, hmore⟩ := h.target
  rw [ReqFormater.result_iff h.method h.body h.queryStrings htarget hspace h.sentHeaders, hmore,
    h.sentHost_iff]

theorem setHost (h : FormatInv s) (host : Bytes) (ht : s.step (.setHost host) = some t) :
    FormatInv t := by
  obtain rfl := Option.some.inj ht
  refine ⟨h.method, h.body, rfl, h.queryStrings, h.target, h.filed, h.filed_ne, ?_, nofun⟩
  intro k hk
  have hsent : (s.latest.setHost host).sentHeaders.find k = s.latest.sentHeaders.find k := by
    rw [find_sentHeaders, find_sentHeaders, if_neg hk, if_neg hk]
    rfl
  exact (h.others k hk).imp_right fun hfind => hfind.trans hsent.symm

theorem setHeader (h : FormatInv s) (map : Kvs) (ht : s.step (.setHeader map) = some t) :
    FormatInv t := by
  obtain rfl := Option.some.inj ht
  exact ⟨h.method, h.body, h.host, h.queryStrings, h.target, Option.or_none.symm, nofun,
    fun _ _ => .inl rfl, nofun⟩

theorem setQueryString (h : FormatInv s) (map : Kvs)
    (ht : s.step (.setQueryString map) = some t) : FormatInv t := by
  obtain rfl := Option.some.inj ht
  exact ⟨h.method, h.body, h.host, rfl, h.target, h.filed, h.filed_ne, h.others, nofun⟩

theorem format (h : FormatInv s) (hleft : NothingLeft s .format)
    (ht : s.step .format = some t) : FormatInv t := by
  obtain rfl := Option.some.inj ht
  refine ⟨h.method, h.body, h.host, h.queryStrings, ?_, ?_, ?_, ?_, ?_⟩
  · obtain ⟨more, htarget, hspace, hmore⟩ := h.target
    refine ⟨more ++ queryText s.formater.queryStrings.entries, ?_, ?_, ?_⟩
    · show s.formater.format.target = _
      rw [format_target, htarget, List.append_assoc]
    · rw [List.mem_append, not_or]
      exact ⟨hspace, not_mem_queryText (by decide) (by decide) (by decide) (by decide) _⟩
    · rw [List.append_eq_nil_iff, hmore, queryText_eq_nil, h.queryStrings]
      simp
  · show s.formater.sentHeaders.find hostField = _
    rw [h.sentHost, Option.or_assoc]
  · intro hmem
    have hfiled : s.filed.or s.latest.filedHost = some [] := hmem
    rcases Option.or_eq_some_iff.mp hfiled with hsome | ⟨-, hsome⟩
    · exact h.filed_ne hsome
    · unfold ReqFormater.filedHost at hsome
      split at hsome
      next hne => exact hne (Option.some.inj hsome)
      next => cases hsome
  · exact fun k hk => .inr (h.sentHeaders k hk)
  · rintro _ ⟨⟩
    exact (h.result_iff.mpr (hleft rfl)).symm

theorem step {a : FormatCall} (h : FormatInv s) (hleft : NothingLeft s a)
    (ht : s.step a = some t) : FormatInv t := by
  cases a with
  | setHost host => exact h.setHost host ht
  | setHeader map => exact h.setHeader map ht
  | setQueryString map => exact h.setQueryString map ht
  | format => exact h.format hleft ht

theorem law_iff (h : FormatInv s) (a : FormatCall) : FormatLaw s a ↔ NothingLeft s a := by
  refine ⟨fun hlaw ha => h.result_iff.mp (hlaw ha).1, fun hleft ha => ?_⟩
  have hresult := h.result_iff.mpr (hleft ha)
  exact ⟨hresult, fun text htext => hresult.trans (h.last text htext)⟩

end FormatInv

/-! ## Every run -/

/-- Every `Format` of a run returns what a new formater returns exactly when nothing of an earlier
one is left for it. -/
theorem formatLaw_iff (method target body : Bytes) (as : List FormatCall) :
    (formatRun method target body).AllSteps FormatLaw (formatRun method target body).init as ↔
      (formatRun method target body).AllSteps NothingLeft
        (formatRun method target body).init as :=
  System.allSteps_iff (P := FormatInv) (.init _) (fun _ _ _ h hleft ht => h.step hleft ht)
    fun _ a h => h.law_iff a

/-- The query string `a=1`. -/
def oneQuery : Kvs := OrderedMap.empty.insert (bytes "a") (bytes "1")

/-- The second `Format` has the query string twice. -/
theorem format_repeats_query :
    ∃ s, (formatRun (bytes "GET") (bytes "/") []).run
        (formatRun (bytes "GET") (bytes "/") []).init [.setQueryString oneQuery, .format] = some s ∧
      s.formater.result = bytes "GET /?a=1 HTTP/1.1\r\n\r\n" ∧
      s.formater.format.result = bytes "GET /?a=1?a=1 HTTP/1.1\r\n\r\n" ∧
      ¬ (formatRun (bytes "GET") (bytes "/") []).AllSteps FormatLaw
        (formatRun (bytes "GET") (bytes "/") []).init
        [.setQueryString oneQuery, .format, .format] := by
  refine ⟨_, rfl, by decide, by decide, fun h => ?_⟩
  obtain ⟨-, hquery⟩ := h
  obtain ⟨-, hformat⟩ := hquery _ rfl
  obtain ⟨hlaw, -⟩ := hformat _ rfl
  exact absurd (hlaw rfl).1 (by decide)

end Sheep
