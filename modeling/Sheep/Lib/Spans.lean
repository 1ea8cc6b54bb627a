import Mathlib.Data.List.Basic

/-!
# Spans reported buffer by buffer

An incremental parser reads its input buffer by buffer and reports the spans of the input that it
recognises. A span that does not end with its buffer is reported in parts, one for each buffer.

* `Joined`: the reports of two buffers next to those of the one buffer made of both.
* `Incremental`: a parser whose reports are joined at every cut. For such a parser `partsOf`
  collects the parts of every span of a cut input, and `Incremental.parts` says that the spans put
  together are the reports of the whole input, and their parts those of the buffers.
* `Scanner`: a parser that reads element by element and marks where spans start and stop. It is
  incremental (`Scanner.incremental`).
-/

namespace Sheep

universe u v w x

/-- A span of the input, or a note between spans. -/
inductive Report (κ : Type u) (α : Type v) (ν : Type w)
  | span (k : κ) (xs : List α)
  | note (n : ν)
  deriving DecidableEq, Repr

/-- A span with the parts it was reported in. -/
inductive Part (κ : Type u) (α : Type v) (ν : Type w)
  | span (k : κ) (first : List α) (more : List (List α))
  | note (n : ν)
  deriving DecidableEq, Repr

section

variable {κ : Type u} {α : Type v} {ν : Type w} {σ : Type x}

/-- The reports `r₁` and `r₂` of two buffers and the reports `r` of both in one. A span of the kind
`cut` is cut by the end of the first buffer. -/
inductive Joined : Option κ → List (Report κ α ν) → List (Report κ α ν) →
    List (Report κ α ν) → Prop
  | apart {r₁ r₂ : List (Report κ α ν)} : Joined none r₁ r₂ (r₁ ++ r₂)
  | cut {k : κ} {xs ys : List α} {r₁ r₂ : List (Report κ α ν)} :
      Joined (some k) (r₁ ++ [.span k xs]) (.span k ys :: r₂) (r₁ ++ .span k (xs ++ ys) :: r₂)

/-! ## The parts of the spans -/

def Report.part : Report κ α ν → Part κ α ν
  | .span k xs => .span k xs []
  | .note n => .note n

def Part.whole : Part κ α ν → Report κ α ν
  | .span k first more => .span k (first ++ more.flatten)
  | .note n => .note n

def Part.pieces : Part κ α ν → List (Report κ α ν)
  | .span k first more => .span k first :: more.map (.span k)
  | .note n => [.note n]

/-- The reports of a buffer in front of the parts that come from later buffers. -/
def joinParts : Option κ → List (Report κ α ν) → List (Part κ α ν) → List (Part κ α ν)
  | none, r, ps => r.map Report.part ++ ps
  | some _, r, ps =>
    match r.getLast?, ps with
    | some (.span _ xs), .span k first more :: ps =>
      r.dropLast.map Report.part ++ .span k xs (first :: more) :: ps
    | _, _ => r.map Report.part ++ ps

@[simp] theorem whole_comp_part :
    (Part.whole ∘ Report.part : Report κ α ν → Report κ α ν) = id := by
  funext r
  cases r with
  | span k xs => simp [Report.part, Part.whole]
  | note n => rfl

@[simp] theorem flatMap_pieces_part (r : List (Report κ α ν)) :
    (r.map Report.part).flatMap Part.pieces = r := by
  induction r with
  | nil => rfl
  | cons x r ih => cases x <;> simp_all [Report.part, Part.pieces]

theorem Joined.parts {cut : Option κ} {r₁ r₂ r : List (Report κ α ν)} {ps : List (Part κ α ν)}
    (h : Joined cut r₁ r₂ r) (hps : ps.map Part.whole = r₂) :
    (joinParts cut r₁ ps).map Part.whole = r ∧
      (joinParts cut r₁ ps).flatMap Part.pieces = r₁ ++ ps.flatMap Part.pieces := by
  cases h with
  | apart => simp [joinParts, hps]
  | @cut k xs ys r₁ r₂ =>
    obtain ⟨p, ps, rfl, hp, htail⟩ := List.map_eq_cons_iff.mp hps
    cases p with
    | note n => cases hp
    | span k' first more =>
      simp only [Part.whole, Report.span.injEq] at hp
      obtain ⟨rfl, rfl⟩ := hp
      simp [joinParts, Part.whole, Part.pieces, htail]

/-! ## Incremental parsers -/

/-- The input in buffers. -/
def executeAll (execute : σ → List α → σ × List (Report κ α ν)) :
    σ → List (List α) → σ × List (Report κ α ν)
  | s, [] => (s, [])
  | s, x :: xs =>
    let r := execute s x
    let q := executeAll execute r.1 xs
    (q.1, r.2 ++ q.2)

/-- The parts of the spans of the input in buffers. -/
def partsOf (execute : σ → List α → σ × List (Report κ α ν)) (inside : σ → Option κ) :
    σ → List (List α) → List (Part κ α ν)
  | _, [] => []
  | s, x :: xs =>
    let r := execute s x
    joinParts (inside r.1) r.2 (partsOf execute inside r.1 xs)

/-- Wherever an accepted input is cut, the parser ends in the same state, and the reports are those
of the whole input, cut where `inside` says. -/
structure Incremental (execute : σ → List α → σ × List (Report κ α ν)) (inside : σ → Option κ)
    (ok : σ → Prop) : Prop where
  state : ∀ s xs ys, xs ≠ [] → ys ≠ [] → ok (execute s (xs ++ ys)).1 →
    (execute s (xs ++ ys)).1 = (execute (execute s xs).1 ys).1
  reports : ∀ s xs ys, xs ≠ [] → ys ≠ [] → ok (execute s (xs ++ ys)).1 →
    Joined (inside (execute s xs).1) (execute s xs).2 (execute (execute s xs).1 ys).2
      (execute s (xs ++ ys)).2

theorem joinParts_nil (cut : Option κ) (r : List (Report κ α ν)) :
    joinParts cut r [] = r.map Report.part := by
  cases cut with
  | none => simp [joinParts]
  | some k => simp [joinParts]

/-- An accepted input in buffers that are not empty. -/
theorem Incremental.parts {execute : σ → List α → σ × List (Report κ α ν)}
    {inside : σ → Option κ} {ok : σ → Prop} (h : Incremental execute inside ok) {s : σ}
    {xs : List (List α)} (hxs : xs ≠ []) (hne : ∀ x ∈ xs, x ≠ [])
    (hok : ok (execute s xs.flatten).1) :
    (executeAll execute s xs).1 = (execute s xs.flatten).1 ∧
      (partsOf execute inside s xs).map Part.whole = (execute s xs.flatten).2 ∧
      (partsOf execute inside s xs).flatMap Part.pieces = (executeAll execute s xs).2 := by
  induction xs generalizing s with
  | nil => exact absurd rfl hxs
  | cons x xs ih =>
    by_cases hlast : xs = []
    · subst hlast
      simp [executeAll, partsOf, joinParts_nil]
    · have hx : x ≠ [] := hne x List.mem_cons_self
      have hxs' : xs.flatten ≠ [] := by
        obtain ⟨y, ys, rfl⟩ := List.exists_cons_of_ne_nil hlast
        have hy : y ≠ [] := hne y (by simp)
        simp [hy]
      rw [List.flatten_cons] at hok ⊢
      have hstate := h.state s x xs.flatten hx hxs' hok
      obtain ⟨ihstate, ihwhole, ihpieces⟩ :=
        ih hlast (fun y hy => hne y (List.mem_cons_of_mem x hy)) (hstate ▸ hok)
      obtain ⟨hwhole, hpieces⟩ := (h.reports s x xs.flatten hx hxs' hok).parts ihwhole
      refine ⟨ihstate.trans hstate.symm, hwhole, ?_⟩
      rw [partsOf, hpieces, ihpieces]
      rfl

/-! ## Scanners -/

/-- What a scanner does about spans at one element of the input: `take` makes it part of the open
span. -/
inductive Mark (κ : Type u) (ν : Type w)
  | start (k : κ)
  | take
  | stop
  | note (n : ν)
  deriving DecidableEq, Repr

/-- A parser that reads element by element. -/
structure Scanner (σ : Type x) (κ : Type u) (α : Type v) (ν : Type w) where
  next : σ → α → σ × List (Mark κ ν)

namespace Scanner

/-- The open span ends. -/
def close : Option (κ × List α) → List (Report κ α ν)
  | none => []
  | some (k, xs) => [.span k xs]

def mark (x : α) (o : Option (κ × List α)) : Mark κ ν → Option (κ × List α) × List (Report κ α ν)
  | .start k => (some (k, []), close o)
  | .take => (o.map fun (k, xs) => (k, xs ++ [x]), [])
  | .stop => (none, close o)
  | .note n => (none, close o ++ [.note n])

def marks (x : α) : Option (κ × List α) → List (Mark κ ν) →
    Option (κ × List α) × List (Report κ α ν)
  | o, [] => (o, [])
  | o, m :: ms =>
    let r := mark x o m
    let q := marks x r.1 ms
    (q.1, r.2 ++ q.2)

variable (S : Scanner σ κ α ν)

/-- The state, the open span and the reports after some input. -/
def scan : σ → Option (κ × List α) → List α → σ × Option (κ × List α) × List (Report κ α ν)
  | s, o, [] => (s, o, [])
  | s, o, x :: xs =>
    let n := S.next s x
    let r := marks x o n.2
    let q := scan n.1 r.1 xs
    (q.1, q.2.1, r.2 ++ q.2.2)

/-- One buffer: a span that is open at its end is reported as far as it goes, and goes on with the
next buffer. -/
def execute (s : σ × Option κ) (xs : List α) : (σ × Option κ) × List (Report κ α ν) :=
  let q := S.scan s.1 (s.2.map (·, [])) xs
  ((q.1, q.2.1.map Prod.fst), q.2.2 ++ close q.2.1)

variable {S}

theorem scan_append (s : σ) (o : Option (κ × List α)) (xs ys : List α) :
    S.scan s o (xs ++ ys) =
      let q := S.scan s o xs
      let q' := S.scan q.1 q.2.1 ys
      (q'.1, q'.2.1, q.2.2 ++ q'.2.2) := by
  induction xs generalizing s o with
  | nil => rfl
  | cons x xs ih => simp only [List.cons_append, scan, ih, List.append_assoc]

/-- Two runs that differ in what the open span of the kind `k` began with: as long as it is open,
and after it is reported. -/
inductive Continued (k : κ) (xs : List α) : Option (κ × List α) × List (Report κ α ν) →
    Option (κ × List α) × List (Report κ α ν) → Prop
  | opened (ys : List α) : Continued k xs (some (k, ys), []) (some (k, xs ++ ys), [])
  | closed (o : Option (κ × List α)) (ys : List α) (r : List (Report κ α ν)) :
      Continued k xs (o, .span k ys :: r) (o, .span k (xs ++ ys) :: r)

theorem mark_continued (x : α) (k : κ) (xs ys : List α) (m : Mark κ ν) :
    Continued k xs (mark x (some (k, ys)) m) (mark x (some (k, xs ++ ys)) m) := by
  cases m with
  | start | stop | note => exact .closed _ ys _
  | take =>
    simp only [mark, Option.map_some, List.append_assoc]
    exact .opened _

theorem marks_continued (x : α) (k : κ) (xs ys : List α) (ms : List (Mark κ ν)) :
    Continued k xs (marks x (some (k, ys)) ms) (marks x (some (k, xs ++ ys)) ms) := by
  induction ms generalizing ys with
  | nil => exact .opened ys
  | cons m ms ih =>
    simp only [marks]
    generalize hr : mark x (some (k, ys)) m = r
    generalize hr' : mark x (some (k, xs ++ ys)) m = r'
    have h : Continued k xs r r' := by
      rw [← hr, ← hr']
      exact mark_continued x k xs ys m
    cases h with
    | opened zs => exact ih zs
    | closed o zs r => exact .closed _ zs _

theorem scan_continued (s : σ) (k : κ) (xs ys zs : List α) :
    (S.scan s (some (k, ys)) zs).1 = (S.scan s (some (k, xs ++ ys)) zs).1 ∧
      Continued k xs (S.scan s (some (k, ys)) zs).2 (S.scan s (some (k, xs ++ ys)) zs).2 := by
  induction zs generalizing s ys with
  | nil => exact ⟨rfl, .opened ys⟩
  | cons z zs ih =>
    simp only [scan]
    generalize hr : marks z (some (k, ys)) (S.next s z).2 = r
    generalize hr' : marks z (some (k, xs ++ ys)) (S.next s z).2 = r'
    have h : Continued k xs r r' := by
      rw [← hr, ← hr']
      exact marks_continued z k xs ys _
    cases h with
    | opened vs => exact ih (S.next s z).1 vs
    | closed o vs r => exact ⟨rfl, .closed _ vs _⟩

/-- A scanner is incremental: the kind of the open span is part of its state. -/
theorem incremental (ok : σ × Option κ → Prop) :
    Incremental S.execute (fun s => s.2) ok := by
  have key : ∀ (s : σ × Option κ) (xs ys : List α),
      (S.execute s (xs ++ ys)).1 = (S.execute (S.execute s xs).1 ys).1 ∧
        Joined (S.execute s xs).1.2 (S.execute s xs).2 (S.execute (S.execute s xs).1 ys).2
          (S.execute s (xs ++ ys)).2 := by
    intro s xs ys
    simp only [execute, scan_append]
    generalize S.scan s.1 (s.2.map (·, [])) xs = q
    obtain ⟨s', o, r⟩ := q
    cases o with
    | none => exact ⟨rfl, by simpa [close] using Joined.apart⟩
    | some p =>
      obtain ⟨k, us⟩ := p
      obtain ⟨hstate, hcont⟩ := scan_continued (S := S) s' k us [] ys
      rw [List.append_nil] at hstate hcont
      simp only [Option.map_some, close, hstate, List.append_assoc]
      generalize (S.scan s' (some (k, [])) ys).2 = q at hcont
      generalize (S.scan s' (some (k, us)) ys).2 = q' at hcont
      cases hcont with
      | opened vs => exact ⟨rfl, .cut⟩
      | closed o vs r' => exact ⟨rfl, .cut⟩
  exact ⟨fun s xs ys _ _ _ => (key s xs ys).1, fun s xs ys _ _ _ => (key s xs ys).2⟩

end Scanner

end

end Sheep
