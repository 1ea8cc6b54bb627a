import Mathlib.Data.Option.Basic

/-!
# Step systems

A system is an initial state and a partial step function: `step s a = none` means that the
action `a` is not enabled in `s`. Every order of events of a concurrent program is one list of
actions, so a statement about every interleaving is a statement about every run.

* `run`: the state after a list of actions.
* `ReachableVia G`: the states of the runs whose steps all meet `G`. A claim that holds only
  under a condition on the steps is proved for these states.
* `Reachable`: no condition on the steps.

The rules: `ReachableVia.invariant` (what every step preserves holds of every reachable state) and
`run_invariant` (and at the end of every run from a state where it holds), `allStates_iff_allSteps`,
`allStates_iff_of_invariant` and `allSteps_iff` (a condition that is exact step by step is exact for
whole runs), and `run_split` and `allStates_iff_of_split` (a condition whose first violation settles
how a run ends).
-/

namespace Sheep

universe u v

/-- A state machine: `step s a` is the state after the action `a`, `none` where `a` is not
enabled. -/
structure System (σ : Type u) (α : Type v) where
  init : σ
  step : σ → α → Option σ

namespace System

variable {σ : Type u} {α : Type v} (S : System σ α)

/-- The state after the actions `as`, from the state `s`. -/
def run : σ → List α → Option σ
  | s, [] => some s
  | s, a :: as => (S.step s a).bind fun t => run t as

/-- `ReachableVia G s`: some run from the initial state ends in `s`, and each of its steps meets
`G` (a condition on the action and on the state before it). -/
inductive ReachableVia (G : σ → α → Prop) : σ → Prop
  | init : ReachableVia G S.init
  | step {s t : σ} {a : α} :
      ReachableVia G s → G s a → S.step s a = some t → ReachableVia G t

/-- The states of all runs. -/
abbrev Reachable : σ → Prop := S.ReachableVia fun _ _ => True

/-- Every state of the run from `s` along the actions, the first one included, meets `P`. -/
def AllStates (P : σ → Prop) : σ → List α → Prop
  | s, [] => P s
  | s, a :: as => P s ∧ ∀ t, S.step s a = some t → AllStates P t as

/-- Every step of the run from `s` along the actions meets `G`. -/
def AllSteps (G : σ → α → Prop) : σ → List α → Prop
  | _, [] => True
  | s, a :: as => G s a ∧ ∀ t, S.step s a = some t → AllSteps G t as

instance AllSteps.decidable (G : σ → α → Prop) [∀ s a, Decidable (G s a)] :
    ∀ (s : σ) (as : List α), Decidable (S.AllSteps G s as)
  | _, [] => isTrue True.intro
  | s, a :: as =>
    have : Decidable (∀ t, S.step s a = some t → S.AllSteps G t as) :=
      match S.step s a with
      | none => isTrue fun _ ht => nomatch ht
      | some t =>
        have := AllSteps.decidable G t as
        decidable_of_iff (S.AllSteps G t as) (by simp)
    inferInstanceAs (Decidable (G s a ∧ ∀ t, S.step s a = some t → S.AllSteps G t as))

variable {S}

/-- The invariant rule. -/
theorem ReachableVia.invariant {G : σ → α → Prop} {P : σ → Prop} {s : σ}
    (h : S.ReachableVia G s) (h0 : P S.init)
    (hstep : ∀ s a t, P s → G s a → S.step s a = some t → P t) : P s := by
  induction h with
  | init => exact h0
  | step _ hG hs ih => exact hstep _ _ _ ih hG hs

/-- A run that meets `G` at every step ends in a state reachable via `G`. -/
theorem ReachableVia.run {G : σ → α → Prop} {s t : σ} {as : List α} (h : S.ReachableVia G s)
    (hG : S.AllSteps G s as) (hrun : S.run s as = some t) : S.ReachableVia G t := by
  induction as generalizing s with
  | nil => cases hrun; exact h
  | cons a as ih =>
    obtain ⟨s', hs, hrun⟩ := Option.bind_eq_some_iff.mp hrun
    exact ih (h.step hG.1 hs) (hG.2 s' hs) hrun

theorem AllSteps.trivial {s : σ} {as : List α} : S.AllSteps (fun _ _ => True) s as := by
  induction as generalizing s with
  | nil => exact True.intro
  | cons a as ih => exact ⟨True.intro, fun _ _ => ih⟩

theorem reachable_of_run {t : σ} {as : List α} (h : S.run S.init as = some t) : S.Reachable t :=
  ReachableVia.run .init .trivial h

theorem AllStates.last {P : σ → Prop} {s t : σ} {as : List α} (h : S.AllStates P s as)
    (hrun : S.run s as = some t) : P t := by
  induction as generalizing s with
  | nil => cases hrun; exact h
  | cons a as ih =>
    obtain ⟨s', hs, hrun⟩ := Option.bind_eq_some_iff.mp hrun
    exact ih (h.2 s' hs) hrun

theorem AllStates.imp {P Q : σ → Prop} {s : σ} {as : List α} (h : S.AllStates P s as)
    (hPQ : ∀ s, P s → Q s) : S.AllStates Q s as := by
  induction as generalizing s with
  | nil => exact hPQ s h
  | cons a as ih => exact ⟨hPQ s h.1, fun t ht => ih (h.2 t ht)⟩

/-- What the steps that meet `G` keep holds in all states of the runs that meet `G`. -/
theorem AllSteps.allStates {G : σ → α → Prop} {P : σ → Prop} {s : σ} {as : List α}
    (h : S.AllSteps G s as) (h0 : P s)
    (hstep : ∀ s a t, P s → G s a → S.step s a = some t → P t) : S.AllStates P s as := by
  induction as generalizing s with
  | nil => exact h0
  | cons a as ih => exact ⟨h0, fun t ht => ih (h.2 t ht) (hstep s a t h0 h.1 ht)⟩

/-- Let the actions of a run all meet `L`, and let `I` hold in all states. If from a state with `P`
such an action leads to a state with `P` exactly when the step meets `G`, then the run has `P` in
all its states exactly when all its steps meet `G`. -/
theorem allStates_iff_allSteps {G : σ → α → Prop} {P I : σ → Prop} {L : α → Prop} {s : σ}
    {as : List α} (h0 : P s) (hI0 : I s)
    (hI : ∀ s a t, I s → S.step s a = some t → I t)
    (hstep : ∀ s a t, I s → P s → L a → S.step s a = some t → (P t ↔ G s a))
    (hL : ∀ a ∈ as, L a) (hrun : (S.run s as).isSome) :
    S.AllStates P s as ↔ S.AllSteps G s as := by
  induction as generalizing s with
  | nil => exact ⟨fun _ => True.intro, fun _ => h0⟩
  | cons a as ih =>
    cases hs : S.step s a with
    | none => simp [System.run, hs] at hrun
    | some t =>
      have hrun' : (S.run t as).isSome := by simpa [System.run, hs] using hrun
      have hL' : ∀ b ∈ as, L b := fun b hb => hL b (List.mem_cons_of_mem a hb)
      have hPG := hstep s a t hI0 h0 (hL a List.mem_cons_self) hs
      have ih' := fun hPt => ih hPt (hI s a t hI0 hs) hL' hrun'
      simp only [AllStates, AllSteps, hs, Option.some.injEq, forall_eq']
      constructor
      · rintro ⟨-, hall⟩
        have hPt : P t := by
          cases as with
          | nil => exact hall
          | cons => exact hall.1
        exact ⟨hPG.mp hPt, (ih' hPt).mp hall⟩
      · rintro ⟨hG, hall⟩
        exact ⟨h0, (ih' (hPG.mpr hG)).mpr hall⟩

/-- Let `I` have `P`. If the steps that meet `G` keep `I`, and a step from `I` that does not leads
to a state without `P`, then a run has `P` in all its states exactly when all its steps meet `G`. -/
theorem allStates_iff_of_invariant {G : σ → α → Prop} {P I : σ → Prop} {s : σ} {as : List α}
    (h0 : I s) (hP : ∀ s, I s → P s) (hkeep : ∀ s a t, I s → G s a → S.step s a = some t → I t)
    (hleave : ∀ s a t, I s → ¬ G s a → S.step s a = some t → ¬ P t)
    (hrun : (S.run s as).isSome) : S.AllStates P s as ↔ S.AllSteps G s as := by
  induction as generalizing s with
  | nil => exact ⟨fun _ => True.intro, fun _ => hP s h0⟩
  | cons a as ih =>
    cases hs : S.step s a with
    | none => simp [System.run, hs] at hrun
    | some t =>
      have hrun' : (S.run t as).isSome := by simpa [System.run, hs] using hrun
      simp only [AllStates, AllSteps, hs, Option.some.injEq, forall_eq']
      by_cases hG : G s a
      · have ih' := ih (hkeep s a t h0 hG hs) hrun'
        exact ⟨fun h => ⟨hG, ih'.mp h.2⟩, fun h => ⟨hP s h0, ih'.mpr h.2⟩⟩
      · have hnot := hleave s a t h0 hG hs
        refine ⟨fun h => absurd ?_ hnot, fun h => absurd h.1 hG⟩
        cases as with
        | nil => exact h.2
        | cons => exact h.2.1

/-- Let `P` hold first and be kept by the steps that meet `G`. If a step from a state with `P` that
meets `G` meets `H`, then the runs that meet `G` meet `H`. -/
theorem AllSteps.imp {G H : σ → α → Prop} {P : σ → Prop} {s : σ} {as : List α}
    (h : S.AllSteps G s as) (h0 : P s)
    (hstep : ∀ s a t, P s → G s a → S.step s a = some t → P t)
    (hH : ∀ s a, P s → G s a → H s a) : S.AllSteps H s as := by
  induction as generalizing s with
  | nil => exact True.intro
  | cons a as ih =>
    obtain ⟨hG, hall⟩ := h
    exact ⟨hH s a h0 hG, fun t ht => ih (hall t ht) (hstep s a t h0 hG ht)⟩

/-- Let `P` hold first and be kept by the steps that meet `G`. If `G` and `H` are the same
condition in the states with `P`, they are the same condition on whole runs. -/
theorem allSteps_iff {G H : σ → α → Prop} {P : σ → Prop} {s : σ} {as : List α} (h0 : P s)
    (hstep : ∀ s a t, P s → G s a → S.step s a = some t → P t)
    (hiff : ∀ s a, P s → (H s a ↔ G s a)) : S.AllSteps H s as ↔ S.AllSteps G s as := by
  induction as generalizing s with
  | nil => exact Iff.rfl
  | cons a as ih =>
    simp only [AllSteps, hiff s a h0]
    constructor
    · rintro ⟨hG, hall⟩
      exact ⟨hG, fun t ht => (ih (hstep s a t h0 hG ht)).mp (hall t ht)⟩
    · rintro ⟨hG, hall⟩
      exact ⟨hG, fun t ht => (ih (hstep s a t h0 hG ht)).mpr (hall t ht)⟩

/-- What every step keeps holds at the end of every run from a state where it holds. -/
theorem run_invariant {P : σ → Prop} {s t : σ} {as : List α} (h0 : P s)
    (hstep : ∀ s a t, P s → S.step s a = some t → P t) (hrun : S.run s as = some t) : P t :=
  (AllSteps.trivial.allStates h0 fun s a t h _ hs => hstep s a t h hs).last hrun

/-- Let the steps that meet `G` keep `P`, and let a step that does not lead from `P` to `Q`, which
every step keeps. Then a run ends with `P` if all its steps meet `G`, and with `Q` otherwise. -/
theorem run_split {G : σ → α → Prop} {P Q : σ → Prop} {s t : σ} {as : List α} (h0 : P s)
    (hkeep : ∀ s a t, P s → G s a → S.step s a = some t → P t)
    (hleave : ∀ s a t, P s → ¬ G s a → S.step s a = some t → Q t)
    (hstay : ∀ s a t, Q s → S.step s a = some t → Q t) (hrun : S.run s as = some t) :
    (S.AllSteps G s as → P t) ∧ (¬ S.AllSteps G s as → Q t) := by
  induction as generalizing s with
  | nil => cases hrun; exact ⟨fun _ => h0, fun h => absurd True.intro h⟩
  | cons a as ih =>
    obtain ⟨s', hs, hrun⟩ := Option.bind_eq_some_iff.mp hrun
    simp only [AllSteps, hs, Option.some.injEq, forall_eq']
    by_cases hG : G s a
    · have ih' := ih (hkeep s a s' h0 hG hs) hrun
      exact ⟨fun h => ih'.1 h.2, fun h => ih'.2 fun hall => h ⟨hG, hall⟩⟩
    · have hQ := hleave s a s' h0 hG hs
      exact ⟨fun h => absurd h.1 hG, fun _ => run_invariant hQ hstay hrun⟩

/-- If states with `P` have `L` and states with `Q` have not, a run has `L` in all its states
exactly when all its steps meet `G`. -/
theorem allStates_iff_of_split {G : σ → α → Prop} {L P Q : σ → Prop} {s : σ} {as : List α}
    (h0 : P s) (hkeep : ∀ s a t, P s → G s a → S.step s a = some t → P t)
    (hleave : ∀ s a t, P s → ¬ G s a → S.step s a = some t → Q t)
    (hstay : ∀ s a t, Q s → S.step s a = some t → Q t) (hlaw : ∀ s, P s → L s)
    (hlost : ∀ s, Q s → ¬ L s) (hrun : (S.run s as).isSome) :
    S.AllStates L s as ↔ S.AllSteps G s as := by
  obtain ⟨t, ht⟩ := Option.isSome_iff_exists.mp hrun
  constructor
  · intro hall
    by_contra hnot
    exact hlost t ((run_split h0 hkeep hleave hstay ht).2 hnot) (hall.last ht)
  · intro hsteps
    exact (hsteps.allStates h0 hkeep).imp hlaw

end System

end Sheep
