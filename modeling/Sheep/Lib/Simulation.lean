import Sheep.Lib.System

/-!
# Systems that run in step

`LockStep S T f R`: from states that `R` relates, an action `a` of `S` and the action `f a` of `T`
are both not enabled, or lead to related states again. `LockStep.run`: then whole runs agree in the
same way, so that each of the two systems is a faithful account of the other.
-/

namespace Sheep

universe u v w x

variable {σ : Type u} {α : Type v} {τ : Type w} {β : Type x}

/-- `S` and `T` take their steps together. -/
structure LockStep (S : System σ α) (T : System τ β) (f : α → β) (R : σ → τ → Prop) : Prop where
  init : R S.init T.init
  step : ∀ s t a, R s t → Option.Rel R (S.step s a) (T.step t (f a))

namespace LockStep

variable {S : System σ α} {T : System τ β} {f : α → β} {R : σ → τ → Prop}

theorem run_from (h : LockStep S T f R) {s : σ} {t : τ} (hR : R s t) (as : List α) :
    Option.Rel R (S.run s as) (T.run t (as.map f)) := by
  induction as generalizing s t with
  | nil => exact .some hR
  | cons a as ih =>
    have hstep := h.step s t a hR
    simp only [System.run, List.map_cons]
    generalize S.step s a = o, T.step t (f a) = o' at hstep ⊢
    cases hstep with
    | some hR' => exact ih hR'
    | none => exact .none

theorem run (h : LockStep S T f R) (as : List α) :
    Option.Rel R (S.run S.init as) (T.run T.init (as.map f)) :=
  h.run_from h.init as

end LockStep

/-- The relation of the results when the states of one system are read off those of the other. -/
theorem option_rel_map {P : σ → Prop} {g : σ → τ} {o : Option σ} {o' : Option τ}
    (h : Option.Rel (fun s t => P s ∧ g s = t) o o') : o.map g = o' ∧ ∀ s ∈ o, P s := by
  cases h with
  | some h => exact ⟨congrArg some h.2, by rintro _ ⟨⟩; exact h.1⟩
  | none => exact ⟨rfl, nofun⟩

end Sheep
