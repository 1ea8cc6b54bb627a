import Mathlib.Data.Set.Card
import Mathlib.Logic.Function.Basic

/-!
# Processes and their program counters

Any number of processes, each at some point of its program: a function `pc : P → α`. One step
moves one process, `Function.update pc c q`.

* `forall_update`: what holds of the places of all processes after a step, and
  `forall_update_comp` for those of one kind.
* `Owned`: a lock variable names exactly the process that is inside the section it protects.
* `Counted`: a counter is the number of processes inside a section.

For both, `Move` says how one step changes the variable, and the rule `move` keeps the invariant.
-/

namespace Sheep

universe u v

variable {P : Type u} {α : Type v} [DecidableEq P]

/-- After the step of `c` to `q`, every process that the injective function `f` names meets `R` if
`c` does now and the others did. -/
theorem forall_update_comp {β : Type*} {f : β → P} (hf : Function.Injective f) {pc : P → α}
    {c : β} {q : α} {R : β → α → Prop} (hc : R c q) (hd : ∀ d, d ≠ c → R d (pc (f d))) (d : β) :
    R d (Function.update pc (f c) q (f d)) := by
  rcases eq_or_ne d c with rfl | h
  · rwa [Function.update_self]
  · rw [Function.update_of_ne fun heq => h (hf heq)]
    exact hd d h

theorem forall_update {pc : P → α} {c : P} {q : α} {R : P → α → Prop} (hc : R c q)
    (hd : ∀ d, d ≠ c → R d (pc d)) (d : P) : R d (Function.update pc c q d) :=
  forall_update_comp (f := fun d => d) (fun _ _ h => h) hc hd d

/-! ## Locks -/

/-- The lock variable `o` names the process inside the section, and there is no other. -/
def Owned (inside : α → Bool) (pc : P → α) (o : Option P) : Prop :=
  ∀ c, inside (pc c) ↔ o = some c

/-- How the step of `c` from `p` to `q` changes the lock variable: the process stays inside or
outside, enters a free section, or leaves. -/
inductive Owned.Move (inside : α → Bool) (c : P) (p q : α) : Option P → Option P → Prop
  | stay {o : Option P} : inside q = inside p → Move inside c p q o o
  | enter {o : Option P} : o = none → inside q = true → Move inside c p q o (some c)
  | leave {o : Option P} : inside p = true → inside q = false → Move inside c p q o none

theorem Owned.move {inside : α → Bool} {pc : P → α} {c : P} {p q : α} {o o' : Option P}
    (h : Owned inside pc o) (hpc : pc c = p) (hm : Owned.Move inside c p q o o') :
    Owned inside (Function.update pc c q) o' := by
  refine forall_update (R := fun d p => inside p ↔ o' = some d) ?_ ?_
  · cases hm with
    | stay hq => rw [hq, ← hpc, h c]
    | enter _ hq => simp [hq]
    | leave _ hq => simp [hq]
  · intro d hd
    rw [h d]
    cases hm with
    | stay => exact Iff.rfl
    | enter hnone => simp [hnone, hd.symm]
    | leave hp =>
      have hown := (h c).mp (hpc ▸ hp)
      simp [hown, hd.symm]

omit [DecidableEq P] in
theorem Owned.unique {inside : α → Bool} {pc : P → α} {c d : P} {p q : α} {o : Option P}
    (h : Owned inside pc o) (hc : pc c = p) (hd : pc d = q) (hp : inside p = true)
    (hq : inside q = true) : c = d := by
  have hc' := (h c).mp (hc ▸ hp)
  have hd' := (h d).mp (hd ▸ hq)
  exact Option.some.inj (hc'.symm.trans hd')

/-! ## Counters -/

/-- The counter `n` is the number of the processes inside the section. -/
structure Counted (inside : α → Bool) (pc : P → α) (n : Int) : Prop where
  finite : {c | inside (pc c) = true}.Finite
  card : n = {c | inside (pc c) = true}.ncard

/-- How the step of a process from `p` to `q` changes the counter. -/
inductive Counted.Move (inside : α → Bool) (p q : α) : Int → Int → Prop
  | stay {n : Int} : inside q = inside p → Move inside p q n n
  | enter {n : Int} : inside p = false → inside q = true → Move inside p q n (n + 1)
  | leave {n : Int} : inside p = true → inside q = false → Move inside p q n (n - 1)

theorem Counted.move {inside : α → Bool} {pc : P → α} {c : P} {p q : α} {n n' : Int}
    (h : Counted inside pc n) (hpc : pc c = p) (hm : Counted.Move inside p q n n') :
    Counted inside (Function.update pc c q) n' := by
  cases hm with
  | stay hq =>
    have hset : {d | inside (Function.update pc c q d) = true} = {d | inside (pc d) = true} := by
      ext d
      exact forall_update (R := fun d p => inside p = true ↔ inside (pc d) = true)
        (by rw [hq, hpc]) (fun d _ => Iff.rfl) d
    exact ⟨hset ▸ h.finite, hset ▸ h.card⟩
  | enter hp hq =>
    have hset : {d | inside (Function.update pc c q d) = true} =
        insert c {d | inside (pc d) = true} := by
      ext d
      exact forall_update
        (R := fun d p => inside p = true ↔ d ∈ insert c {d | inside (pc d) = true})
        (by simp [hq]) (fun d hd => by simp [hd]) d
    have hc : c ∉ {d | inside (pc d) = true} := by simp [hpc, hp]
    refine ⟨hset ▸ h.finite.insert c, ?_⟩
    rw [hset, Set.ncard_insert_of_notMem hc h.finite, h.card]
    rfl
  | leave hp hq =>
    have hset : {d | inside (Function.update pc c q d) = true} =
        {d | inside (pc d) = true} \ {c} := by
      ext d
      exact forall_update (R := fun d p => inside p = true ↔ d ∈ {d | inside (pc d) = true} \ {c})
        (by simp [hq]) (fun d hd => by simp [hd]) d
    have hc : c ∈ {d | inside (pc d) = true} := by simp [hpc, hp]
    refine ⟨hset ▸ h.finite.sdiff, ?_⟩
    have hcard := Set.ncard_sdiff_singleton_add_one hc h.finite
    rw [hset, h.card]
    omega

omit [DecidableEq P] in
/-- A counter that is not positive counts nobody. -/
theorem Counted.none_inside {inside : α → Bool} {pc : P → α} {n : Int}
    (h : Counted inside pc n) (hn : n ≤ 0) (c : P) : inside (pc c) = false := by
  have hcard : {c | inside (pc c) = true}.ncard = 0 := by
    have := h.card
    omega
  have hempty := (Set.ncard_eq_zero h.finite).mp hcard
  by_contra hc
  have : c ∈ {c | inside (pc c) = true} := by simpa using hc
  rw [hempty] at this
  exact this

omit [DecidableEq P] in
/-- A process inside the section is counted. -/
theorem Counted.pos_of_inside {inside : α → Bool} {pc : P → α} {n : Int}
    (h : Counted inside pc n) {c : P} (hc : inside (pc c) = true) : 0 < n := by
  by_contra hn
  exact absurd (hc.symm.trans (h.none_inside (not_lt.mp hn) c)) nofun

end Sheep
