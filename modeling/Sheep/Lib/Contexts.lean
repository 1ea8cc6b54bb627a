import Mathlib.Logic.Function.Basic

/-!
# Saved contexts

Threads run on stacks, and switch from one stack to another by `jump`, which saves where the stack
stands into one memory cell and goes on from what another cell holds. Nothing ties a cell to a
stack: a cell may hold what its stack was at an earlier time, and to go on from there is undefined.

* `Contexts.Fresh`: the cell holds where its stack stands now.
* `Contexts.Stale`: it holds something else, and `Stale.jumped` says that it stays so until it is
  written again.
* `jump_fresh` and `jump_stale` say what a jump does in the two cases, `Fresh.jumped` what it leaves
  as it is.
* `Contexts.started` is the state after a new stack has been started and has jumped straight back,
  which takes two jumps (`jump_make`, `jump_back`).
-/

namespace Sheep

universe u v w x

/-- What a cell holds: a stack and the point where it goes on. -/
structure Saved (K : Type v) (P : Type w) where
  stack : K
  point : P
  /-- ghost: the number of the suspension -/
  stamp : Nat
  deriving DecidableEq

/-- Threads `T`, stacks `K`, points in the code `P` and memory cells `C`. -/
structure Contexts (T : Type u) (K : Type v) (P : Type w) (C : Type x) where
  /-- the stack that each thread runs on -/
  active : T → K
  cell : C → Option (Saved K P)
  /-- ghost: where each stack stands, if no thread runs on it -/
  latest : K → Option (Saved K P)
  /-- ghost: the number of the next suspension -/
  stamp : Nat

namespace Contexts

variable {T : Type u} {K : Type v} {P : Type w} {C : Type x}

/-- The cell `c` holds where the stack `k` stands, which is at `p`. -/
def Fresh (m : Contexts T K P C) (c : C) (k : K) (p : P) : Prop :=
  ∃ n, m.cell c = some ⟨k, p, n⟩ ∧ m.latest k = some ⟨k, p, n⟩

/-- The cell `c` holds where a stack stood before. -/
def Stale (m : Contexts T K P C) (c : C) : Prop :=
  ∃ saved, m.cell c = some saved ∧ m.latest saved.stack ≠ some saved

/-- What the cells hold has been saved before now. -/
def Dated (m : Contexts T K P C) : Prop :=
  ∀ c saved, m.cell c = some saved → saved.stamp < m.stamp

/-- The stack that a thread runs on has been saved before, and does not stand there any more. -/
theorem stale_of_running {m : Contexts T K P C} {c : C} (saved : Saved K P)
    (hc : m.cell c = some saved) (hlatest : m.latest saved.stack = none) : m.Stale c :=
  ⟨saved, hc, by rw [hlatest]; exact nofun⟩

variable [DecidableEq C]
variable {m : Contexts T K P C} {t : T} {c d ofc nfc : C} {k l : K} {p q : P}

theorem Dated.update {s : Saved K P} (h : m.Dated) (saved : Saved K P)
    (hsaved : saved.stamp = m.stamp)
    (hs : Function.update m.cell c (some saved) d = some s) : s.stamp < m.stamp + 1 := by
  rcases eq_or_ne d c with rfl | hd
  · rw [Function.update_self] at hs
    cases hs
    rw [hsaved]
    exact Nat.lt_succ_self _
  · rw [Function.update_of_ne hd] at hs
    exact Nat.lt_succ_of_lt (h d s hs)

/-! ## New stacks -/

variable [DecidableEq K]

/-- A new stack `k` that starts at `p`; the cell `c` holds it. -/
def make (m : Contexts T K P C) (c : C) (k : K) (p : P) : Contexts T K P C :=
  { m with
    cell := Function.update m.cell c (some ⟨k, p, m.stamp⟩)
    latest := Function.update m.latest k (some ⟨k, p, m.stamp⟩)
    stamp := m.stamp + 1 }

theorem Dated.make (h : m.Dated) (c : C) (k : K) (p : P) : (m.make c k p).Dated :=
  fun _ _ hs => h.update ⟨k, p, m.stamp⟩ rfl hs

theorem fresh_make : (m.make c k p).Fresh c k p :=
  ⟨m.stamp, Function.update_self .., Function.update_self ..⟩

theorem Fresh.make (h : m.Fresh d l q) (hd : d ≠ c) (hl : l ≠ k) :
    (m.make c k p).Fresh d l q := by
  obtain ⟨n, hcell, hlatest⟩ := h
  exact ⟨n, (Function.update_of_ne hd ..).trans hcell, (Function.update_of_ne hl ..).trans hlatest⟩

theorem Stale.make (h : m.Stale d) (hdated : m.Dated) (hd : d ≠ c) :
    (m.make c k p).Stale d := by
  obtain ⟨saved, hcell, hlatest⟩ := h
  refine ⟨saved, (Function.update_of_ne hd ..).trans hcell, ?_⟩
  show Function.update m.latest k _ saved.stack ≠ some saved
  rcases eq_or_ne saved.stack k with hk | hk
  · rw [hk, Function.update_self]
    rintro ⟨⟩
    exact Nat.lt_irrefl _ (hdated d _ hcell)
  · rwa [Function.update_of_ne hk]

/-! ## Jumps -/

variable [DecidableEq T]

/-- The state after `t` has saved its stack at `q` into `ofc` and runs on the stack `k`. -/
def jumped (m : Contexts T K P C) (t : T) (ofc : C) (q : P) (k : K) : Contexts T K P C :=
  { active := Function.update m.active t k
    cell := Function.update m.cell ofc (some ⟨m.active t, q, m.stamp⟩)
    latest := Function.update
      (Function.update m.latest (m.active t) (some ⟨m.active t, q, m.stamp⟩)) k none
    stamp := m.stamp + 1 }

theorem Dated.jumped (h : m.Dated) (t : T) (ofc : C) (q : P) (k : K) :
    (m.jumped t ofc q k).Dated :=
  fun _ _ hs => h.update ⟨m.active t, q, m.stamp⟩ rfl hs

theorem jumped_active_self : (m.jumped t ofc q k).active t = k := Function.update_self ..

theorem jumped_active_of_ne {u : T} (hu : u ≠ t) :
    (m.jumped t ofc q k).active u = m.active u := Function.update_of_ne hu ..

theorem jumped_cell_of_ne (hc : c ≠ ofc) : (m.jumped t ofc q k).cell c = m.cell c :=
  Function.update_of_ne hc ..

/-- The stack that a thread has left can be taken up again from where it was saved. -/
theorem fresh_jumped (ofc : C) (hk : m.active t ≠ k) :
    (m.jumped t ofc q k).Fresh ofc (m.active t) q :=
  ⟨m.stamp, Function.update_self .., (Function.update_of_ne hk ..).trans (Function.update_self ..)⟩

/-- A jump leaves the other cells and stacks as they are. -/
theorem Fresh.jumped (h : m.Fresh c l p) (hcell : c ≠ ofc) (hactive : l ≠ m.active t)
    (hl : l ≠ k) : (m.jumped t ofc q k).Fresh c l p := by
  obtain ⟨n, hc, hlatest⟩ := h
  refine ⟨n, (Function.update_of_ne hcell ..).trans hc, ?_⟩
  exact (Function.update_of_ne hl ..).trans ((Function.update_of_ne hactive ..).trans hlatest)

/-- A cell that is out of date stays so. -/
theorem Stale.jumped (h : m.Stale c) (hdated : m.Dated) (hcell : c ≠ ofc) :
    (m.jumped t ofc q k).Stale c := by
  obtain ⟨saved, hc, hlatest⟩ := h
  refine ⟨saved, (Function.update_of_ne hcell ..).trans hc, ?_⟩
  show Function.update (Function.update m.latest (m.active t) _) k none saved.stack ≠ some saved
  rcases eq_or_ne saved.stack k with hk | hk
  · rw [hk, Function.update_self]
    exact nofun
  · rw [Function.update_of_ne hk]
    by_cases hactive : saved.stack = m.active t
    · rw [hactive, Function.update_self]
      rintro ⟨⟩
      exact Nat.lt_irrefl _ (hdated c _ hc)
    · rwa [Function.update_of_ne hactive]

variable [DecidableEq P]

/-- The thread `t` saves its stack at `q` into `ofc`, and goes on from `nfc`; the point where it
goes on, and the new state. `none`: the cell is empty or not up to date. -/
def jump (m : Contexts T K P C) (t : T) (ofc nfc : C) (q : P) : Option (P × Contexts T K P C) :=
  (Function.update m.cell ofc (some ⟨m.active t, q, m.stamp⟩) nfc).bind fun saved =>
    if Function.update m.latest (m.active t) (some ⟨m.active t, q, m.stamp⟩) saved.stack =
        some saved then
      some (saved.point, m.jumped t ofc q saved.stack)
    else none

/-- A jump to a stack that the cell is up to date with. -/
theorem jump_fresh (h : m.Fresh nfc k p) (hcell : nfc ≠ ofc) (hk : k ≠ m.active t) :
    m.jump t ofc nfc q = some (p, m.jumped t ofc q k) := by
  obtain ⟨n, hnfc, hlatest⟩ := h
  unfold jump
  rw [Function.update_of_ne hcell, hnfc, Option.bind_some, if_pos]
  rw [Function.update_of_ne hk, hlatest]

theorem jump_stale (h : m.Stale nfc) (hdated : m.Dated) (hcell : nfc ≠ ofc) :
    m.jump t ofc nfc q = none := by
  obtain ⟨saved, hnfc, hlatest⟩ := h
  unfold jump
  rw [Function.update_of_ne hcell, hnfc, Option.bind_some, if_neg]
  by_cases hk : saved.stack = m.active t
  · rw [hk, Function.update_self]
    rintro ⟨⟩
    exact Nat.lt_irrefl _ (hdated nfc _ hnfc)
  · rwa [Function.update_of_ne hk]

/-- A jump goes on, if at all, where the cell says. -/
theorem jump_point {saved : Saved K P} {r : P × Contexts T K P C} (hnfc : m.cell nfc = some saved)
    (hcell : nfc ≠ ofc) (h : m.jump t ofc nfc q = some r) : r.1 = saved.point := by
  unfold jump at h
  rw [Function.update_of_ne hcell, hnfc, Option.bind_some] at h
  obtain ⟨-, h⟩ := Option.ite_none_right_eq_some.mp h
  cases h
  rfl

/-! ## Starting a stack -/

omit [DecidableEq P]

/-- `t` makes the stack `k`, starts it at `p` and is at `q` meanwhile; the new stack jumps back at
once and stands at `p'`, which the cell `own` holds. -/
def started (m : Contexts T K P C) (t : T) (own from_ : C) (k : K) (p q p' : P) :
    Contexts T K P C :=
  ((m.make own k p).jumped t from_ q k).jumped t own p' (m.active t)

variable {own from_ : C} {p' : P}

theorem jump_make [DecidableEq P] (hcell : own ≠ from_) (hk : k ≠ m.active t) :
    (m.make own k p).jump t from_ own q = some (p, (m.make own k p).jumped t from_ q k) :=
  jump_fresh fresh_make hcell hk

theorem jump_back [DecidableEq P] (hcell : own ≠ from_) (hk : k ≠ m.active t) :
    ((m.make own k p).jumped t from_ q k).jump t own from_ p' =
      some (q, m.started t own from_ k p q p') := by
  refine jump_fresh (k := m.active t) (fresh_jumped _ hk.symm) hcell.symm ?_
  rw [jumped_active_self]
  exact hk.symm

theorem started_active : (m.started t own from_ k p q p').active = m.active := by
  show Function.update (Function.update m.active t k) t (m.active t) = m.active
  rw [Function.update_idem, Function.update_eq_self]

theorem fresh_started (hk : k ≠ m.active t) :
    (m.started t own from_ k p q p').Fresh own k p' := by
  have hactive : ((m.make own k p).jumped t from_ q k).active t = k := jumped_active_self
  have hfresh := fresh_jumped (m := (m.make own k p).jumped t from_ q k) (t := t) (q := p')
    (k := m.active t) own (by rw [hactive]; exact hk)
  rwa [hactive] at hfresh

/-- Whoever started the stack runs on, so where it stood meanwhile is out of date. -/
theorem stale_started (hcell : own ≠ from_) : (m.started t own from_ k p q p').Stale from_ := by
  refine stale_of_running ⟨m.active t, q, m.stamp + 1⟩ ?_ (Function.update_self ..)
  exact (Function.update_of_ne hcell.symm ..).trans (Function.update_self ..)

theorem Fresh.started (h : m.Fresh c l p) (hown : c ≠ own) (hfrom : c ≠ from_) (hk : l ≠ k)
    (hactive : l ≠ m.active t) {p₀ : P} : (m.started t own from_ k p₀ q p').Fresh c l p := by
  have hmade := h.make (p := p₀) hown hk
  refine (hmade.jumped (t := t) (q := q) hfrom hactive hk).jumped hown ?_ hactive
  rw [jumped_active_self]
  exact hk

theorem Stale.started (h : m.Stale c) (hdated : m.Dated) (hown : c ≠ own) (hfrom : c ≠ from_) :
    (m.started t own from_ k p q p').Stale c :=
  have hmade := hdated.make own k p
  ((h.make hdated hown).jumped hmade hfrom).jumped (hmade.jumped t from_ q k) hown

theorem started_cell (hown : c ≠ own) (hfrom : c ≠ from_) :
    (m.started t own from_ k p q p').cell c = m.cell c :=
  (Function.update_of_ne hown ..).trans
    ((Function.update_of_ne hfrom ..).trans (Function.update_of_ne hown ..))

theorem Dated.started (h : m.Dated) : (m.started t own from_ k p q p').Dated :=
  ((h.make own k p).jumped t from_ q k).jumped t own p' (m.active t)

end Contexts

end Sheep
