import Mathlib.Logic.Function.Basic

/-!
# Programs over recursive locks

Threads run code that takes and releases recursive locks. The code of a thread is the list of
instructions it has still to run; a body `run b` may put further code in front of the rest, as a
call does. So what a thread will take later can be read off its code.

* `RecursiveLock`: the thread that holds the lock, and how often.
* `LockState.step`: one instruction of one thread; `LockState.Moved` is what it does to the locks
  and to the code.
* `Nested`: code whose locks are scopes. What bodies put in front is of this kind.
* `Enclosed l`: the code keeps the lock `l` until its end; `Inside l`: its bodies run under `l`.
* `TwoLocks`: a thread `t` whose programs are enclosed by `a`, a thread `u` whose programs are
  enclosed by `b`, and no crossing: `t` does not hold `a` with `b` still to take while `u` holds
  `b` with `a` still to take. A deadlock is a crossing (`TwoLocks.not_deadlocked`), and
  `TwoLocks.step_first` and `TwoLocks.step_second` say which steps can make one.
-/

namespace Sheep

universe u v w x

/-- A recursive lock: free, or held `n + 1` times by a thread. -/
abbrev RecursiveLock (T : Type u) := Option (T × Nat)

namespace RecursiveLock

variable {T : Type u} [DecidableEq T]

/-- `none`: the thread has to wait. -/
def acquire (l : RecursiveLock T) (t : T) : Option (RecursiveLock T) :=
  match l with
  | none => some (some (t, 0))
  | some (u, n) => if u = t then some (some (t, n + 1)) else none

/-- `none`: the thread does not hold the lock. -/
def release (l : RecursiveLock T) (t : T) : Option (RecursiveLock T) :=
  match l with
  | none => none
  | some (u, n) =>
    if u = t then
      match n with
      | 0 => some none
      | n + 1 => some (some (t, n))
    else none

/-- How often the thread holds the lock. -/
def depth (l : RecursiveLock T) (t : T) : Nat :=
  match l with
  | none => 0
  | some (u, n) => if u = t then n + 1 else 0

theorem depth_acquire {l l' : RecursiveLock T} {t : T} (h : l.acquire t = some l') :
    l'.depth t = l.depth t + 1 ∧ ∀ u, u ≠ t → l'.depth u = l.depth u := by
  rcases l with _ | ⟨v, n⟩
  · cases h
    exact ⟨by simp [depth], fun u hu => by simp [depth, hu.symm]⟩
  · simp only [acquire, Option.ite_none_right_eq_some, Option.some.injEq] at h
    obtain ⟨rfl, rfl⟩ := h
    exact ⟨by simp [depth], fun u hu => by simp [depth, hu.symm]⟩

theorem depth_release {l l' : RecursiveLock T} {t : T} (h : l.release t = some l') :
    l.depth t = l'.depth t + 1 ∧ ∀ u, u ≠ t → l'.depth u = l.depth u := by
  rcases l with _ | ⟨v, n⟩
  · cases h
  · simp only [release, Option.ite_none_right_eq_some] at h
    obtain ⟨rfl, h⟩ := h
    cases n with
    | zero =>
      cases h
      exact ⟨by simp [depth], fun u hu => by simp [depth, hu.symm]⟩
    | succ n =>
      cases h
      exact ⟨by simp [depth], fun u hu => by simp [depth, hu.symm]⟩

/-- Two threads do not hold a lock together. -/
theorem depth_exclusive {l : RecursiveLock T} {t u : T} (ht : 0 < l.depth t)
    (hu : 0 < l.depth u) : t = u := by
  rcases l with _ | ⟨v, n⟩
  · exact absurd ht (Nat.lt_irrefl 0)
  · simp only [depth] at ht hu
    split at ht
    · split at hu
      · rename_i hvt hvu
        exact hvt.symm.trans hvu
      · exact absurd hu (Nat.lt_irrefl 0)
    · exact absurd ht (Nat.lt_irrefl 0)

end RecursiveLock

/-- An instruction: a lock is taken or released, or a body runs. -/
inductive LockInstr (L : Type u) (B : Type v)
  | lock (l : L)
  | unlock (l : L)
  | run (b : B)
  deriving DecidableEq, Repr

section

variable {T : Type u} {L : Type v} {B : Type w} {σ : Type x}

structure LockState (T : Type u) (L : Type v) (B : Type w) (σ : Type x) where
  locks : L → RecursiveLock T
  code : T → List (LockInstr L B)
  shared : σ

/-- The meaning of the bodies: the shared state after a body, and the code it puts in front. A
body may depend on a choice of the environment. -/
abbrev Bodies (L : Type v) (B : Type w) (σ : Type x) (γ : Type*) :=
  B → γ → σ → Option (σ × List (LockInstr L B))

variable [DecidableEq T] [DecidableEq L]

namespace LockState

/-- The next instruction of `t`. -/
def step {γ : Type*} (exec : Bodies L B σ γ) (s : LockState T L B σ) (t : T) (choice : γ) :
    Option (LockState T L B σ) :=
  match s.code t with
  | [] => none
  | .lock l :: k => ((s.locks l).acquire t).map fun lock =>
      { s with locks := Function.update s.locks l lock, code := Function.update s.code t k }
  | .unlock l :: k => ((s.locks l).release t).map fun lock =>
      { s with locks := Function.update s.locks l lock, code := Function.update s.code t k }
  | .run b :: k => (exec b choice s.shared).map fun (shared, code) =>
      { s with shared := shared, code := Function.update s.code t (code ++ k) }

/-- An idle thread starts a program. -/
def start (s : LockState T L B σ) (t : T) (program : List (LockInstr L B)) :
    Option (LockState T L B σ) :=
  match s.code t with
  | [] => some { s with code := Function.update s.code t program }
  | _ :: _ => none

/-- How often `t` holds `l`. -/
def depth (s : LockState T L B σ) (t : T) (l : L) : Nat := (s.locks l).depth t

def Holds (s : LockState T L B σ) (t : T) (l : L) : Prop := 0 < s.depth t l

/-- The next instruction of `t` takes `l`, and `t` cannot have it. -/
def Waits (s : LockState T L B σ) (t : T) (l : L) : Prop :=
  (s.code t).head? = some (.lock l) ∧ (s.locks l).acquire t = none

/-- `t` has still to take `l`. -/
def Needs (s : LockState T L B σ) (t : T) (l : L) : Prop := .lock l ∈ s.code t

/-- `t` holds `a` and waits for `b`, and `u` holds `b` and waits for `a`. -/
def Deadlocked (s : LockState T L B σ) (t u : T) (a b : L) : Prop :=
  s.Holds t a ∧ s.Waits t b ∧ s.Holds u b ∧ s.Waits u a

instance (s : LockState T L B σ) (t : T) (l : L) : Decidable (s.Holds t l) :=
  inferInstanceAs (Decidable (0 < s.depth t l))

instance [DecidableEq B] (s : LockState T L B σ) (t : T) (l : L) : Decidable (s.Needs t l) :=
  inferInstanceAs (Decidable (.lock l ∈ s.code t))

instance [DecidableEq B] (s : LockState T L B σ) (t : T) (l : L) : Decidable (s.Waits t l) :=
  inferInstanceAs (Decidable
    ((s.code t).head? = some (.lock l) ∧ (s.locks l).acquire t = none))

instance [DecidableEq B] (s : LockState T L B σ) (t u : T) (a b : L) :
    Decidable (s.Deadlocked t u a b) :=
  inferInstanceAs (Decidable (s.Holds t a ∧ s.Waits t b ∧ s.Holds u b ∧ s.Waits u a))

end LockState

variable {s s' : LockState T L B σ} {t u : T} {a b l : L} {γ : Type*} {exec : Bodies L B σ γ}
  {choice : γ}

namespace LockState

/-- What an instruction of `t` does to its own locks and code. -/
inductive Moved (exec : Bodies L B σ γ) (choice : γ) (s : LockState T L B σ) (t : T)
    (s' : LockState T L B σ) : Prop
  | lock (l : L) (k : List (LockInstr L B)) (before : s.code t = .lock l :: k)
      (after : s'.code t = k)
      (depth : ∀ m, s'.depth t m = if l = m then s.depth t m + 1 else s.depth t m)
  | unlock (l : L) (k : List (LockInstr L B)) (before : s.code t = .unlock l :: k)
      (after : s'.code t = k)
      (depth : ∀ m, s.depth t m = if l = m then s'.depth t m + 1 else s'.depth t m)
  | run (body : B) (code k : List (LockInstr L B)) (before : s.code t = .run body :: k)
      (effect : exec body choice s.shared = some (s'.shared, code))
      (after : s'.code t = code ++ k) (depth : ∀ m, s'.depth t m = s.depth t m)

theorem depth_update {lock : RecursiveLock T} {v : T} {m : L} :
    ({ s with locks := Function.update s.locks l lock } : LockState T L B σ).depth v m =
      if l = m then lock.depth v else s.depth v m := by
  rcases eq_or_ne l m with rfl | hm
  · simp [LockState.depth]
  · simp [LockState.depth, hm, Function.update_of_ne (Ne.symm hm)]

/-- A step of `t`: what it does to `t`, and that it does nothing to the others. -/
theorem step_moved (h : s.step exec t choice = some s') :
    Moved exec choice s t s' ∧
      ∀ v, v ≠ t → s'.code v = s.code v ∧ ∀ m, s'.depth v m = s.depth v m := by
  unfold step at h
  split at h
  · cases h
  · rename_i l k hcode
    obtain ⟨lock, hlock, rfl⟩ := Option.map_eq_some_iff.mp h
    obtain ⟨hself, hothers⟩ := RecursiveLock.depth_acquire hlock
    refine ⟨.lock l k hcode (Function.update_self ..) fun m => ?_, fun v hv => ⟨?_, fun m => ?_⟩⟩
    · refine depth_update.trans ?_
      split
      · rename_i hm
        rw [hself, ← hm]
        rfl
      · rfl
    · exact Function.update_of_ne hv ..
    · refine depth_update.trans ?_
      split
      · rename_i hm
        rw [hothers v hv, ← hm]
        rfl
      · rfl
  · rename_i l k hcode
    obtain ⟨lock, hlock, rfl⟩ := Option.map_eq_some_iff.mp h
    obtain ⟨hself, hothers⟩ := RecursiveLock.depth_release hlock
    refine ⟨.unlock l k hcode (Function.update_self ..) fun m => ?_,
      fun v hv => ⟨?_, fun m => ?_⟩⟩
    · rcases eq_or_ne l m with hm | hm
      · rw [if_pos hm, ← hm]
        refine hself.trans (congrArg (· + 1) ?_)
        exact (depth_update.trans (if_pos rfl)).symm
      · rw [if_neg hm]
        exact (depth_update.trans (if_neg hm)).symm
    · exact Function.update_of_ne hv ..
    · refine depth_update.trans ?_
      split
      · rename_i hm
        rw [hothers v hv, ← hm]
        rfl
      · rfl
  · rename_i body k hcode
    obtain ⟨⟨shared, code⟩, hexec, rfl⟩ := Option.map_eq_some_iff.mp h
    exact ⟨.run body code k hcode hexec (Function.update_self ..) fun _ => rfl,
      fun v hv => ⟨Function.update_of_ne hv .., fun _ => rfl⟩⟩

omit [DecidableEq L] in
/-- A start: the other threads and all locks stay as they are. -/
theorem start_others {program : List (LockInstr L B)} (h : s.start t program = some s') :
    s.code t = [] ∧ s'.code t = program ∧ (∀ v, v ≠ t → s'.code v = s.code v) ∧
      ∀ v m, s'.depth v m = s.depth v m := by
  unfold start at h
  split at h
  · rename_i hcode
    cases h
    exact ⟨hcode, Function.update_self .., fun v hv => Function.update_of_ne hv .., fun _ _ => rfl⟩
  · cases h

end LockState

/-! ## Code and the locks around it -/

/-- The code of a scope that holds the lock `m`. -/
def uniqueGuard (m : L) (code : List (LockInstr L B)) : List (LockInstr L B) :=
  .lock m :: (code ++ [.unlock m])

/-- Code whose locks are scopes. -/
inductive Nested : List (LockInstr L B) → Prop
  | nil : Nested []
  | run (body : B) {k : List (LockInstr L B)} : Nested k → Nested (.run body :: k)
  | guard (m : L) {code k : List (LockInstr L B)} :
      Nested code → Nested k → Nested (uniqueGuard m code ++ k)

/-- The code holds `l`, `n` times now, until its end. -/
def Enclosed (l : L) : Nat → List (LockInstr L B) → Prop
  | 0, k => k = []
  | _ + 1, [] => False
  | n + 1, .lock m :: k => if m = l then Enclosed l (n + 2) k else Enclosed l (n + 1) k
  | n + 1, .unlock m :: k => if m = l then Enclosed l n k else Enclosed l (n + 1) k
  | n + 1, .run _ :: k => Enclosed l (n + 1) k

/-- The bodies of the code run while `l` is held; `n` is how often it is held now. -/
def Inside (l : L) : Nat → List (LockInstr L B) → Prop
  | _, [] => True
  | n, .lock m :: k => Inside l (if m = l then n + 1 else n) k
  | n, .unlock m :: k => Inside l (if m = l then n - 1 else n) k
  | n, .run _ :: k => 0 < n ∧ Inside l n k

omit [DecidableEq T] [DecidableEq L] in
theorem Nested.append {code k : List (LockInstr L B)} (hcode : Nested code) (hk : Nested k) :
    Nested (code ++ k) := by
  induction hcode with
  | nil => exact hk
  | run body _ ih => exact .run body ih
  | guard m hc _ _ ih =>
    rw [List.append_assoc]
    exact .guard m hc ih

/-- Scopes fit in front of code enclosed by `l`. -/
theorem Nested.enclosed {code : List (LockInstr L B)} (h : Nested code) {n : Nat}
    {k : List (LockInstr L B)} (hk : Enclosed l (n + 1) k) : Enclosed l (n + 1) (code ++ k) := by
  induction h generalizing n k with
  | nil => exact hk
  | run body _ ih => exact ih hk
  | guard m _ _ ihc ihk =>
    simp only [uniqueGuard, List.cons_append, List.append_assoc, List.nil_append, Enclosed]
    split
    · refine ihc ?_
      simp only [Enclosed, if_pos ‹m = l›]
      exact ihk hk
    · refine ihc ?_
      simp only [Enclosed, if_neg ‹¬ m = l›]
      exact ihk hk

/-- Scopes fit in front of code whose bodies run inside `l`. -/
theorem Nested.inside {code : List (LockInstr L B)} (h : Nested code) {n : Nat}
    {k : List (LockInstr L B)} (hk : Inside l (n + 1) k) : Inside l (n + 1) (code ++ k) := by
  induction h generalizing n k with
  | nil => exact hk
  | run body _ ih => exact ⟨Nat.succ_pos _, ih hk⟩
  | guard m _ _ ihc ihk =>
    simp only [uniqueGuard, List.cons_append, List.append_assoc, List.nil_append, Inside]
    split
    · refine ihc ?_
      simp only [Inside, if_pos ‹m = l›]
      exact ihk hk
    · refine ihc ?_
      simp only [Inside, if_neg ‹¬ m = l›]
      exact ihk hk

/-- A scope keeps its lock until its end. -/
theorem Nested.scope {code : List (LockInstr L B)} (h : Nested code) :
    Enclosed l 1 (code ++ [.unlock l]) :=
  h.enclosed (by simp [Enclosed])

theorem Inside.mono {n m : Nat} (hnm : n ≤ m) {k : List (LockInstr L B)} (h : Inside l n k) :
    Inside l m k := by
  induction k generalizing n m with
  | nil => exact True.intro
  | cons i k ih =>
    cases i with
    | lock j =>
      simp only [Inside] at h ⊢
      exact ih (by split <;> omega) h
    | unlock j =>
      simp only [Inside] at h ⊢
      exact ih (by split <;> omega) h
    | run body => exact ⟨Nat.lt_of_lt_of_le h.1 hnm, ih hnm h.2⟩

/-- The thread is idle, or before a program enclosed by `l`, or inside it. -/
def Outer (s : LockState T L B σ) (l : L) (t : T) : Prop :=
  (s.depth t l = 0 ∧ (s.code t = [] ∨ ∃ k, s.code t = .lock l :: k ∧ Enclosed l 1 k)) ∨
  (s.Holds t l ∧ Enclosed l (s.depth t l) (s.code t))

/-- What holds along a run without crossings; see the head of the file. -/
structure TwoLocks (s : LockState T L B σ) (t u : T) (a b : L) : Prop where
  first : Outer s a t
  second : Outer s b u
  inside : Inside b (s.depth t b) (s.code t)
  quiet : s.depth u b = 0 → ¬ s.Needs u a
  crossing : ¬ (s.Holds t a ∧ s.Needs t b ∧ s.Holds u b ∧ s.Needs u a)

theorem Outer.of_same (h : Outer s l t) (hdepth : s'.depth t l = s.depth t l)
    (hcode : s'.code t = s.code t) : Outer s' l t := by
  rcases h with ⟨hd, hc⟩ | ⟨hd, hc⟩
  · exact .inl ⟨hdepth.trans hd, hcode ▸ hc⟩
  · refine .inr ⟨?_, ?_⟩
    · rw [LockState.Holds, hdepth]
      exact hd
    · rw [hdepth, hcode]
      exact hc

theorem Outer.idle (h : Outer s l t) (hcode : s.code t = []) : s.depth t l = 0 := by
  rcases h with ⟨hd, -⟩ | ⟨hd, hc⟩
  · exact hd
  · obtain ⟨n, hn⟩ := Nat.exists_eq_succ_of_ne_zero (Nat.ne_of_gt hd)
    rw [hn, hcode] at hc
    exact hc.elim

/-- A lock that `t` takes. -/
theorem Outer.lock {m : L} {k : List (LockInstr L B)} (h : Outer s l t)
    (hcode : s.code t = .lock m :: k) (hcode' : s'.code t = k)
    (hdepth : s'.depth t l = if m = l then s.depth t l + 1 else s.depth t l) : Outer s' l t := by
  rcases h with ⟨hd, hc | ⟨k', hc, hk⟩⟩ | ⟨hd, hc⟩
  · rw [hcode] at hc
    cases hc
  · rw [hcode] at hc
    obtain ⟨hm, rfl⟩ := List.cons.inj hc
    obtain rfl := LockInstr.lock.inj hm
    simp only [↓reduceIte, hd] at hdepth
    refine .inr ⟨?_, ?_⟩
    · rw [LockState.Holds, hdepth]
      exact Nat.one_pos
    · rw [hdepth, hcode']
      exact hk
  · obtain ⟨n, hn⟩ := Nat.exists_eq_succ_of_ne_zero (Nat.ne_of_gt hd)
    rw [hn, hcode] at hc
    rw [hn] at hdepth
    simp only [Enclosed] at hc
    refine .inr ⟨?_, ?_⟩
    · rw [LockState.Holds, hdepth]
      split <;> exact Nat.succ_pos _
    · rw [hdepth, hcode']
      split at hc
      · rename_i hm
        rw [if_pos hm]
        exact hc
      · rename_i hm
        rw [if_neg hm]
        exact hc

omit [DecidableEq T] [DecidableEq L] in
/-- What is still to be taken after an instruction was to be taken before it. -/
theorem LockState.needs_cons {i : LockInstr L B} {k : List (LockInstr L B)}
    (hcode : s.code t = i :: k) (hcode' : s'.code t = k) (h : s'.Needs t l) : s.Needs t l := by
  rw [LockState.Needs, hcode]
  exact List.mem_cons_of_mem _ (hcode' ▸ h)

/-- Who holds a lock after a release held it before. -/
theorem LockState.holds_unlock {m : L}
    (hdepth : s.depth t l = if m = l then s'.depth t l + 1 else s'.depth t l)
    (h : s'.Holds t l) : s.Holds t l := by
  rw [LockState.Holds] at h
  rw [LockState.Holds, hdepth]
  split
  · exact Nat.succ_pos _
  · exact h

/-- A lock that `t` releases. -/
theorem Outer.unlock {m : L} {k : List (LockInstr L B)} (h : Outer s l t)
    (hcode : s.code t = .unlock m :: k) (hcode' : s'.code t = k)
    (hdepth : s.depth t l = if m = l then s'.depth t l + 1 else s'.depth t l) :
    Outer s' l t ∧ (s'.depth t l = 0 → k = []) := by
  rcases h with ⟨-, hc | ⟨k', hc, -⟩⟩ | ⟨hd, hc⟩
  · rw [hcode] at hc
    cases hc
  · rw [hcode] at hc
    cases hc
  · rw [hcode] at hc
    rw [LockState.Holds] at hd
    rcases eq_or_ne m l with hm | hm
    · rw [if_pos hm] at hdepth
      rw [hdepth] at hc
      simp only [Enclosed, hm, ↓reduceIte] at hc
      cases hn : s'.depth t l with
      | zero =>
        rw [hn] at hc
        have hk : k = [] := by simpa only [Enclosed] using hc
        exact ⟨.inl ⟨hn, .inl (hcode'.trans hk)⟩, fun _ => hk⟩
      | succ n =>
        refine ⟨.inr ⟨?_, ?_⟩, nofun⟩
        · rw [LockState.Holds, hn]
          exact Nat.succ_pos n
        · rwa [hcode']
    · rw [if_neg hm] at hdepth
      obtain ⟨n, hn⟩ := Nat.exists_eq_succ_of_ne_zero (Nat.ne_of_gt hd)
      rw [hn] at hc hdepth
      simp only [Enclosed, hm, ↓reduceIte] at hc
      refine ⟨.inr ⟨?_, ?_⟩, fun hzero => ?_⟩
      · rw [LockState.Holds, ← hdepth]
        exact Nat.succ_pos n
      · rwa [← hdepth, hcode']
      · omega

/-- A body of `t`: it runs under `l`. -/
theorem Outer.run {body : B} {k code : List (LockInstr L B)} (h : Outer s l t)
    (hcode : s.code t = .run body :: k) (hcode' : s'.code t = code ++ k)
    (hdepth : s'.depth t l = s.depth t l) (hnested : Nested code) :
    Outer s' l t ∧ s.Holds t l := by
  rcases h with ⟨-, hc | ⟨k', hc, -⟩⟩ | ⟨hd, hc⟩
  · rw [hcode] at hc
    cases hc
  · rw [hcode] at hc
    cases hc
  · obtain ⟨n, hn⟩ := Nat.exists_eq_succ_of_ne_zero (Nat.ne_of_gt hd)
    rw [hn, hcode] at hc
    refine ⟨.inr ⟨?_, ?_⟩, hd⟩
    · rw [LockState.Holds, hdepth]
      exact hd
    · rw [hdepth, hn, hcode']
      exact hnested.enclosed hc

namespace TwoLocks

/-- A deadlock is a crossing. -/
theorem not_deadlocked (h : TwoLocks s t u a b) : ¬ s.Deadlocked t u a b :=
  fun ⟨hta, htb, hub, hua⟩ =>
    h.crossing ⟨hta, List.mem_of_mem_head? htb.1, hub, List.mem_of_mem_head? hua.1⟩

/-- A step of `t`: it makes no crossing if `t` does not take `a`, while it does not hold it, at a
moment when `u` holds `b` with `a` still to take. -/
theorem step_first (h : TwoLocks s t u a b) (hne : t ≠ u)
    (hnested : ∀ body σ₁ σ₂ code, exec body choice σ₁ = some (σ₂, code) → Nested code)
    (hguard : (s.code t).head? = some (.lock a) → ¬ s.Holds t a →
      ¬ (s.Holds u b ∧ s.Needs u a))
    (hs : s.step exec t choice = some s') : TwoLocks s' t u a b := by
  obtain ⟨hmoved, hothers⟩ := LockState.step_moved hs
  obtain ⟨hcodeu, hdepthu⟩ := hothers u hne.symm
  have hsecond : Outer s' b u := h.second.of_same (hdepthu b) hcodeu
  have hneeds : s'.Needs u a ↔ s.Needs u a := by rw [LockState.Needs, hcodeu, LockState.Needs]
  have hholds : s'.Holds u b ↔ s.Holds u b := by rw [LockState.Holds, hdepthu, LockState.Holds]
  have hquiet : s'.depth u b = 0 → ¬ s'.Needs u a := by
    rw [hneeds, hdepthu b]
    exact h.quiet
  have hinside := h.inside
  cases hmoved with
  | lock l k before after depth =>
    rw [before] at hinside hguard
    refine ⟨h.first.lock before after (depth a), hsecond, ?_, hquiet, ?_⟩
    · rw [after, depth b]
      exact hinside
    · rw [hneeds, hholds]
      rintro ⟨hta, htb, hu⟩
      have htb' := LockState.needs_cons before after htb
      by_cases hold : s.Holds t a
      · exact h.crossing ⟨hold, htb', hu⟩
      · -- then this step took `a`
        rw [LockState.Holds, depth a] at hta
        split at hta
        · rename_i hl
          exact hguard (by rw [hl]; rfl) hold hu
        · exact hold hta
  | unlock l k before after depth =>
    rw [before] at hinside
    refine ⟨(h.first.unlock before after (depth a)).1, hsecond, ?_, hquiet, ?_⟩
    · simp only [Inside, depth b] at hinside
      rw [after]
      split at hinside <;> exact hinside
    · rw [hneeds, hholds]
      rintro ⟨hta, htb, hu⟩
      exact h.crossing ⟨LockState.holds_unlock (depth a) hta,
        LockState.needs_cons before after htb, hu⟩
  | run body code k before effect after depth =>
    rw [before] at hinside
    have hcode := hnested _ _ _ _ effect
    refine ⟨(h.first.run before after (depth a) hcode).1, hsecond, ?_, hquiet, ?_⟩
    · obtain ⟨n, hn⟩ := Nat.exists_eq_succ_of_ne_zero (Nat.ne_of_gt hinside.1)
      rw [after, depth b]
      rw [hn] at hinside ⊢
      exact hcode.inside hinside.2
    · -- a body of `t` runs under `b`, so `u` does not hold `b`
      rw [hholds]
      rintro ⟨-, -, hub, -⟩
      exact hne (RecursiveLock.depth_exclusive hinside.1 hub)

/-- A step of `u`: it makes no crossing if no body of `u` puts code that takes `a` in front, at a
moment when `t` holds `a` with `b` still to take. -/
theorem step_second (h : TwoLocks s t u a b) (hne : t ≠ u)
    (hnested : ∀ body σ₁ σ₂ code, exec body choice σ₁ = some (σ₂, code) → Nested code)
    (hguard : ∀ body k σ' code, s.code u = .run body :: k →
      exec body choice s.shared = some (σ', code) → .lock a ∈ code →
      ¬ (s.Holds t a ∧ s.Needs t b))
    (hs : s.step exec u choice = some s') : TwoLocks s' t u a b := by
  obtain ⟨hmoved, hothers⟩ := LockState.step_moved hs
  obtain ⟨hcodet, hdeptht⟩ := hothers t hne
  have hfirst : Outer s' a t := h.first.of_same (hdeptht a) hcodet
  have hinside : Inside b (s'.depth t b) (s'.code t) := by
    rw [hdeptht b, hcodet]
    exact h.inside
  have hneeds : s'.Needs t b ↔ s.Needs t b := by rw [LockState.Needs, hcodet, LockState.Needs]
  have hholds : s'.Holds t a ↔ s.Holds t a := by rw [LockState.Holds, hdeptht, LockState.Holds]
  cases hmoved with
  | lock l k before after depth =>
    have hmem : s'.Needs u a → s.Needs u a := LockState.needs_cons before after
    refine ⟨hfirst, h.second.lock before after (depth b), hinside, fun hzero hua => ?_, ?_⟩
    · refine h.quiet ?_ (hmem hua)
      rw [depth b] at hzero
      split at hzero
      · omega
      · exact hzero
    · rw [hneeds, hholds]
      rintro ⟨hta, htb, hub, hua⟩
      refine h.crossing ⟨hta, htb, ?_, hmem hua⟩
      exact Nat.pos_of_ne_zero fun hzero => h.quiet hzero (hmem hua)
  | unlock l k before after depth =>
    obtain ⟨hsecond, hend⟩ := h.second.unlock before after (depth b)
    refine ⟨hfirst, hsecond, hinside, fun hzero hua => ?_, ?_⟩
    · rw [LockState.Needs, after, hend hzero] at hua
      cases hua
    · rw [hneeds, hholds]
      rintro ⟨hta, htb, hub, hua⟩
      exact h.crossing ⟨hta, htb, LockState.holds_unlock (depth b) hub,
        LockState.needs_cons before after hua⟩
  | run body code k before effect after depth =>
    obtain ⟨hsecond, hub⟩ := h.second.run before after (depth b) (hnested _ _ _ _ effect)
    refine ⟨hfirst, hsecond, hinside, fun hzero => ?_, ?_⟩
    · rw [LockState.Holds, ← depth b, hzero] at hub
      exact absurd hub (Nat.lt_irrefl 0)
    · rw [hneeds, hholds]
      rintro ⟨hta, htb, -, hua⟩
      rw [LockState.Needs, after] at hua
      rcases List.mem_append.mp hua with hua | hua
      · exact hguard body k s'.shared code before effect hua ⟨hta, htb⟩
      · refine h.crossing ⟨hta, htb, hub, ?_⟩
        rw [LockState.Needs, before]
        exact List.mem_cons_of_mem _ hua

/-- `t` starts a program that takes `a` first and whose bodies run under `b`. -/
theorem start_first {k : List (LockInstr L B)} (h : TwoLocks s t u a b) (hne : t ≠ u)
    (henclosed : Enclosed a 1 k) (hinside : Inside b 0 (.lock a :: k))
    (hs : s.start t (.lock a :: k) = some s') : TwoLocks s' t u a b := by
  obtain ⟨hidle, hcode, hothers, hdepth⟩ := LockState.start_others hs
  have hzero := (hdepth t a).trans (h.first.idle hidle)
  refine ⟨.inl ⟨hzero, .inr ⟨k, hcode, henclosed⟩⟩,
    h.second.of_same (hdepth u b) (hothers u hne.symm), ?_, ?_, ?_⟩
  · rw [hcode]
    exact hinside.mono (Nat.zero_le _)
  · rw [hdepth, LockState.Needs, hothers u hne.symm]
    exact h.quiet
  · rintro ⟨hta, -⟩
    rw [LockState.Holds, hzero] at hta
    exact absurd hta (Nat.lt_irrefl 0)

/-- `u` starts a program that takes `b` first and does not take `a` itself. -/
theorem start_second {k : List (LockInstr L B)} (h : TwoLocks s t u a b) (hne : t ≠ u)
    (henclosed : Enclosed b 1 k) (hquiet : .lock a ∉ .lock b :: k)
    (hs : s.start u (.lock b :: k) = some s') : TwoLocks s' t u a b := by
  obtain ⟨hidle, hcode, hothers, hdepth⟩ := LockState.start_others hs
  have hzero := (hdepth u b).trans (h.second.idle hidle)
  refine ⟨h.first.of_same (hdepth t a) (hothers t hne),
    .inl ⟨hzero, .inr ⟨k, hcode, henclosed⟩⟩, ?_, fun _ => ?_, ?_⟩
  · rw [hdepth, hothers t hne]
    exact h.inside
  · rw [LockState.Needs, hcode]
    exact hquiet
  · rintro ⟨-, -, hub, -⟩
    rw [LockState.Holds, hzero] at hub
    exact absurd hub (Nat.lt_irrefl 0)

end TwoLocks

end

end Sheep
