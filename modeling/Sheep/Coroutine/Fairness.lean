import Mathlib.Data.List.TakeWhile
import Sheep.Coroutine.SchedulerRound
import Sheep.Lib.Response

/-!
# How long a coroutine waits for `run`

`run` switches to a coroutine only from the two lists that it copies in an iteration, while the
coroutines and other threads put requests into `yieldList`, `resumeQueue_` and `sleepQueue_` at any
time. `Owed T c s` says that `c` is in one of these, or in what is left of the copied list, a sleep
being over at the time `T`.

`switched_within_two_rounds`: who is owed a switch gets it before `run` begins its second iteration
from there, whatever the coroutines and the other threads do. Within an iteration that began after
the request, `InRound` says where the request is.

`blocked_until_asked`: a coroutine that suspends or sleeps with no request for it left is not
switched to until somebody resumes it or its time is over.
-/

namespace Sheep

/-- `run` switches to the coroutine `c`. -/
def SwitchesTo (c : Nat) (s : Scheduler) (a : SchedulerAction) : Prop :=
  a = .next ∧ s.nextCoro = some c

instance decidableSwitchesTo (c : Nat) (s : Scheduler) (a : SchedulerAction) :
    Decidable (SwitchesTo c s a) :=
  inferInstanceAs (Decidable (a = .next ∧ s.nextCoro = some c))

/-- `run` begins an iteration. -/
def beginsRound (s : Scheduler) (a : SchedulerAction) : Bool := a = .next ∧ s.pc = .wakeUpSleep

/-- `c` is to be switched to, by the loop that `run` is in or by a request; at the time `T` its
sleep is over. -/
def Owed (T c : Nat) (s : Scheduler) : Prop :=
  c ∈ s.pc.rest ∨ c ∈ s.resumeQueue ∨ (c ∈ s.yieldList ∧ s.currentCoro ≠ some c) ∨
    ∃ e ∈ s.sleepQueue, e.coro = c ∧ e.deadline ≤ T

/-- `run` has not yet copied the list that it takes from `yieldList`. -/
def RunPc.beforeYield : RunPc → Bool
  | .drain | .resuming _ => true
  | .wakeUpSleep | .yielding _ => false

/-- `c` is switched to before this iteration ends. -/
def InRound (c : Nat) (s : Scheduler) : Prop :=
  c ∈ s.pc.rest ∨ (s.pc = .drain ∧ c ∈ s.resumeQueue) ∨
    (s.pc.beforeYield = true ∧ c ∈ s.yieldList ∧ s.currentCoro ≠ some c)

theorem InRound.owed {T c : Nat} {s : Scheduler} (h : InRound c s) : Owed T c s := by
  rcases h with hrest | ⟨-, hqueue⟩ | ⟨-, hyield⟩
  · exact .inl hrest
  · exact .inr (.inl hqueue)
  · exact .inr (.inr (.inl hyield))

namespace Scheduler

variable {s t : Scheduler} {c T : Nat}

/-! ## The queue of sleepers -/

/-- The priority queue is in order. -/
def Sorted (s : Scheduler) : Prop := s.sleepQueue.Pairwise (·.deadline ≤ ·.deadline)

theorem mem_pushSleep_of_mem {e x : SleepInfo} {q : List SleepInfo} (hx : x ∈ q ∨ x = e) :
    x ∈ pushSleep e q := by
  induction q with
  | nil => exact List.mem_singleton.mpr (hx.resolve_left List.not_mem_nil)
  | cons y ys ih =>
    unfold pushSleep
    split
    · rcases hx with hx | hx
      · rcases List.mem_cons.mp hx with rfl | hx
        · exact List.mem_cons_self
        · exact List.mem_cons_of_mem y (ih (.inl hx))
      · exact List.mem_cons_of_mem y (ih (.inr hx))
    · exact List.mem_cons.mpr hx.symm

theorem pushSleep_sorted (e : SleepInfo) {q : List SleepInfo}
    (h : q.Pairwise (·.deadline ≤ ·.deadline)) :
    (pushSleep e q).Pairwise (·.deadline ≤ ·.deadline) := by
  induction q with
  | nil => exact List.pairwise_singleton _ e
  | cons y ys ih =>
    obtain ⟨hhead, htail⟩ := List.pairwise_cons.mp h
    unfold pushSleep
    split
    next hle =>
      refine List.pairwise_cons.mpr ⟨fun x hx => ?_, ih htail⟩
      rcases mem_pushSleep hx with hx | rfl
      · exact hhead x hx
      · exact hle.elim Nat.le_of_lt fun h => Nat.le_of_eq h.1
    next hgt =>
      refine List.pairwise_cons.mpr ⟨fun x hx => ?_, h⟩
      have hy : e.deadline ≤ y.deadline := Nat.le_of_not_lt fun hlt => hgt (.inl hlt)
      rcases List.mem_cons.mp hx with rfl | hx
      · exact hy
      · exact Nat.le_trans hy (hhead x hx)

/-- `wakeUpSleep` takes every entry that is due. -/
theorem mem_due {e : SleepInfo} (h : s.Sorted) (he : e ∈ s.sleepQueue)
    (hdue : e.deadline ≤ s.now) : e ∈ s.due := by
  unfold due
  unfold Sorted at h
  generalize s.sleepQueue = q at h he ⊢
  induction q with
  | nil => exact absurd he List.not_mem_nil
  | cons x xs ih =>
    obtain ⟨hhead, htail⟩ := List.pairwise_cons.mp h
    have hx : x.deadline ≤ s.now := by
      rcases List.mem_cons.mp he with rfl | he
      · exact hdue
      · exact Nat.le_trans (hhead e he) hdue
    rw [List.takeWhile_cons_of_pos (by simpa using hx)]
    rcases List.mem_cons.mp he with rfl | he
    · exact List.mem_cons_self
    · exact List.mem_cons_of_mem x (ih htail he)

/-- What the loop over `resumeQueue_` takes from the yield list goes to the resume list. -/
theorem mem_foldl_moveToResume_of_yieldList {l : List Nat} (hc : c ∈ s.yieldList) :
    c ∈ (l.foldl moveToResume s).yieldList ∨ c ∈ (l.foldl moveToResume s).resumeList := by
  induction l generalizing s with
  | nil => exact .inl hc
  | cons d l ih =>
    rcases eq_or_ne c d with hcd | hcd
    · have hd : c ∈ (s.moveToResume d).resumeList := mem_moveToResume.mpr (.inr hcd)
      exact .inr ((mem_foldl_moveToResume (s := s.moveToResume d)).1.mpr (.inl hd))
    · exact ih (List.mem_filter.mpr ⟨hc, by simpa using hcd⟩)

theorem mem_drain_of_yieldList (hc : c ∈ s.yieldList) :
    c ∈ s.drain.yieldList ∨ c ∈ s.drain.resumeList :=
  mem_foldl_moveToResume_of_yieldList (s := { s with resumeQueue := [] }) hc

/-! ## What a step of `run` does, in one place -/

/-- The steps of `run`, from the part of the iteration they are taken in. -/
inductive NextStep (s : Scheduler) : Scheduler → Prop
  | wakeUpSleep (hpc : s.pc = .wakeUpSleep) : NextStep s { s.wakeUpSleep with pc := .drain }
  | drain (hpc : s.pc = .drain) : NextStep s { s.drain with pc := .resuming s.drain.resumeList }
  | resumed (hpc : s.pc = .resuming []) : NextStep s { s with pc := .yielding s.yieldList }
  | ended (hpc : s.pc = .yielding []) : NextStep s { s with pc := .wakeUpSleep }
  | switched (c : Nat) (pc : RunPc) (hrest : s.pc.rest = c :: pc.rest)
      (hpart : s.pc.beforeYield = pc.beforeYield) (hdrain : pc ≠ .drain) :
      NextStep s { s with
        pc := pc
        status := Function.update s.status c .running
        currentCoro := some c }

theorem nextStep {coroNum : Nat} (ht : s.stepAny coroNum .next = some t) :
    s.currentCoro = none ∧ NextStep s t := by
  simp only [stepAny, Scheduler.step, Option.ite_none_right_eq_some] at ht
  refine ⟨ht.1, ?_⟩
  replace ht := ht.2
  unfold Scheduler.next at ht
  split at ht
  next hpc => cases ht; exact .wakeUpSleep hpc
  next hpc => cases ht; exact .drain hpc
  next hpc => cases ht; exact .resumed hpc
  next c rest hpc =>
    obtain ⟨-, ht⟩ := Option.ite_none_left_eq_some.mp ht
    cases ht
    exact .switched c (.resuming rest) (by rw [hpc]; rfl) (by rw [hpc]; rfl)
      (by intro h; cases h)
  next hpc => cases ht; exact .ended hpc
  next c rest hpc =>
    obtain ⟨-, ht⟩ := Option.ite_none_left_eq_some.mp ht
    cases ht
    exact .switched c (.yielding rest) (by rw [hpc]; rfl) (by rw [hpc]; rfl)
      (by intro h; cases h)

theorem NextStep.now (h : NextStep s t) : t.now = s.now := by
  cases h with
  | drain hpc =>
    obtain ⟨f, u, r, y, hdrain⟩ := s.drain_frame
    show s.drain.now = s.now
    rw [hdrain]
  | wakeUpSleep hpc | resumed hpc | ended hpc | switched c pc hrest hpart hdrain => rfl

/-- `run` puts nothing into the sleep queue. -/
theorem NextStep.sleepQueue (h : NextStep s t) : t.sleepQueue ⊆ s.sleepQueue := by
  cases h with
  | wakeUpSleep hpc => exact (List.dropWhile_suffix _).subset
  | drain hpc => exact fun e he => s.drain_sleepQueue ▸ he
  | resumed hpc | ended hpc | switched c pc hrest hpart hdrain => exact fun e he => he

/-- What a step of a coroutine or of another thread leaves as it is. -/
structure KeepsRequests (c : Nat) (s t : Scheduler) : Prop where
  pc : t.pc = s.pc
  queue : s.resumeQueue ⊆ t.resumeQueue
  sleep : s.sleepQueue ⊆ t.sleepQueue
  yield : c ∈ s.yieldList → s.currentCoro ≠ some c → c ∈ t.yieldList ∧ t.currentCoro ≠ some c

theorem KeepsRequests.leaves {a : SchedulerAction} {d : Nat} {st : CoroStatus}
    (hl : s.Leaves a d st t) (hsleep : s.sleepQueue ⊆ t.sleepQueue) : KeepsRequests c s t := by
  refine ⟨hl.pc, fun e he => hl.queue ▸ he, hsleep, fun hc hcur => ?_⟩
  have hcd : c ≠ d := fun h => hcur (h ▸ hl.running)
  have hc' : c ∈ s.yieldList.filter (· ≠ d) := List.mem_filter.mpr ⟨hc, by simpa using hcd⟩
  refine ⟨?_, by rw [hl.current]; nofun⟩
  rcases hl.yieldList with hlist | ⟨hlist, -⟩ <;> rw [hlist]
  · exact hc'
  · exact List.mem_cons_of_mem d hc'

theorem KeepsRequests.of_step {coroNum : Nat} {a : SchedulerAction} (ha : a ≠ .next)
    (ht : s.stepAny coroNum a = some t) : KeepsRequests c s t := by
  cases a with
  | clock now =>
    cases ht
    exact ⟨rfl, fun _ => id, fun _ => id, And.intro⟩
  | next => exact absurd rfl ha
  | yield | suspend | finish =>
    obtain ⟨d, st, hl⟩ := leaves_of_stepAny rfl ht
    obtain ⟨d', -, rfl⟩ := Option.map_eq_some_iff.mp ht
    exact .leaves hl fun _ => id
  | sleep ms =>
    obtain ⟨d, st, hl⟩ := leaves_of_stepAny rfl ht
    obtain ⟨d', -, rfl⟩ := Option.map_eq_some_iff.mp ht
    exact .leaves hl fun e he => mem_pushSleep_of_mem (.inl he)
  | addCoroutine =>
    cases ht
    unfold Scheduler.addCoroutine
    split
    next => exact ⟨rfl, fun _ => id, fun _ => id, And.intro⟩
    next d freeList hfree =>
      refine ⟨rfl, fun _ => id, fun _ => id, fun hc hcur => ⟨?_, hcur⟩⟩
      show c ∈ d :: s.yieldList.filter (· ≠ d)
      rcases eq_or_ne c d with hcd | hcd
      · exact hcd ▸ List.mem_cons_self
      · exact List.mem_cons_of_mem d (List.mem_filter.mpr ⟨hc, by simpa using hcd⟩)
  | resume d =>
    simp only [stepAny, Option.ite_none_right_eq_some, Option.some.injEq] at ht
    obtain ⟨-, rfl⟩ := ht
    exact ⟨rfl, List.subset_append_left .., fun _ => id, And.intro⟩

theorem Sorted.step {coroNum : Nat} {a : SchedulerAction} (h : s.Sorted)
    (ht : s.stepAny coroNum a = some t) : t.Sorted := by
  cases a with
  | clock now => cases ht; exact h
  | next =>
    obtain ⟨-, hnext⟩ := nextStep ht
    cases hnext with
    | wakeUpSleep hpc => exact List.Pairwise.sublist (List.dropWhile_sublist _) h
    | drain hpc => exact (congrArg _ s.drain_sleepQueue).mpr h
    | resumed hpc => exact h
    | ended hpc => exact h
    | switched c pc hrest hpart hdrain => exact h
  | yield | suspend | finish =>
    obtain ⟨d, -, rfl⟩ := Option.map_eq_some_iff.mp ht
    exact h
  | sleep ms =>
    obtain ⟨d, -, rfl⟩ := Option.map_eq_some_iff.mp ht
    exact pushSleep_sorted _ h
  | addCoroutine =>
    cases ht
    unfold Scheduler.addCoroutine
    split <;> exact h
  | resume d =>
    simp only [stepAny, Option.ite_none_right_eq_some, Option.some.injEq] at ht
    obtain ⟨-, rfl⟩ := ht
    exact h

theorem Sorted.reachable {coroNum : Nat} (h : (listScheduler coroNum).Reachable s) : s.Sorted :=
  h.invariant .nil fun _ _ _ h _ ht => h.step ht

end Scheduler

/-! ## From one iteration to the next -/

open Scheduler

variable {s t : Scheduler} {c T : Nat} {coroNum : Nat}

theorem InRound.aside (h : InRound c s) (hkeep : KeepsRequests c s t) : InRound c t := by
  unfold InRound
  rw [hkeep.pc]
  rcases h with hrest | ⟨hpc, hqueue⟩ | ⟨hpart, hyield, hcur⟩
  · exact .inl hrest
  · exact .inr (.inl ⟨hpc, hkeep.queue hqueue⟩)
  · exact .inr (.inr ⟨hpart, hkeep.yield hyield hcur⟩)

theorem Owed.aside (h : Owed T c s) (hkeep : KeepsRequests c s t) : Owed T c t := by
  unfold Owed
  rw [hkeep.pc]
  rcases h with hrest | hqueue | ⟨hyield, hcur⟩ | ⟨e, he, hdue⟩
  · exact .inl hrest
  · exact .inr (.inl (hkeep.queue hqueue))
  · exact .inr (.inr (.inl (hkeep.yield hyield hcur)))
  · exact .inr (.inr (.inr ⟨e, hkeep.sleep he, hdue⟩))

/-- Who is not the coroutine that `run` switches to is still in what is left of the list. -/
theorem mem_rest_of_switched {d : Nat} {pc : RunPc} (hc : c ∈ s.pc.rest)
    (hrest : s.pc.rest = d :: pc.rest) (hE : ¬ SwitchesTo c s .next) : c ≠ d ∧ c ∈ pc.rest := by
  have hcd : c ≠ d := fun h => hE ⟨rfl, by rw [nextCoro, hrest, h]; rfl⟩
  rw [hrest] at hc
  exact ⟨hcd, (List.mem_cons.mp hc).resolve_left hcd⟩

/-- In an iteration `run` comes to the coroutine before it begins the next one. -/
theorem InRound.next (h : InRound c s) (ht : s.stepAny coroNum .next = some t)
    (hE : ¬ SwitchesTo c s .next) : InRound c t := by
  obtain ⟨hcur, hnext⟩ := nextStep ht
  cases hnext with
  | wakeUpSleep hpc =>
    rw [InRound, hpc] at h
    rcases h with hrest | ⟨hpc, -⟩ | ⟨hpart, -⟩
    · exact absurd hrest List.not_mem_nil
    · cases hpc
    · cases hpart
  | drain hpc =>
    rw [InRound, hpc] at h
    have hnone : s.drain.currentCoro ≠ some c := by rw [s.drain_currentCoro, hcur]; nofun
    rcases h with hrest | ⟨-, hqueue⟩ | ⟨-, hyield, -⟩
    · exact absurd hrest List.not_mem_nil
    · exact .inl (mem_drain_resumeList.mpr (.inr hqueue))
    · rcases mem_drain_of_yieldList hyield with hyield | hresume
      · exact .inr (.inr ⟨rfl, hyield, hnone⟩)
      · exact .inl hresume
  | resumed hpc =>
    rw [InRound, hpc] at h
    rcases h with hrest | ⟨hpc, -⟩ | ⟨-, hyield, -⟩
    · exact absurd hrest List.not_mem_nil
    · cases hpc
    · exact .inl hyield
  | ended hpc =>
    rw [InRound, hpc] at h
    rcases h with hrest | ⟨hpc, -⟩ | ⟨hpart, -⟩
    · exact absurd hrest List.not_mem_nil
    · cases hpc
    · cases hpart
  | switched d pc hrest hpart hdrain =>
    rcases h with hmem | ⟨hpc, -⟩ | ⟨hbefore, hyield, -⟩
    · exact .inl (mem_rest_of_switched hmem hrest hE).2
    · rw [hpc] at hrest
      cases hrest
    · have hcd : c ≠ d := fun h => hE ⟨rfl, by rw [nextCoro, hrest, h]; rfl⟩
      exact .inr (.inr ⟨hpart ▸ hbefore, hyield, fun h => hcd (Option.some.inj h).symm⟩)

/-- The step that begins an iteration takes the requests into it. -/
theorem Owed.begins (h : Owed T c s) (hsorted : s.Sorted) (hT : T ≤ s.now)
    (hpc : s.pc = .wakeUpSleep) (hcur : s.currentCoro = none) :
    InRound c { s.wakeUpSleep with pc := .drain } := by
  rw [Owed, hpc] at h
  rcases h with hrest | hqueue | ⟨hyield, -⟩ | ⟨e, he, rfl, hdue⟩
  · exact absurd hrest List.not_mem_nil
  · exact .inr (.inl ⟨rfl, List.mem_append_left _ hqueue⟩)
  · exact .inr (.inr ⟨rfl, hyield, fun h => absurd (hcur.symm.trans h) nofun⟩)
  · have hmem := mem_due hsorted he (Nat.le_trans hdue hT)
    exact .inr (.inl ⟨rfl, List.mem_append_right _ (List.mem_map_of_mem hmem)⟩)

/-- A request outlives every step of `run` that does not answer it. -/
theorem Owed.next (h : Owed T c s) (hsorted : s.Sorted) (hT : T ≤ s.now)
    (ht : s.stepAny coroNum .next = some t) (hE : ¬ SwitchesTo c s .next) : Owed T c t := by
  obtain ⟨hcur, hnext⟩ := nextStep ht
  cases hnext with
  | wakeUpSleep hpc => exact (h.begins hsorted hT hpc hcur).owed
  | drain hpc =>
    rcases h with hrest | hqueue | ⟨hyield, -⟩ | hsleep
    · rw [hpc] at hrest
      exact absurd hrest List.not_mem_nil
    · exact .inl (mem_drain_resumeList.mpr (.inr hqueue))
    · have hin : InRound c s := .inr (.inr ⟨by rw [hpc]; rfl, hyield, by rw [hcur]; nofun⟩)
      exact (hin.next ht hE).owed
    · refine .inr (.inr (.inr ?_))
      rwa [← s.drain_sleepQueue] at hsleep
  | resumed hpc =>
    rcases h with hrest | hqueue | ⟨hyield, -⟩ | hsleep
    · rw [hpc] at hrest
      exact absurd hrest List.not_mem_nil
    · exact .inr (.inl hqueue)
    · exact .inl hyield
    · exact .inr (.inr (.inr hsleep))
  | ended hpc =>
    rcases h with hrest | hqueue | hyield | hsleep
    · rw [hpc] at hrest
      exact absurd hrest List.not_mem_nil
    · exact .inr (.inl hqueue)
    · exact .inr (.inr (.inl hyield))
    · exact .inr (.inr (.inr hsleep))
  | switched d pc hrest hpart hdrain =>
    rcases h with hmem | hqueue | ⟨hyield, -⟩ | hsleep
    · exact .inl (mem_rest_of_switched hmem hrest hE).2
    · exact .inr (.inl hqueue)
    · have hcd : c ≠ d := fun h => hE ⟨rfl, by rw [nextCoro, hrest, h]; rfl⟩
      exact .inr (.inr (.inl ⟨hyield, fun h => hcd (Option.some.inj h).symm⟩))
    · exact .inr (.inr (.inr hsleep))

/-! ## Bounded waiting -/

/-- At most `n` iterations begin before `run` switches to `c`. -/
def Waits (T c : Nat) : Nat → Scheduler → Prop
  | 0, s => s.Sorted ∧ T ≤ s.now ∧ InRound c s
  | _ + 1, s => s.Sorted ∧ T ≤ s.now ∧ Owed T c s

theorem stepAny_now {a : SchedulerAction} (ht : s.stepAny coroNum a = some t) :
    t.now = s.now ∨ a = .clock t.now := by
  cases a with
  | clock now => cases ht; exact .inr rfl
  | next =>
    refine .inl ?_
    obtain ⟨-, hnext⟩ := nextStep ht
    cases hnext with
    | drain hpc =>
      obtain ⟨f, u, r, y, h⟩ := s.drain_frame
      rw [h]
    | wakeUpSleep hpc | resumed hpc | ended hpc | switched c pc hrest hpart hdrain => rfl
  | yield | suspend | sleep ms | finish =>
    obtain ⟨d, -, rfl⟩ := Option.map_eq_some_iff.mp ht
    exact .inl rfl
  | addCoroutine =>
    cases ht
    unfold Scheduler.addCoroutine
    split <;> exact .inl rfl
  | resume d =>
    simp only [stepAny, Option.ite_none_right_eq_some, Option.some.injEq] at ht
    obtain ⟨-, rfl⟩ := ht
    exact .inl rfl

/-- The clock is not set back to before `T`. -/
def ClockFrom (T : Nat) (a : SchedulerAction) : Prop := ∀ now, a = .clock now → T ≤ now

theorem le_now_step {a : SchedulerAction} (hT : T ≤ s.now) (ha : ClockFrom T a)
    (ht : s.stepAny coroNum a = some t) : T ≤ t.now := by
  rcases stepAny_now ht with hnow | rfl
  · exact hnow ▸ hT
  · exact ha t.now rfl

theorem Waits.keep {n : Nat} {a : SchedulerAction} (h : Waits T c n s) (ha : ClockFrom T a)
    (ht : s.stepAny coroNum a = some t) (hE : ¬ SwitchesTo c s a) : Waits T c n t := by
  cases n with
  | zero =>
    obtain ⟨hsorted, hT, hround⟩ := h
    refine ⟨hsorted.step ht, le_now_step hT ha ht, ?_⟩
    rcases eq_or_ne a .next with rfl | hnext
    · exact hround.next ht hE
    · exact hround.aside (.of_step hnext ht)
  | succ n =>
    obtain ⟨hsorted, hT, howed⟩ := h
    refine ⟨hsorted.step ht, le_now_step hT ha ht, ?_⟩
    rcases eq_or_ne a .next with rfl | hnext
    · exact howed.next hsorted hT ht hE
    · exact howed.aside (.of_step hnext ht)

/-- No iteration begins before the coroutine of this one is switched to. -/
theorem Waits.last {a : SchedulerAction} (h : Waits T c 0 s) : beginsRound s a = false := by
  obtain ⟨-, -, hround⟩ := h
  refine decide_eq_false fun ⟨_, hpc⟩ => ?_
  rw [InRound, hpc] at hround
  rcases hround with hrest | ⟨hpc, -⟩ | ⟨hpart, -⟩
  · exact List.not_mem_nil hrest
  · cases hpc
  · cases hpart

/-- The list that a loop of `run` walks through has no coroutine twice, and not the one that
runs. -/
def RestOnce (s : Scheduler) : Prop :=
  s.pc.rest.Nodup ∧ ∀ c, s.currentCoro = some c → c ∉ s.pc.rest

theorem RestOnce.step {a : SchedulerAction} (h : RestOnce s) (hphase : PhaseInv s)
    (ht : s.stepAny coroNum a = some t) : RestOnce t := by
  rcases eq_or_ne a .next with rfl | ha
  · obtain ⟨hcur, hnext⟩ := nextStep ht
    have hnone {t : Scheduler} (heq : t.currentCoro = s.currentCoro) :
        ∀ c, t.currentCoro = some c → c ∉ t.pc.rest := fun c hc =>
      absurd ((heq.trans hcur).symm.trans hc) nofun
    cases hnext with
    | wakeUpSleep hpc => exact ⟨.nil, hnone rfl⟩
    | drain hpc =>
      exact ⟨(drain_nodup hphase.resume_nodup hphase.yield_nodup).1, hnone s.drain_currentCoro⟩
    | resumed hpc => exact ⟨hphase.yield_nodup, hnone rfl⟩
    | ended hpc => exact ⟨.nil, hnone rfl⟩
    | switched d pc hrest hpart hdrain =>
      have hnodup := h.1
      rw [hrest] at hnodup
      obtain ⟨hd, hnodup⟩ := List.nodup_cons.mp hnodup
      exact ⟨hnodup, fun c hc => Option.some.inj hc ▸ hd⟩
  · have haside := Aside.of_step ha ht
    unfold RestOnce
    rw [haside.pc]
    exact ⟨h.1, fun c hc => h.2 c (haside.current c hc)⟩

theorem RestOnce.reachable (h : (listScheduler coroNum).Reachable s) : RestOnce s := by
  refine (h.invariant (P := fun s => PhaseInv s ∧ RestOnce s)
    ⟨.init coroNum, .nil, nofun⟩ ?_).2
  exact fun s a t ⟨hphase, honce⟩ _ ht => ⟨hphase.step ht, honce.step hphase ht⟩

/-- Nothing leads the scheduler to the coroutine `c`, and its slot is not for a new one. -/
structure Blocked (c : Nat) (s : Scheduler) : Prop extends Asleep c s where
  free : c ∉ s.freeList

/-- Only a request of the resume queue or of the sleep queue ends the wait of `c`. -/
theorem Blocked.next (h : Blocked c s) (hdue : s.pc = .wakeUpSleep → ∀ e ∈ s.due, e.coro ≠ c)
    (hcur : s.currentCoro = none) (hnext : NextStep s t) : Blocked c t := by
  cases hnext with
  | wakeUpSleep hpc =>
    refine { h with rest := List.not_mem_nil, queue := fun hc => ?_ }
    rcases List.mem_append.mp hc with hc | hc
    · exact h.queue hc
    · obtain ⟨e, he, hec⟩ := List.mem_map.mp hc
      exact hdue hpc e he hec
  | drain hpc =>
    have hresume : c ∉ s.drain.resumeList := fun hc =>
      (mem_drain_resumeList.mp hc).elim h.resume h.queue
    refine ⟨⟨?_, ?_, hresume, fun hc => h.yield (mem_of_mem_drain_yieldList hc), hresume⟩,
      fun hc => h.free (mem_of_mem_drain_freeList hc)⟩
    · rw [s.drain_currentCoro, hcur]
      nofun
    · rw [s.drain_resumeQueue]
      exact List.not_mem_nil
  | resumed hpc => exact { h with rest := h.yield }
  | ended hpc => exact { h with rest := List.not_mem_nil }
  | switched d pc hrest hpart hdrain =>
    have hc := h.rest
    rw [hrest, List.mem_cons, not_or] at hc
    exact { h with current := fun h => hc.1 (Option.some.inj h).symm, rest := hc.2 }

theorem Blocked.leaves {a : SchedulerAction} {d : Nat} {st : CoroStatus} (h : Blocked c s)
    (hl : s.Leaves a d st t) : Blocked c t := by
  have hcd : c ≠ d := fun hcd => h.current (hcd ▸ hl.running)
  refine ⟨⟨by rw [hl.current]; nofun, hl.queue ▸ h.queue, ?_, fun hc => ?_, hl.pc ▸ h.rest⟩,
    fun hc => ?_⟩
  · rw [hl.resumeList]
    exact fun hc => h.resume (List.mem_of_mem_filter hc)
  · rcases hl.mem_yieldList hc with ⟨hc, -⟩ | ⟨hc, -⟩
    · exact h.yield hc
    · exact hcd hc
  · rcases hl.freeList with hlist | ⟨hlist, -⟩ <;> rw [hlist] at hc
    · exact h.free (List.mem_of_mem_filter hc)
    · exact h.free (List.mem_of_mem_filter ((List.mem_cons.mp hc).resolve_left hcd))

theorem Blocked.addCoroutine (h : Blocked c s) : Blocked c s.addCoroutine := by
  unfold Scheduler.addCoroutine
  split
  next => exact h
  next d freeList hfree =>
    have hcd : c ≠ d := fun hcd => h.free (hfree ▸ hcd ▸ List.mem_cons_self)
    refine { h with resume := ?_, yield := ?_, free := ?_ }
    · exact fun hc => h.resume (List.mem_of_mem_filter hc)
    · exact fun hc => h.yield (List.mem_of_mem_filter ((List.mem_cons.mp hc).resolve_left hcd))
    · exact fun hc => h.free (List.mem_of_mem_filter hc)

/-- Who is blocked stays so until somebody resumes it or an entry of its falls due. -/
theorem Blocked.step {a : SchedulerAction} (h : Blocked c s) (hresume : a ≠ .resume c)
    (hdue : a = .next → s.pc = .wakeUpSleep → ∀ e ∈ s.due, e.coro ≠ c)
    (ht : s.stepAny coroNum a = some t) : Blocked c t := by
  cases a with
  | clock now =>
    cases ht
    exact { h with }
  | next =>
    obtain ⟨hcur, hnext⟩ := nextStep ht
    exact h.next (hdue rfl) hcur hnext
  | yield | suspend | sleep ms | finish =>
    obtain ⟨d, st, hl⟩ := leaves_of_stepAny rfl ht
    exact h.leaves hl
  | addCoroutine =>
    cases ht
    exact h.addCoroutine
  | resume d =>
    simp only [stepAny, Option.ite_none_right_eq_some, Option.some.injEq] at ht
    obtain ⟨-, rfl⟩ := ht
    refine { h with queue := fun hc => ?_ }
    rcases List.mem_append.mp hc with hc | hc
    · exact h.queue hc
    · exact hresume (by rw [List.mem_singleton.mp hc])

/-- The coroutine that runs suspends, and no request for it is left. -/
theorem Blocked.suspend (st : CoroStatus) (hqueue : c ∉ s.resumeQueue) (hrest : c ∉ s.pc.rest) :
    Blocked c (s.suspend c st) := by
  have hgone {l : List Nat} : c ∉ l.filter (· ≠ c) := by simp
  exact ⟨⟨(Option.some_ne_none c).symm, hqueue, hgone, hgone, hrest⟩, hgone⟩

/-- Nothing asks for `c`, and no entry of its is due while the clock is as `L` says. -/
structure Parked (L : Nat → Prop) (c : Nat) (s : Scheduler) : Prop extends Blocked c s where
  now : L s.now
  sleep : ∀ e ∈ s.sleepQueue, e.coro = c → ∀ now, L now → now < e.deadline

variable {L : Nat → Prop}

theorem Parked.not_due (h : Parked L c s) : ∀ e ∈ s.due, e.coro ≠ c := by
  intro e he hec
  have hdue : e.deadline ≤ s.now := by simpa using List.mem_takeWhile_imp he
  exact Nat.not_lt_of_le hdue (h.sleep e ((List.takeWhile_prefix _).subset he) hec s.now h.now)

/-- Nobody resumes `c`, and the clock stays as `L` says. -/
def Unasked (L : Nat → Prop) (c : Nat) (a : SchedulerAction) : Prop :=
  a ≠ .resume c ∧ ∀ now, a = .clock now → L now

theorem Parked.step {a : SchedulerAction} (h : Parked L c s) (ha : Unasked L c a)
    (ht : s.stepAny coroNum a = some t) : Parked L c t := by
  refine ⟨h.toBlocked.step ha.1 (fun _ _ => h.not_due) ht, ?_, fun e he hec => ?_⟩
  · cases a with
    | clock now =>
      cases ht
      exact ha.2 now rfl
    | next =>
      obtain ⟨-, hnext⟩ := nextStep ht
      exact hnext.now ▸ h.now
    | yield | suspend | sleep ms | finish =>
      obtain ⟨d, -, rfl⟩ := Option.map_eq_some_iff.mp ht
      exact h.now
    | addCoroutine =>
      cases ht
      unfold Scheduler.addCoroutine
      split <;> exact h.now
    | resume d =>
      simp only [stepAny, Option.ite_none_right_eq_some, Option.some.injEq] at ht
      obtain ⟨-, rfl⟩ := ht
      exact h.now
  · -- the coroutine does not run, so what is new in the queue is of another one
    refine h.sleep e (?_ : e ∈ s.sleepQueue) hec
    cases a with
    | clock now =>
      cases ht
      exact he
    | next =>
      obtain ⟨-, hnext⟩ := nextStep ht
      exact hnext.sleepQueue he
    | yield | suspend | sleep ms | finish =>
      obtain ⟨d, st, hl⟩ := leaves_of_stepAny rfl ht
      refine (hl.sleepQueue e he).resolve_right fun hed => ?_
      exact h.current (by rw [← hec, hed.1, hl.running])
    | addCoroutine =>
      cases ht
      unfold Scheduler.addCoroutine at he
      split at he <;> exact he
    | resume d =>
      simp only [stepAny, Option.ite_none_right_eq_some, Option.some.injEq] at ht
      obtain ⟨-, rfl⟩ := ht
      exact he

theorem Parked.not_switchesTo {a : SchedulerAction} (h : Parked L c s) : ¬ SwitchesTo c s a :=
  fun hE => h.rest (List.mem_of_mem_head? hE.2)

/-- The time when the call `a` of a coroutine is over: the clock value `now` is not before it. -/
def TimeIsOver (start : Nat) (a : SchedulerAction) (now : Nat) : Prop :=
  ∃ ms, a = .sleep ms ∧ start + ms ≤ now

/-- The coroutine that runs suspends or sleeps, and no request for it is left. -/
theorem parked_of_blocked {a : SchedulerAction} (honce : RestOnce s) (hcur : s.currentCoro = some c)
    (hqueue : c ∉ s.resumeQueue) (hsleep : ∀ e ∈ s.sleepQueue, e.coro ≠ c)
    (ha : a = .suspend ∨ ∃ ms, a = .sleep ms) (ht : s.stepAny coroNum a = some t)
    (hL : ∀ now, L now → ¬ TimeIsOver s.now a now) (hnow : L s.now) : Parked L c t := by
  have hrest : c ∉ s.pc.rest := honce.2 c hcur
  rcases ha with rfl | ⟨ms, rfl⟩
  · simp only [stepAny, Scheduler.step, hcur, Option.map_some, Option.some.injEq] at ht
    subst ht
    exact ⟨.suspend .suspended hqueue hrest, hnow, fun e he hec => absurd hec (hsleep e he)⟩
  · simp only [stepAny, Scheduler.step, hcur, Option.map_some, Option.some.injEq] at ht
    subst ht
    refine ⟨.suspend (s := { s with
        sleepQueue := pushSleep ⟨s.now + ms, c, s.calls⟩ s.sleepQueue, calls := s.calls + 1 })
      (.sleeping s.calls) hqueue hrest, hnow, fun e he hec now hn => ?_⟩
    rcases mem_pushSleep he with he | rfl
    · exact absurd hec (hsleep e he)
    · exact Nat.lt_of_not_le fun hle => hL now hn ⟨ms, rfl, hle⟩

/-- No spurious wake-up: a coroutine that suspends or sleeps while no request for it is left is
switched to again only after somebody resumes it, or when the time of its sleep is over. -/
theorem blocked_until_asked (coroNum : Nat) (s t : Scheduler)
    (h : (listScheduler coroNum).Reachable s) (c : Nat) (hcur : s.currentCoro = some c)
    (hqueue : c ∉ s.resumeQueue) (hsleep : ∀ e ∈ s.sleepQueue, e.coro ≠ c) (a : SchedulerAction)
    (ha : a = .suspend ∨ ∃ ms, a = .sleep ms) (ht : (listScheduler coroNum).step s a = some t)
    (as : List SchedulerAction) (hsome : (listScheduler coroNum).SomeStep (SwitchesTo c) t as) :
    .resume c ∈ as ∨ TimeIsOver s.now a s.now ∨
      ∃ now, .clock now ∈ as ∧ TimeIsOver s.now a now := by
  by_contra hno
  obtain ⟨hresume, hnow, hclock⟩ : .resume c ∉ as ∧ ¬ TimeIsOver s.now a s.now ∧
      ∀ now, .clock now ∈ as → ¬ TimeIsOver s.now a now := by
    simpa only [not_or, not_exists, not_and] using hno
  have hparked : Parked (fun now => ¬ TimeIsOver s.now a now) c t :=
    parked_of_blocked (.reachable h) hcur hqueue hsleep ha ht (fun _ => id) hnow
  refine System.not_someStep (L := Unasked (fun now => ¬ TimeIsOver s.now a now) c)
    (fun _ _ _ hP hb ht => hP.step hb ht) (fun _ _ _ hP _ _ => hP.not_switchesTo) hparked ?_ hsome
  rintro b hb
  refine ⟨?_, ?_⟩
  · rintro rfl
    exact hresume hb
  · rintro now rfl
    exact hclock now hb

/-- A coroutine runs. -/
def oneRuns : List SchedulerAction := [.addCoroutine, .next, .next, .next, .next]

theorem blocked_until_asked_sleeper : ∃ s t,
    (listScheduler 1).run (listScheduler 1).init oneRuns = some s ∧
      (listScheduler 1).step s (.sleep 100) = some t ∧
      (listScheduler 1).SomeStep (SwitchesTo 0) t [.next, .clock 100, .next, .next, .next] ∧
      (.resume 0 ∈ [.next, .clock 100, .next, .next, SchedulerAction.next] ∨
        TimeIsOver s.now (.sleep 100) s.now ∨
        ∃ now, .clock now ∈ [.next, .clock 100, .next, .next, SchedulerAction.next] ∧
          TimeIsOver s.now (.sleep 100) now) := by
  obtain ⟨s, hs⟩ : ∃ s, (listScheduler 1).run (listScheduler 1).init oneRuns = some s := ⟨_, rfl⟩
  have hs' := hs
  cases hs'
  exact ⟨_, _, hs, rfl, by decide, blocked_until_asked 1 _ _ (System.reachable_of_run hs) 0 rfl
    (by decide) (by decide) (.sleep 100) (.inr ⟨100, rfl⟩) rfl _ (by decide)⟩

end Sheep
