import Sheep.Coroutine.LinkedScheduler
import Sheep.Coroutine.OneCoro

/-!
# The slot of a coroutine that ends

A coroutine ends in two steps. `endFunc_` puts its slot into the free list, while it still runs on
its stack, and then it switches back to `run` for the last time. `slotReuse coroNum` has the two
apart, with `addCoroutine` calls of other threads at any time, also in between: `endFunc_` does not
take `mtx_`.

`SlotLaw`: `addCoroutine` takes only a slot whose coroutine has left its stack, so that
`registerFunc` overwrites nothing that is still in use. `slotLaw_iff`: a run keeps the law exactly
if no coroutine is added between the two steps. The slot that is ending is then the first of the
free list, and the one that `addCoroutine` takes.
-/

namespace Sheep

structure SlotRun where
  sched : Scheduler
  /-- the coroutine between its `endFunc_` and its last switch -/
  ending : Option Nat

inductive SlotAction
  /-- a step of the scheduler or of another thread -/
  | sched (a : SchedulerAction)
  | endFunc
  /-- the last `jump_fcontext` of `initContext` -/
  | switchBack
  deriving DecidableEq, Repr

namespace SlotRun

def init (coroNum : Nat) : SlotRun := ⟨.init coroNum, none⟩

/-- What may happen while a coroutine is ending: other threads take their steps. -/
def canStep (s : SlotRun) : SchedulerAction → Bool
  | .clock _ | .addCoroutine | .resume _ => true
  | .finish => false
  | .next | .yield | .suspend | .sleep _ => s.ending.isNone

/-- A coroutine whose context has been overwritten has nowhere to switch back to. -/
def step (coroNum : Nat) (s : SlotRun) : SlotAction → Option SlotRun
  | .sched a =>
    if s.canStep a then (s.sched.stepAny coroNum a).map fun sched => { s with sched := sched }
    else none
  | .endFunc =>
    if s.ending = none then
      s.sched.currentCoro.map fun cur => ⟨s.sched.moveToFree cur, some cur⟩
    else none
  | .switchBack =>
    match s.ending with
    | some c =>
      if s.sched.status c = .running then some ⟨(s.sched.setStatus c .free).switchBack, none⟩
      else none
    | none => none

end SlotRun

/-- A scheduler whose coroutines end in two steps. -/
def slotReuse (coroNum : Nat) : System SlotRun SlotAction := ⟨.init coroNum, SlotRun.step coroNum⟩

/-- The slot that `addCoroutine` takes is of a coroutine that has switched back for the last time,
or was never used. -/
def SlotLaw (s : SlotRun) : SlotAction → Prop
  | .sched .addCoroutine => ∀ c ∈ s.sched.freeList.head?, s.sched.status c = .free
  | _ => True

instance : ∀ s a, Decidable (SlotLaw s a)
  | s, .sched .addCoroutine =>
    inferInstanceAs (Decidable (∀ c ∈ s.sched.freeList.head?, s.sched.status c = .free))
  | _, .sched (.clock _) | _, .sched .next | _, .sched .yield | _, .sched .suspend
  | _, .sched (.sleep _) | _, .sched .finish | _, .sched (.resume _) | _, .endFunc
  | _, .switchBack => isTrue True.intro

/-- The condition on a step: no coroutine is added while another one is ending. -/
def NoneEnding (s : SlotRun) : SlotAction → Prop
  | .sched .addCoroutine => s.ending = none
  | _ => True

instance : ∀ s a, Decidable (NoneEnding s a)
  | s, .sched .addCoroutine => inferInstanceAs (Decidable (s.ending = none))
  | _, .sched (.clock _) | _, .sched .next | _, .sched .yield | _, .sched .suspend
  | _, .sched (.sleep _) | _, .sched .finish | _, .sched (.resume _) | _, .endFunc
  | _, .switchBack => isTrue True.intro

/-- Without a step in between, the two steps are the `finish` of the scheduler. -/
theorem endFunc_switchBack {coroNum c : Nat} {s : SlotRun} (hending : s.ending = none)
    (hcur : s.sched.currentCoro = some c) (hrun : s.sched.status c = .running) :
    (slotReuse coroNum).run s [.endFunc, .switchBack] = some ⟨s.sched.finish c, none⟩ := by
  have hend : s.step coroNum .endFunc = some ⟨s.sched.moveToFree c, some c⟩ := by
    unfold SlotRun.step
    rw [if_pos hending, hcur]
    rfl
  have hback : SlotRun.step coroNum ⟨s.sched.moveToFree c, some c⟩ .switchBack =
      some ⟨s.sched.finish c, none⟩ := if_pos hrun
  simp only [System.run, slotReuse, hend, Option.bind_some, hback]

/-- Every slot in the free list is of a coroutine that has left its stack, but for the one that is
ending. -/
structure SlotInv (s : SlotRun) : Prop where
  free : ∀ c ∈ s.sched.freeList, s.sched.status c = .free ∨ s.ending = some c
  current : ∀ c, s.sched.currentCoro = some c → s.sched.status c = .running
  ending : ∀ c, s.ending = some c →
    s.sched.freeList.head? = some c ∧ s.sched.currentCoro = some c

namespace SlotInv

open Scheduler

variable {coroNum c : Nat} {s t : SlotRun} {sched : Scheduler}

theorem init (coroNum : Nat) : SlotInv (slotReuse coroNum).init where
  free := fun _ _ => .inl rfl
  current := nofun
  ending := nofun

/-- The free list does not gain, and the status of the slots in it does not change. -/
theorem keep (hs : SlotInv s) (hending : s.ending = none)
    (hfree : ∀ c ∈ sched.freeList, c ∈ s.sched.freeList ∧ sched.status c = s.sched.status c)
    (hcurrent : ∀ c, sched.currentCoro = some c → sched.status c = .running) :
    SlotInv { s with sched := sched } := by
  refine ⟨fun c hc => ?_, hcurrent, fun c hc => absurd (hending.symm.trans hc) nofun⟩
  obtain ⟨hc, hst⟩ := hfree c hc
  rw [hst]
  exact hs.free c hc

/-- The current coroutine leaves the processor, and is not over. -/
theorem leaves {a : SchedulerAction} {st : CoroStatus} (hs : SlotInv s) (hending : s.ending = none)
    (hl : s.sched.Leaves a c st sched) (ha : a ≠ .finish) : SlotInv { s with sched := sched } := by
  refine hs.keep hending (fun d hd => ?_) fun d hd => absurd (hl.current.symm.trans hd) nofun
  rcases hl.freeList with hfree | ⟨-, hfinish⟩
  · rw [hfree] at hd
    obtain ⟨hd, hne⟩ := List.mem_filter.mp hd
    rw [hl.status]
    exact ⟨hd, Function.update_of_ne (of_decide_eq_true hne) ..⟩
  · exact absurd hfinish ha

theorem switchTo {pc : RunPc} (hs : SlotInv s) (hending : s.ending = none)
    (ht : { s.sched with pc := pc }.switchTo c = some sched) :
    SlotInv { s with sched := sched } := by
  simp only [Scheduler.switchTo] at ht
  split at ht
  next => cases ht
  next hc =>
    cases ht
    refine hs.keep hending (fun d hd => ⟨hd, Function.update_of_ne ?_ ..⟩) ?_
    · rintro rfl
      rcases hs.free d hd with h | h
      · exact hc h
      · exact absurd (h.symm.trans hending) (Option.some_ne_none d)
    · rintro _ ⟨⟩
      exact Function.update_self ..

theorem next (hs : SlotInv s) (hending : s.ending = none) (hcurrent : s.sched.currentCoro = none)
    (ht : s.sched.next = some sched) : SlotInv { s with sched := sched } := by
  have hnone : ∀ {sched : Scheduler}, sched.currentCoro = s.sched.currentCoro →
      ∀ c, sched.currentCoro = some c → sched.status c = .running := fun h c hc =>
    absurd ((h.trans hcurrent).symm.trans hc) nofun
  unfold Scheduler.next at ht
  split at ht
  next =>
    cases ht
    exact hs.keep hending (fun _ h => ⟨h, rfl⟩) (hnone rfl)
  next =>
    cases ht
    exact hs.keep hending
      (fun c hc => ⟨mem_of_mem_drain_freeList hc, congrFun s.sched.drain_status c⟩)
      (hnone s.sched.drain_currentCoro)
  next =>
    cases ht
    exact hs.keep hending (fun _ h => ⟨h, rfl⟩) (hnone rfl)
  next => exact hs.switchTo hending ht
  next =>
    cases ht
    exact hs.keep hending (fun _ h => ⟨h, rfl⟩) (hnone rfl)
  next => exact hs.switchTo hending ht

theorem scheduled {a : SchedulerAction} (hs : SlotInv s) (hcan : s.canStep a = true)
    (hnone : NoneEnding s (.sched a)) (ht : s.sched.stepAny coroNum a = some sched) :
    SlotInv { s with sched := sched } := by
  cases a with
  | clock now =>
    cases ht
    exact ⟨hs.free, hs.current, hs.ending⟩
  | next =>
    simp only [stepAny, Scheduler.step, Option.ite_none_right_eq_some] at ht
    exact hs.next (Option.isNone_iff_eq_none.mp hcan) ht.1 ht.2
  | yield | suspend | sleep ms =>
    obtain ⟨cur, st, hl⟩ := leaves_of_stepAny rfl ht
    exact hs.leaves (Option.isNone_iff_eq_none.mp hcan) hl fun ha => by cases ha
  | finish => cases hcan
  | addCoroutine =>
    have hending : s.ending = none := hnone
    cases ht
    unfold Scheduler.addCoroutine
    split
    next => exact hs
    next info rest hfree =>
      have hinfo : s.sched.status info = .free :=
        (hs.free info (hfree ▸ List.mem_cons_self)).resolve_right fun h =>
          absurd (h.symm.trans hending) (Option.some_ne_none info)
      refine hs.keep hending (fun d hd => ?_) fun d hd => ?_
      · obtain ⟨hd, hne⟩ := List.mem_filter.mp hd
        exact ⟨hd, Function.update_of_ne (of_decide_eq_true hne) ..⟩
      · have hrun := hs.current d hd
        refine (Function.update_of_ne ?_ ..).trans hrun
        rintro rfl
        cases hinfo.symm.trans hrun
  | resume c =>
    simp only [stepAny, Option.ite_none_right_eq_some, Option.some.injEq] at ht
    obtain ⟨-, rfl⟩ := ht
    exact ⟨hs.free, hs.current, hs.ending⟩

theorem step {a : SlotAction} (hs : SlotInv s) (hG : NoneEnding s a)
    (ht : (slotReuse coroNum).step s a = some t) : SlotInv t := by
  cases a with
  | sched a =>
    simp only [slotReuse, SlotRun.step, Option.ite_none_right_eq_some] at ht
    obtain ⟨hcan, ht⟩ := ht
    obtain ⟨sched, hsched, rfl⟩ := Option.map_eq_some_iff.mp ht
    exact hs.scheduled hcan hG hsched
  | endFunc =>
    simp only [slotReuse, SlotRun.step, Option.ite_none_right_eq_some] at ht
    obtain ⟨hending, ht⟩ := ht
    obtain ⟨cur, hcur, rfl⟩ := Option.map_eq_some_iff.mp ht
    refine ⟨fun d hd => ?_, hs.current, ?_⟩
    · rcases List.mem_cons.mp hd with rfl | hd
      · exact .inr rfl
      · refine .inl ((hs.free d (List.mem_of_mem_filter hd)).resolve_right fun h => ?_)
        exact absurd (h.symm.trans hending) (Option.some_ne_none d)
    · rintro _ ⟨⟩
      exact ⟨rfl, hcur⟩
  | switchBack =>
    simp only [slotReuse, SlotRun.step] at ht
    split at ht
    next c hending =>
      simp only [Option.ite_none_right_eq_some, Option.some.injEq] at ht
      obtain ⟨hrun, rfl⟩ := ht
      refine ⟨fun d hd => .inl ?_, nofun, nofun⟩
      show Function.update s.sched.status c .free d = .free
      rcases hs.free d hd with h | h
      · rcases eq_or_ne d c with hdc | hdc
        · rw [hdc, Function.update_self]
        · rw [Function.update_of_ne hdc, h]
      · obtain rfl : c = d := Option.some.inj (hending.symm.trans h)
        exact Function.update_self ..
    next => cases ht

/-- The law of a step is its condition. -/
theorem law_iff (hs : SlotInv s) (a : SlotAction) : SlotLaw s a ↔ NoneEnding s a := by
  cases a with
  | sched a =>
    cases a with
    | addCoroutine =>
      constructor
      · intro hlaw
        cases hending : s.ending with
        | none => exact hending
        | some c =>
          obtain ⟨hhead, hcur⟩ := hs.ending c hending
          exact absurd ((hlaw c hhead).symm.trans (hs.current c hcur)) nofun
      · intro hending c hc
        refine (hs.free c (List.mem_of_mem_head? hc)).resolve_right fun h => ?_
        exact absurd ((show s.ending = none from hending).symm.trans h) nofun
    | _ => exact Iff.rfl
  | endFunc | switchBack => exact Iff.rfl

end SlotInv

/-- A run takes only slots that are out of use exactly if it adds no coroutine while another one is
ending. -/
theorem slotLaw_iff (coroNum : Nat) (as : List SlotAction) :
    (slotReuse coroNum).AllSteps SlotLaw (slotReuse coroNum).init as ↔
      (slotReuse coroNum).AllSteps NoneEnding (slotReuse coroNum).init as :=
  System.allSteps_iff (P := SlotInv) (.init coroNum) (fun _ _ _ hs hG ht => hs.step hG ht)
    fun _ a hs => hs.law_iff a

/-- Another thread adds a coroutine between `endFunc_` and the last switch: it gets the slot whose
stack is still in use, and the coroutine cannot switch back. -/
theorem slot_taken_while_ending : ∃ s,
    (slotReuse 2).run (slotReuse 2).init
      [.sched .addCoroutine, .sched .next, .sched .next, .sched .next, .sched .next, .endFunc] =
        some s ∧
    s.sched.currentCoro = some 1 ∧ s.sched.status 1 = .running ∧
    s.sched.freeList.head? = some 1 ∧ ¬ SlotLaw s (.sched .addCoroutine) ∧
    (slotReuse 2).run s [.sched .addCoroutine, .switchBack] = none :=
  ⟨_, rfl, rfl, rfl, rfl, by decide, rfl⟩

end Sheep
