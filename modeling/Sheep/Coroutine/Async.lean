import Sheep.Coroutine.SlotReuse

/-!
# `Async`

`asyncs threads coroNum` is an `Async` with its schedulers, each with `coroNum` slots. `async`
makes a promise and adds a coroutine that runs the task and sets the promise; the schedulers are
taken in turn.

`AsyncLaw`: a future is ready, or its task is registered on exactly one scheduler and has not
finished. `asyncLaw_iff`: a run keeps the law exactly if every `async` finds a free slot on the
scheduler whose turn it is. `async` does not look at what `addCoroutine` returns, so otherwise the
task is dropped and the future is never ready.
-/

namespace Sheep

structure AsyncRun where
  /-- `schedulers_` -/
  scheds : Nat → SlotRun
  /-- `index`; it is converted to an unsigned number before it is used -/
  index : UInt64
  /-- the task that `func_` of a slot runs, if it is one of `async` -/
  func : Nat → Nat → Option Nat
  /-- `isReady_` of the promise of a task -/
  ready : Nat → Bool
  /-- the number of tasks submitted -/
  issued : Nat

inductive AsyncAction
  | async
  /-- another coroutine is added to a scheduler, for instance by a task -/
  | spawn (i : Nat)
  /-- the task that runs on a scheduler returns or throws: `setValue` or `setException` -/
  | setReady (i : Nat)
  | slot (i : Nat) (a : SlotAction)
  deriving DecidableEq, Repr

namespace AsyncRun

def init (coroNum : Nat) : AsyncRun :=
  ⟨fun _ => .init coroNum, 0, fun _ _ => none, fun _ => false, 0⟩

/-- `addCoroutine` on the scheduler `i`; the result is not looked at. -/
def addCoroutine (s : AsyncRun) (i : Nat) (func : Option Nat) : AsyncRun :=
  match (s.scheds i).sched.freeList with
  | [] => s
  | info :: _ =>
    { s with
      scheds := Function.update s.scheds i
        ⟨(s.scheds i).sched.addCoroutine, (s.scheds i).ending⟩
      func := Function.update s.func i (Function.update (s.func i) info func) }

/-- `getIndex`, before it counts on. -/
def getIndex (threads : Nat) (s : AsyncRun) : Nat := s.index.toNat % threads

/-- The task that runs on a scheduler. -/
def running (s : AsyncRun) (i : Nat) : Option Nat := (s.scheds i).sched.currentCoro.bind (s.func i)

/-- A task ends once its promise is set, and does nothing else between the two. -/
def canStep (s : AsyncRun) (i : Nat) : SlotAction → Prop
  | .endFunc => ∀ t ∈ s.running i, s.ready t = true
  | .sched .yield | .sched .suspend | .sched (.sleep _) => ∀ t ∈ s.running i, s.ready t = false
  | .sched .addCoroutine => False
  | _ => True

instance (s : AsyncRun) (i : Nat) : ∀ a, Decidable (s.canStep i a)
  | .endFunc => inferInstanceAs (Decidable (∀ t ∈ s.running i, s.ready t = true))
  | .sched .yield | .sched .suspend | .sched (.sleep _) =>
    inferInstanceAs (Decidable (∀ t ∈ s.running i, s.ready t = false))
  | .sched .addCoroutine => isFalse id
  | .sched (.clock _) | .sched .next | .sched .finish | .sched (.resume _) | .switchBack =>
    isTrue True.intro

/-- Without schedulers `getIndex` divides by zero. -/
def step (threads coroNum : Nat) (s : AsyncRun) : AsyncAction → Option AsyncRun
  | .async =>
    if threads = 0 then none
    else some ({ s with index := s.index + 1, issued := s.issued + 1 }.addCoroutine
      (s.getIndex threads) (some s.issued))
  | .spawn i => if i < threads then some (s.addCoroutine i none) else none
  | .setReady i =>
    if i < threads ∧ (s.scheds i).ending = none then
      (s.running i).map fun t => { s with ready := Function.update s.ready t true }
    else none
  | .slot i a =>
    if i < threads ∧ s.canStep i a then
      ((s.scheds i).step coroNum a).map fun r => { s with scheds := Function.update s.scheds i r }
    else none

/-- The task is registered on the scheduler, and has not finished. -/
def registered (s : AsyncRun) (i t : Nat) : Prop :=
  ∃ c, s.func i c = some t ∧ (s.scheds i).sched.status c ≠ .free

end AsyncRun

def asyncs (threads coroNum : Nat) : System AsyncRun AsyncAction :=
  ⟨.init coroNum, AsyncRun.step threads coroNum⟩

/-- No task is dropped while its future stays pending. -/
def AsyncLaw (threads : Nat) (s : AsyncRun) : Prop :=
  ∀ t < s.issued, s.ready t = true ∨
    ∃ i < threads, s.registered i t ∧ ∀ j, s.registered j t → j = i

/-- The condition on a step: `async` finds a free slot. -/
def SlotLeft (threads : Nat) (s : AsyncRun) : AsyncAction → Prop
  | .async => (s.scheds (s.getIndex threads)).sched.freeList ≠ []
  | _ => True

instance (threads : Nat) : ∀ s a, Decidable (SlotLeft threads s a)
  | s, .async => inferInstanceAs
      (Decidable ((s.scheds (s.getIndex threads)).sched.freeList ≠ []))
  | _, .spawn _ | _, .setReady _ | _, .slot _ _ => isTrue True.intro

/-! ## The invariant -/

/-- The slot is in the free list, or its coroutine has finished. -/
def Scheduler.unused (s : Scheduler) (c : Nat) : Prop := c ∈ s.freeList ∨ s.status c = .free

/-- The coroutine is between its `endFunc_` and its last switch. -/
def SlotRun.endsNow (r : SlotRun) (c : Nat) : Prop :=
  r.ending = some c ∧ r.sched.status c = .running

namespace Scheduler

variable {coroNum c d : Nat} {s t : Scheduler} {a : SchedulerAction}

/-- A coroutine that does not finish leaves the processor. -/
theorem unused_leaves {st : CoroStatus} (hl : s.Leaves a d st t) (ha : a ≠ .finish)
    (h : t.unused c) : s.unused c := by
  rcases h with h | h
  · rcases hl.freeList with hfree | ⟨-, hfinish⟩
    · rw [hfree] at h
      exact .inl (List.mem_of_mem_filter h)
    · exact absurd hfinish ha
  · rw [hl.status] at h
    rcases eq_or_ne c d with hc | hc
    · rw [hc, Function.update_self] at h
      exact absurd (hl.free.mp h) ha
    · rw [Function.update_of_ne hc] at h
      exact .inr h

theorem unused_switchTo {pc : RunPc} (ht : { s with pc := pc }.switchTo d = some t)
    (h : t.unused c) : s.unused c := by
  simp only [Scheduler.switchTo] at ht
  split at ht
  next => cases ht
  next =>
    cases ht
    rcases h with h | h
    · exact .inl h
    · have h : Function.update s.status d .running c = .free := h
      rcases eq_or_ne c d with hc | hc
      · rw [hc, Function.update_self] at h
        cases h
      · rw [Function.update_of_ne hc] at h
        exact .inr h

theorem unused_next (ht : s.next = some t) (h : t.unused c) : s.unused c := by
  unfold Scheduler.next at ht
  split at ht
  next => cases ht; exact h
  next =>
    cases ht
    rcases h with h | h
    · exact .inl (mem_of_mem_drain_freeList h)
    · exact .inr ((congrFun s.drain_status c).symm.trans h)
  next => cases ht; exact h
  next => exact unused_switchTo ht h
  next => cases ht; exact h
  next => exact unused_switchTo ht h

/-- No step of the scheduler frees a slot, but for the end of a coroutine. -/
theorem unused_stepAny (hfinish : a ≠ .finish) (hadd : a ≠ .addCoroutine)
    (ht : s.stepAny coroNum a = some t) (h : t.unused c) : s.unused c := by
  cases a with
  | clock now => cases ht; exact h
  | next =>
    simp only [stepAny, Scheduler.step, Option.ite_none_right_eq_some] at ht
    exact unused_next ht.2 h
  | yield | suspend | sleep ms =>
    obtain ⟨cur, st, hl⟩ := leaves_of_stepAny rfl ht
    exact unused_leaves hl hfinish h
  | finish => exact absurd rfl hfinish
  | addCoroutine => exact absurd rfl hadd
  | resume d =>
    simp only [stepAny, Option.ite_none_right_eq_some, Option.some.injEq] at ht
    obtain ⟨-, rfl⟩ := ht
    exact h

end Scheduler

/-- What a step of one scheduler does to its slots. -/
theorem SlotRun.step_slots {coroNum c : Nat} {r r' : SlotRun} {a : SlotAction}
    (ha : a ≠ .sched .addCoroutine) (hr : r.step coroNum a = some r') :
    (r'.sched.unused c →
      r.sched.unused c ∨ r.endsNow c ∨ (a = .endFunc ∧ r.sched.currentCoro = some c)) ∧
    (r'.endsNow c → r.endsNow c ∨ (a = .endFunc ∧ r.sched.currentCoro = some c)) := by
  cases a with
  | sched a =>
    simp only [SlotRun.step, Option.ite_none_right_eq_some] at hr
    obtain ⟨hcan, hr⟩ := hr
    obtain ⟨t, ht, rfl⟩ := Option.map_eq_some_iff.mp hr
    have hfinish : a ≠ .finish := by
      rintro rfl
      cases hcan
    refine ⟨fun h => .inl (Scheduler.unused_stepAny hfinish (fun h => ha (h ▸ rfl)) ht h), ?_⟩
    rintro ⟨hending, hrun⟩
    refine .inl ⟨hending, ?_⟩
    have hending : r.ending = some c := hending
    cases a with
    | clock now => cases ht; exact hrun
    | resume d =>
      simp only [Scheduler.stepAny, Option.ite_none_right_eq_some, Option.some.injEq] at ht
      obtain ⟨-, rfl⟩ := ht
      exact hrun
    | finish => cases hcan
    | addCoroutine => exact absurd rfl ha
    | next | yield | suspend | sleep ms =>
      have hcan : r.ending.isNone = true := hcan
      rw [hending] at hcan
      cases hcan
  | endFunc =>
    simp only [SlotRun.step, Option.ite_none_right_eq_some] at hr
    obtain ⟨cur, hcur, rfl⟩ := Option.map_eq_some_iff.mp hr.2
    refine ⟨fun h => ?_, ?_⟩
    · rcases h with h | h
      · rcases List.mem_cons.mp h with rfl | h
        · exact .inr (.inr ⟨rfl, hcur⟩)
        · exact .inl (.inl (List.mem_of_mem_filter h))
      · exact .inl (.inr h)
    · rintro ⟨⟨⟩, -⟩
      exact .inr ⟨rfl, hcur⟩
  | switchBack =>
    simp only [SlotRun.step] at hr
    split at hr
    next d hending =>
      -- the slot that is free now was the one of the coroutine that was ending
      simp only [Option.ite_none_right_eq_some, Option.some.injEq] at hr
      obtain ⟨hrun, rfl⟩ := hr
      refine ⟨fun h => ?_, fun h => absurd h.1.symm (Option.some_ne_none c)⟩
      rcases h with h | h
      · exact .inl (.inl h)
      · rcases eq_or_ne c d with hc | hc
        · exact .inr (.inl ⟨hc ▸ hending, hc ▸ hrun⟩)
        · exact .inl (.inr ((Function.update_of_ne hc ..).symm.trans h))
    next => cases hr

/-- What holds in every state. A slot that may be taken has no task whose future is pending. -/
structure AsyncInv (threads : Nat) (s : AsyncRun) : Prop where
  known : ∀ i c t, s.func i c = some t → i < threads ∧ t < s.issued
  unique : ∀ i c j d t, s.func i c = some t → s.func j d = some t → i = j
  ready : ∀ t, s.ready t = true → t < s.issued
  unused : ∀ i c t, (s.scheds i).sched.unused c → s.func i c = some t → s.ready t = true
  ending : ∀ i c t, (s.scheds i).endsNow c → s.func i c = some t → s.ready t = true

namespace AsyncInv

open AsyncRun

variable {threads coroNum i n : Nat} {s t : AsyncRun} {func : Option Nat}

theorem init (threads coroNum : Nat) : AsyncInv threads (asyncs threads coroNum).init where
  known := nofun
  unique := nofun
  ready := nofun
  unused := nofun
  ending := nofun

/-- What `addCoroutine` writes into `func_`. -/
theorem func_addCoroutine (s : AsyncRun) (i : Nat) (func : Option Nat) {j c : Nat} :
    (s.addCoroutine i func).func j c = s.func j c ∨
    ((s.addCoroutine i func).func j c = func ∧ j = i ∧
      (s.scheds i).sched.freeList.head? = some c) := by
  unfold AsyncRun.addCoroutine
  split
  next => exact .inl rfl
  next info rest hfree =>
    rcases eq_or_ne j i with rfl | hj
    · rcases eq_or_ne c info with rfl | hc
      · refine .inr ⟨?_, rfl, by rw [hfree]; rfl⟩
        show Function.update s.func j (Function.update (s.func j) c func) j c = func
        rw [Function.update_self, Function.update_self]
      · refine .inl ?_
        show Function.update s.func j (Function.update (s.func j) info func) j c = s.func j c
        rw [Function.update_self, Function.update_of_ne hc]
    · exact .inl (congrFun (Function.update_of_ne hj ..) c)

/-- A slot that is unused or ending after `addCoroutine` was so before, and was not taken. -/
theorem slot_addCoroutine (s : AsyncRun) (i : Nat) (func : Option Nat) {j c : Nat}
    (h : ((s.addCoroutine i func).scheds j).sched.unused c ∨
      ((s.addCoroutine i func).scheds j).endsNow c) :
    ((s.scheds j).sched.unused c ∨ (s.scheds j).endsNow c) ∧
      ¬ (j = i ∧ (s.scheds i).sched.freeList.head? = some c) := by
  unfold AsyncRun.addCoroutine at h
  split at h
  next hfree =>
    rw [hfree]
    exact ⟨h, fun h => absurd h.2 nofun⟩
  next info rest hfree =>
    rw [hfree]
    rcases eq_or_ne j i with rfl | hj
    · have hadd : (s.scheds j).sched.addCoroutine =
          ((s.scheds j).sched.moveToYield info).setStatus info .ready := by
        unfold Scheduler.addCoroutine
        rw [hfree]
      simp only [Function.update_self, hadd] at h
      have hne : c ≠ info := by
        rintro rfl
        rcases h with (h | h) | ⟨-, h⟩
        · exact absurd (List.of_mem_filter h) (by simp)
        · exact absurd ((Function.update_self ..).symm.trans h) nofun
        · exact absurd ((Function.update_self ..).symm.trans h) nofun
      refine ⟨?_, fun hhead => hne (Option.some.inj hhead.2).symm⟩
      rcases h with (h | h) | ⟨hending, h⟩
      · exact .inl (.inl (List.mem_of_mem_filter h))
      · exact .inl (.inr ((Function.update_of_ne hne ..).symm.trans h))
      · exact .inr ⟨hending, (Function.update_of_ne hne ..).symm.trans h⟩
    · simp only [Function.update_of_ne hj] at h
      exact ⟨h, fun hc => hj hc.1⟩

theorem fields_addCoroutine (s : AsyncRun) (i : Nat) (func : Option Nat) :
    (s.addCoroutine i func).ready = s.ready ∧ (s.addCoroutine i func).issued = s.issued := by
  unfold AsyncRun.addCoroutine
  split <;> exact ⟨rfl, rfl⟩

/-- A coroutine is added that runs no task, or a new one. -/
theorem add (hs : AsyncInv threads s) (hi : i < threads)
    (hfunc : ∀ t, func = some t → t < s.issued ∧ ∀ j c, s.func j c ≠ some t) :
    AsyncInv threads (s.addCoroutine i func) := by
  obtain ⟨hready, hissued⟩ := fields_addCoroutine s i func
  have hold : ∀ j c t, (s.addCoroutine i func).func j c = some t →
      s.func j c = some t ∨ (func = some t ∧ j = i ∧
        (s.scheds i).sched.freeList.head? = some c) := by
    intro j c t h
    rcases func_addCoroutine s i func (j := j) (c := c) with heq | ⟨heq, hj⟩
    · exact .inl (heq.symm.trans h)
    · exact .inr ⟨heq.symm.trans h, hj⟩
  have hslot : ∀ j c t, ((s.addCoroutine i func).scheds j).sched.unused c ∨
      ((s.addCoroutine i func).scheds j).endsNow c → (s.addCoroutine i func).func j c = some t →
      s.ready t = true := by
    intro j c t h ht
    obtain ⟨h, hnot⟩ := slot_addCoroutine s i func h
    have ht := (hold j c t ht).resolve_right fun h => hnot h.2
    exact h.elim (fun h => hs.unused j c t h ht) fun h => hs.ending j c t h ht
  refine ⟨fun j c t h => ?_, fun j c k d t hj hk => ?_, ?_, fun j c t h ht => ?_,
    fun j c t h ht => ?_⟩
  · rw [hissued]
    rcases hold j c t h with h | ⟨hf, hj, -⟩
    · exact hs.known j c t h
    · exact ⟨hj ▸ hi, (hfunc t hf).1⟩
  · rcases hold j c t hj with hj | ⟨hf, rfl, -⟩
    · rcases hold k d t hk with hk | ⟨hf, -⟩
      · exact hs.unique j c k d t hj hk
      · exact absurd hj ((hfunc t hf).2 j c)
    · rcases hold k d t hk with hk | ⟨-, rfl, -⟩
      · exact absurd hk ((hfunc t hf).2 k d)
      · rfl
  · rw [hready, hissued]
    exact hs.ready
  · rw [hready]
    exact hslot j c t (.inl h) ht
  · rw [hready]
    exact hslot j c t (.inr h) ht

/-- A new future is made. -/
theorem issue {k : UInt64} (hs : AsyncInv threads s) (hn : s.issued ≤ n) :
    AsyncInv threads { s with index := k, issued := n } :=
  ⟨fun i c t h => ⟨(hs.known i c t h).1, Nat.lt_of_lt_of_le (hs.known i c t h).2 hn⟩, hs.unique,
    fun t h => Nat.lt_of_lt_of_le (hs.ready t h) hn, hs.unused, hs.ending⟩

/-- The number of the next task is not used yet. -/
theorem func_ne_issued (hs : AsyncInv threads s) (j c : Nat) : s.func j c ≠ some s.issued :=
  fun h => absurd (hs.known j c _ h).2 (Nat.lt_irrefl _)

theorem slot {a : SlotAction} {r : SlotRun} (hs : AsyncInv threads s) (hcan : s.canStep i a)
    (hr : (s.scheds i).step coroNum a = some r) :
    AsyncInv threads { s with scheds := Function.update s.scheds i r } := by
  have hadd : a ≠ .sched .addCoroutine := by
    rintro rfl
    exact hcan
  have hends : ∀ c t, a = .endFunc ∧ (s.scheds i).sched.currentCoro = some c →
      s.func i c = some t → s.ready t = true := by
    rintro c t ⟨rfl, hcur⟩ ht
    refine hcan t ?_
    show (s.scheds i).sched.currentCoro.bind (s.func i) = some t
    rw [hcur]
    exact ht
  refine ⟨hs.known, hs.unique, hs.ready, fun j c t h ht => ?_, fun j c t h ht => ?_⟩
  · rcases eq_or_ne j i with rfl | hj
    · have h : (Function.update s.scheds j r j).sched.unused c := h
      rw [Function.update_self] at h
      rcases (SlotRun.step_slots hadd hr).1 h with h | h | h
      · exact hs.unused j c t h ht
      · exact hs.ending j c t h ht
      · exact hends c t h ht
    · have h : (Function.update s.scheds i r j).sched.unused c := h
      rw [Function.update_of_ne hj] at h
      exact hs.unused j c t h ht
  · rcases eq_or_ne j i with rfl | hj
    · have h : (Function.update s.scheds j r j).endsNow c := h
      rw [Function.update_self] at h
      rcases (SlotRun.step_slots hadd hr).2 h with h | h
      · exact hs.ending j c t h ht
      · exact hends c t h ht
    · have h : (Function.update s.scheds i r j).endsNow c := h
      rw [Function.update_of_ne hj] at h
      exact hs.ending j c t h ht

theorem step {a : AsyncAction} (hs : AsyncInv threads s)
    (hstep : (asyncs threads coroNum).step s a = some t) : AsyncInv threads t := by
  cases a with
  | async =>
    simp only [asyncs, AsyncRun.step, Option.ite_none_left_eq_some, Option.some.injEq] at hstep
    obtain ⟨hthreads, rfl⟩ := hstep
    refine (hs.issue (Nat.le_succ _)).add (Nat.mod_lt _ (Nat.pos_of_ne_zero hthreads)) ?_
    rintro _ ⟨⟩
    exact ⟨Nat.lt_succ_self _, hs.func_ne_issued⟩
  | spawn i =>
    simp only [asyncs, AsyncRun.step, Option.ite_none_right_eq_some, Option.some.injEq] at hstep
    obtain ⟨hi, rfl⟩ := hstep
    exact hs.add hi nofun
  | setReady i =>
    simp only [asyncs, AsyncRun.step, Option.ite_none_right_eq_some] at hstep
    obtain ⟨u, hu, rfl⟩ := Option.map_eq_some_iff.mp hstep.2
    obtain ⟨c, -, hfunc⟩ := Option.bind_eq_some_iff.mp hu
    have hmono : ∀ t, s.ready t = true → Function.update s.ready u true t = true := by
      intro t ht
      rcases eq_or_ne t u with htu | htu
      · rw [htu, Function.update_self]
      · rw [Function.update_of_ne htu, ht]
    refine ⟨hs.known, hs.unique, fun t ht => ?_, fun j c t h ht => hmono t (hs.unused j c t h ht),
      fun j c t h ht => hmono t (hs.ending j c t h ht)⟩
    rcases eq_or_ne t u with htu | htu
    · exact htu ▸ (hs.known i c u hfunc).2
    · exact hs.ready t ((Function.update_of_ne htu ..).symm.trans ht)
  | slot i a =>
    simp only [asyncs, AsyncRun.step, Option.ite_none_right_eq_some] at hstep
    obtain ⟨⟨-, hcan⟩, hstep⟩ := hstep
    obtain ⟨r, hr, rfl⟩ := Option.map_eq_some_iff.mp hstep
    exact hs.slot hcan hr

end AsyncInv

/-! ## The law -/

namespace AsyncInv

open AsyncRun

variable {threads coroNum i : Nat} {s t : AsyncRun} {func : Option Nat}

/-- A task stays registered until its future is ready. -/
theorem law_kept (ht : AsyncInv threads t) (hlaw : AsyncLaw threads s)
    (hready : ∀ u, s.ready u = true → t.ready u = true)
    (hfunc : ∀ i c u, s.func i c = some u → t.func i c = some u ∨ t.ready u = true) {u : Nat}
    (hu : u < s.issued) : t.ready u = true ∨
      ∃ i < threads, t.registered i u ∧ ∀ j, t.registered j u → j = i := by
  rcases hlaw u hu with h | ⟨i, hi, ⟨c, hc, -⟩, -⟩
  · exact .inl (hready u h)
  rcases hfunc i c u hc with hc | h
  · by_cases hfree : (t.scheds i).sched.status c = .free
    · exact .inl (ht.unused i c u (.inr hfree) hc)
    · refine .inr ⟨i, hi, ⟨c, hc, hfree⟩, ?_⟩
      rintro j ⟨d, hd, -⟩
      exact ht.unique j d i c u hd hc
  · exact .inl h

/-- `addCoroutine` overwrites the function of no task whose future is pending. -/
theorem func_kept (hs : AsyncInv threads s) {j c u : Nat} (h : s.func j c = some u) :
    (s.addCoroutine i func).func j c = some u ∨ s.ready u = true := by
  rcases func_addCoroutine s i func (j := j) (c := c) with heq | ⟨-, rfl, hhead⟩
  · exact .inl (heq.trans h)
  · exact .inr (hs.unused j c u (.inl (List.mem_of_mem_head? hhead)) h)

theorem async_law_iff (hs : AsyncInv threads s) (hlaw : AsyncLaw threads s)
    (hstep : (asyncs threads coroNum).step s .async = some t) :
    AsyncLaw threads t ↔ SlotLeft threads s .async := by
  have ht := hs.step hstep
  simp only [asyncs, AsyncRun.step, Option.ite_none_left_eq_some, Option.some.injEq] at hstep
  obtain ⟨hthreads, rfl⟩ := hstep
  have hs' : AsyncInv threads { s with index := s.index + 1, issued := s.issued + 1 } :=
    hs.issue (Nat.le_succ _)
  obtain ⟨hready, hissued⟩ := fields_addCoroutine
    { s with index := s.index + 1, issued := s.issued + 1 } (s.getIndex threads) (some s.issued)
  constructor
  · -- with an empty free list the new task has no slot, and its future stays pending
    intro hlaw hnil
    have hu : s.issued < s.issued + 1 := Nat.lt_succ_self _
    rcases hlaw s.issued (hissued ▸ hu) with h | ⟨j, -, ⟨c, hc, -⟩, -⟩
    · rw [hready] at h
      exact absurd (hs.ready _ h) (Nat.lt_irrefl _)
    · rcases func_addCoroutine { s with index := s.index + 1, issued := s.issued + 1 }
        (s.getIndex threads) (some s.issued) (j := j) (c := c) with heq | ⟨-, -, hhead⟩
      · exact hs.func_ne_issued j c (heq.symm.trans hc)
      · have hhead : (s.scheds (s.getIndex threads)).sched.freeList.head? = some c := hhead
        rw [hnil] at hhead
        cases hhead
  · intro hleft u hu
    rw [hissued] at hu
    rcases Nat.lt_succ_iff_lt_or_eq.mp hu with hu | rfl
    · refine ht.law_kept hlaw (fun v hv => ?_) (fun i c v hv => ?_) hu
      · rw [hready]
        exact hv
      · rw [hready]
        exact hs'.func_kept hv
    · -- the new task takes the first slot of the free list
      obtain ⟨info, rest, hfree⟩ := List.exists_cons_of_ne_nil hleft
      have hfunc : (AsyncRun.addCoroutine { s with index := s.index + 1, issued := s.issued + 1 }
          (s.getIndex threads) (some s.issued)).func (s.getIndex threads) info =
          some s.issued := by
        unfold AsyncRun.addCoroutine
        simp only [hfree, Function.update_self]
      refine .inr ⟨s.getIndex threads, Nat.mod_lt _ (Nat.pos_of_ne_zero hthreads),
        ⟨info, hfunc, ?_⟩, ?_⟩
      · unfold AsyncRun.addCoroutine Scheduler.addCoroutine
        simp only [hfree, Function.update_self, Scheduler.setStatus]
        exact nofun
      · rintro j ⟨d, hd, -⟩
        exact ht.unique j d _ info _ hd hfunc

theorem law_iff {a : AsyncAction} (hs : AsyncInv threads s) (hlaw : AsyncLaw threads s)
    (hstep : (asyncs threads coroNum).step s a = some t) :
    AsyncLaw threads t ↔ SlotLeft threads s a := by
  have ht := hs.step hstep
  cases a with
  | async => exact hs.async_law_iff hlaw hstep
  | spawn i =>
    simp only [asyncs, AsyncRun.step, Option.ite_none_right_eq_some, Option.some.injEq] at hstep
    obtain ⟨-, rfl⟩ := hstep
    obtain ⟨hready, hissued⟩ := fields_addCoroutine s i none
    refine ⟨fun _ => True.intro, fun _ u hu => ?_⟩
    rw [hissued] at hu
    refine ht.law_kept hlaw (fun v hv => ?_) (fun i c v hv => ?_) hu
    · rw [hready]
      exact hv
    · rw [hready]
      exact hs.func_kept hv
  | setReady i =>
    simp only [asyncs, AsyncRun.step, Option.ite_none_right_eq_some] at hstep
    obtain ⟨u, -, rfl⟩ := Option.map_eq_some_iff.mp hstep.2
    refine ⟨fun _ => True.intro, fun _ v hv => ht.law_kept hlaw (fun w hw => ?_)
      (fun _ _ _ h => .inl h) hv⟩
    show Function.update s.ready u true w = true
    rcases eq_or_ne w u with hwu | hwu
    · rw [hwu, Function.update_self]
    · rw [Function.update_of_ne hwu, hw]
  | slot i a =>
    simp only [asyncs, AsyncRun.step, Option.ite_none_right_eq_some] at hstep
    obtain ⟨r, -, rfl⟩ := Option.map_eq_some_iff.mp hstep.2
    exact ⟨fun _ => True.intro, fun _ v hv => ht.law_kept hlaw (fun _ h => h)
      (fun _ _ _ h => .inl h) hv⟩

end AsyncInv

/-- A run drops no task exactly if every `async` finds a free slot on its scheduler. -/
theorem asyncLaw_iff {threads coroNum : Nat} {as : List AsyncAction}
    (hrun : ((asyncs threads coroNum).run (asyncs threads coroNum).init as).isSome) :
    (asyncs threads coroNum).AllStates (AsyncLaw threads) (asyncs threads coroNum).init as ↔
      (asyncs threads coroNum).AllSteps (SlotLeft threads) (asyncs threads coroNum).init as :=
  System.allStates_iff_allSteps (L := fun _ => True) (I := AsyncInv threads) nofun
    (.init threads coroNum) (fun _ _ _ => AsyncInv.step)
    (fun _ _ _ hinv hlaw _ => hinv.law_iff hlaw) (fun _ _ => True.intro) hrun

/-- `asyncLaw_iff` on two schedulers with a slot each: both tasks run, and then there is a slot for
a third. -/
theorem asyncLaw_three_tasks :
    (asyncs 2 1).AllStates (AsyncLaw 2) (asyncs 2 1).init
      [.async, .async, .slot 0 (.sched .next), .slot 0 (.sched .next), .slot 0 (.sched .next),
        .slot 0 (.sched .next), .setReady 0, .slot 0 .endFunc, .slot 0 .switchBack, .async] ↔
    (asyncs 2 1).AllSteps (SlotLeft 2) (asyncs 2 1).init
      [.async, .async, .slot 0 (.sched .next), .slot 0 (.sched .next), .slot 0 (.sched .next),
        .slot 0 (.sched .next), .setReady 0, .slot 0 .endFunc, .slot 0 .switchBack, .async] :=
  asyncLaw_iff (by decide +kernel)

/-- One scheduler with one slot, and two tasks: the second is dropped. -/
theorem task_dropped :
    ∃ s, (asyncs 1 1).run (asyncs 1 1).init [.async, .async] = some s ∧ s.issued = 2 ∧
      s.ready 1 = false ∧ (∀ i, ¬ s.registered i 1) ∧ ¬ AsyncLaw 1 s := by
  obtain ⟨s, hs, hissued, hready, hfunc⟩ : ∃ s,
      (asyncs 1 1).run (asyncs 1 1).init [.async, .async] = some s ∧ s.issued = 2 ∧
        s.ready 1 = false ∧
        s.func = Function.update (fun _ _ => none) 0 (Function.update (fun _ => none) 0 (some 0)) :=
    ⟨_, rfl, rfl, rfl, rfl⟩
  have hnone : ∀ i, ¬ s.registered i 1 := by
    rintro i ⟨c, hc, -⟩
    rw [hfunc] at hc
    simp only [Function.update_apply] at hc
    split at hc <;> simp [Function.update_apply] at hc
  refine ⟨s, hs, hissued, hready, hnone, fun hlaw => ?_⟩
  rcases hlaw 1 (by rw [hissued]; decide) with h | ⟨i, -, h, -⟩
  · rw [hready] at h
    cases h
  · exact hnone i h

end Sheep
