import Sheep.Coroutine.Scheduler

/-!
# The scheduler, as one coroutine sees it

A coroutine `c` that neither sleeps nor finishes sees little of the scheduler: that its requests
are drained, that `run` begins or ends the loop over `yieldList`, that it is switched to. All
other steps are `Elsewhere`. `OneCoro.step` sorts the steps of the scheduler and of the other
coroutines accordingly.
-/

namespace Sheep

/-- `run` is in the loop over `resumeList` or `yieldList`. -/
def RunPc.switching : RunPc → Bool
  | .wakeUpSleep | .drain => false
  | .resuming _ | .yielding _ => true

/-- The lists of a scheduler with a coroutine `c` that neither sleeps nor finishes. -/
structure OneCoro (c : Nat) (s : Scheduler) : Prop where
  rest_nodup : s.pc.rest.Nodup
  resume_nodup : s.resumeList.Nodup
  yield_nodup : s.yieldList.Nodup
  not_free : c ∉ s.freeList
  not_sleeping : ∀ e ∈ s.sleepQueue, e.coro ≠ c

/-- A step of the scheduler that does not concern the coroutine `c`. -/
structure Elsewhere (c : Nat) (s t : Scheduler) : Prop where
  current : t.currentCoro = some c ↔ s.currentCoro = some c
  queue : c ∈ t.resumeQueue ↔ c ∈ s.resumeQueue
  resume : c ∈ t.resumeList ↔ c ∈ s.resumeList
  yield : c ∈ t.yieldList ↔ c ∈ s.yieldList
  rest : c ∈ t.pc.rest ↔ c ∈ s.pc.rest
  switching : t.pc.switching = s.pc.switching

/-- What a step of the scheduler can mean to the coroutine `c`. -/
inductive Seen (c : Nat) (s t : Scheduler) (a : SchedulerAction) : Prop
  | elsewhere (h : Elsewhere c s t)
  /-- `resumeQueue_` is drained, and the loop over `resumeList` begins -/
  | drained (hfrom : s.currentCoro = none) (hcurrent : t.currentCoro = none)
      (hqueue : t.resumeQueue = [])
      (hresume : c ∈ t.resumeList → c ∈ s.resumeList ∨ c ∈ s.resumeQueue)
      (hyield : c ∈ t.yieldList → c ∈ s.yieldList) (hrest : t.pc.rest = t.resumeList)
  /-- the loop over `yieldList` begins or ends -/
  | turned (hfrom : s.currentCoro = none) (hcurrent : t.currentCoro = none)
      (hqueue : t.resumeQueue = s.resumeQueue) (hpc : s.pc.switching = true)
      (hresume : t.resumeList = s.resumeList) (hyield : t.yieldList = s.yieldList)
      (hrest : c ∈ t.pc.rest → c ∈ s.yieldList)
  /-- `run` switches to the coroutine -/
  | switched (hfrom : s.currentCoro = none) (hcurrent : t.currentCoro = some c)
      (hqueue : t.resumeQueue = s.resumeQueue)
      (hpc : s.pc.switching = true) (hrest : c ∈ s.pc.rest) (hrest' : c ∉ t.pc.rest)
  /-- the coroutine yields -/
  | yielded (ha : a = .yield) (hfrom : s.currentCoro = some c) (hcurrent : t.currentCoro = none)
      (hqueue : t.resumeQueue = s.resumeQueue)

namespace OneCoro

open Scheduler

variable {c d : Nat} {s t : Scheduler} {a : SchedulerAction}

theorem mem_filter_ne {l : List Nat} (hd : d ≠ c) : c ∈ l.filter (· ≠ d) ↔ c ∈ l := by
  simp [hd.symm]

theorem mem_cons_filter_ne {l : List Nat} (hd : d ≠ c) : c ∈ d :: l.filter (· ≠ d) ↔ c ∈ l := by
  rw [List.mem_cons, mem_filter_ne hd]
  exact or_iff_right hd.symm

/-- Another coroutine leaves the processor, or is put into another list. -/
theorem moved (hs : OneCoro c s) (hd : d ≠ c)
    (hcurrent : t.currentCoro = some c ↔ s.currentCoro = some c)
    (hqueue : t.resumeQueue = s.resumeQueue) (hpc : t.pc = s.pc)
    (hfree : c ∈ t.freeList → c ∈ s.freeList)
    (hsleep : ∀ e ∈ t.sleepQueue, e ∈ s.sleepQueue ∨ e.coro = d)
    (hresume : t.resumeList = s.resumeList.filter (· ≠ d))
    (hyield : t.yieldList = s.yieldList.filter (· ≠ d) ∨
      t.yieldList = d :: s.yieldList.filter (· ≠ d)) :
    OneCoro c t ∧ Seen c s t a := by
  refine ⟨⟨hpc ▸ hs.rest_nodup, hresume ▸ hs.resume_nodup.filter _, ?_,
    fun h => hs.not_free (hfree h), ?_⟩, .elsewhere ⟨hcurrent, by rw [hqueue], ?_, ?_, by rw [hpc],
    by rw [hpc]⟩⟩
  · rcases hyield with h | h <;> rw [h]
    · exact hs.yield_nodup.filter _
    · exact Scheduler.nodup_linked hs.yield_nodup
  · intro e he
    rcases hsleep e he with he | he
    · exact hs.not_sleeping e he
    · rw [he]
      exact hd
  · rw [hresume, mem_filter_ne hd]
  · rcases hyield with h | h <;> rw [h]
    · exact mem_filter_ne hd
    · exact mem_cons_filter_ne hd

/-- Another coroutine leaves the processor. -/
theorem leaves {st : CoroStatus} (hs : OneCoro c s) (hl : s.Leaves a d st t) (hd : d ≠ c) :
    OneCoro c t ∧ Seen c s t a := by
  have hcurrent : t.currentCoro = some c ↔ s.currentCoro = some c := by
    rw [hl.current, hl.running]
    exact ⟨nofun, fun h => absurd (Option.some.inj h) hd⟩
  refine hs.moved hd hcurrent hl.queue hl.pc (fun hc => ?_)
    (fun e he => (hl.sleepQueue e he).imp_right And.left) hl.resumeList
    (hl.yieldList.imp_right And.left)
  rcases hl.freeList with hfree | ⟨hfree, -⟩ <;> rw [hfree] at hc
  · exact (mem_filter_ne hd).mp hc
  · exact (mem_cons_filter_ne hd).mp hc

theorem switchTo {pc : RunPc} (hs : OneCoro c s) (hcurrent : s.currentCoro = none)
    (hfrom : s.pc.switching = true) (hpc : pc.switching = true)
    (hrest : s.pc.rest = d :: pc.rest) (ht : { s with pc := pc }.switchTo d = some t) :
    OneCoro c t ∧ Seen c s t a := by
  simp only [Scheduler.switchTo] at ht
  split at ht
  next => cases ht
  next =>
    cases ht
    have hnodup := hs.rest_nodup
    rw [hrest, List.nodup_cons] at hnodup
    refine ⟨⟨hnodup.2, hs.resume_nodup, hs.yield_nodup, hs.not_free, hs.not_sleeping⟩, ?_⟩
    rcases eq_or_ne d c with rfl | hd
    · exact .switched hcurrent rfl rfl hfrom (by rw [hrest]; exact List.mem_cons_self) hnodup.1
    · refine .elsewhere ⟨?_, .rfl, .rfl, .rfl, ?_, hpc.trans hfrom.symm⟩
      · rw [hcurrent]
        exact ⟨fun h => absurd (Option.some.inj h) hd,
          fun h => absurd h.symm (Option.some_ne_none c)⟩
      · rw [hrest, List.mem_cons]
        exact (or_iff_right (Ne.symm hd)).symm

theorem next (hs : OneCoro c s) (hcurrent : s.currentCoro = none) (ht : s.next = some t) :
    OneCoro c t ∧ Seen c s t a := by
  unfold Scheduler.next at ht
  split at ht
  next hpc =>
    cases ht
    refine ⟨⟨.nil, hs.resume_nodup, hs.yield_nodup, hs.not_free, fun e he =>
      hs.not_sleeping e ((List.dropWhile_suffix _).subset he)⟩,
      .elsewhere ⟨.rfl, ?_, .rfl, .rfl, by rw [hpc]; rfl, by rw [hpc]; rfl⟩⟩
    have hdue : c ∉ s.due.map (·.coro) := fun h => by
      obtain ⟨e, he, hec⟩ := List.mem_map.mp h
      exact hs.not_sleeping e ((List.takeWhile_prefix _).subset he) hec
    show c ∈ s.resumeQueue ++ s.due.map (·.coro) ↔ c ∈ s.resumeQueue
    rw [List.mem_append]
    exact or_iff_left hdue
  next hpc =>
    cases ht
    obtain ⟨hresume, hyield⟩ := Scheduler.drain_nodup hs.resume_nodup hs.yield_nodup
    exact ⟨⟨hresume, hresume, hyield, fun h => hs.not_free (Scheduler.mem_of_mem_drain_freeList h),
      fun e he => hs.not_sleeping e (s.drain_sleepQueue ▸ he)⟩,
      .drained hcurrent (s.drain_currentCoro.trans hcurrent) s.drain_resumeQueue
        Scheduler.mem_drain_resumeList.mp Scheduler.mem_of_mem_drain_yieldList rfl⟩
  next hpc =>
    cases ht
    exact ⟨⟨hs.yield_nodup, hs.resume_nodup, hs.yield_nodup, hs.not_free, hs.not_sleeping⟩,
      .turned hcurrent hcurrent rfl (by rw [hpc]; rfl) rfl rfl id⟩
  next d rest hpc => exact hs.switchTo hcurrent (by rw [hpc]; rfl) rfl (by rw [hpc]; rfl) ht
  next hpc =>
    cases ht
    exact ⟨⟨.nil, hs.resume_nodup, hs.yield_nodup, hs.not_free, hs.not_sleeping⟩,
      .turned hcurrent hcurrent rfl (by rw [hpc]; rfl) rfl rfl nofun⟩
  next d rest hpc => exact hs.switchTo hcurrent (by rw [hpc]; rfl) rfl (by rw [hpc]; rfl) ht

/-- A step of the scheduler in which the coroutine `c` does no more than yield. -/
theorem step (hs : OneCoro c s)
    (hleave : a = .suspend ∨ (∃ ms, a = .sleep ms) ∨ a = .finish → s.currentCoro ≠ some c)
    (hresume : a ≠ .resume c) (ht : s.step a = some t) : OneCoro c t ∧ Seen c s t a := by
  cases a with
  | clock now =>
    cases ht
    exact ⟨⟨hs.rest_nodup, hs.resume_nodup, hs.yield_nodup, hs.not_free, hs.not_sleeping⟩,
      .elsewhere ⟨.rfl, .rfl, .rfl, .rfl, .rfl, rfl⟩⟩
  | next =>
    simp only [Scheduler.step, Option.ite_none_right_eq_some] at ht
    exact hs.next ht.1 ht.2
  | yield =>
    obtain ⟨d, st, hl⟩ := leaves_of_step rfl ht
    rcases eq_or_ne d c with rfl | hd
    · refine ⟨⟨hl.pc ▸ hs.rest_nodup, hl.resumeList ▸ hs.resume_nodup.filter _,
        hl.yieldList_nodup hs.yield_nodup, fun hfree => ?_, fun e he => ?_⟩,
        .yielded rfl hl.running hl.current hl.queue⟩
      · rcases hl.freeList with hlist | ⟨-, ha⟩
        · exact hs.not_free (List.mem_of_mem_filter (hlist ▸ hfree))
        · cases ha
      · rcases hl.sleepQueue e he with he | ⟨-, hst⟩
        · exact hs.not_sleeping e he
        · cases hst.symm.trans (hl.yielded.mpr rfl)
    · exact hs.leaves hl hd
  | suspend | sleep ms | finish =>
    obtain ⟨d, st, hl⟩ := leaves_of_step rfl ht
    exact hs.leaves hl fun hd => hleave (by simp) (hd ▸ hl.running)
  | addCoroutine =>
    cases ht
    unfold Scheduler.addCoroutine
    split
    next => exact ⟨hs, .elsewhere ⟨.rfl, .rfl, .rfl, .rfl, .rfl, rfl⟩⟩
    next d freeList hfree =>
      have hd : d ≠ c := fun h => hs.not_free (by rw [hfree, h]; exact List.mem_cons_self)
      exact hs.moved hd .rfl rfl rfl List.mem_of_mem_filter (fun e he => .inl he) rfl (.inr rfl)
  | resume d =>
    simp only [Scheduler.step, Option.ite_none_right_eq_some, Option.some.injEq] at ht
    obtain ⟨-, rfl⟩ := ht
    have hd : c ≠ d := fun h => hresume (by rw [h])
    refine ⟨⟨hs.rest_nodup, hs.resume_nodup, hs.yield_nodup, hs.not_free, hs.not_sleeping⟩,
      .elsewhere ⟨.rfl, ?_, .rfl, .rfl, .rfl, rfl⟩⟩
    simp [hd]

end OneCoro

/-! ## Asleep and awake -/

/-- Nothing leads the scheduler to the coroutine `c`, until somebody resumes it. -/
structure Asleep (c : Nat) (s : Scheduler) : Prop where
  current : s.currentCoro ≠ some c
  queue : c ∉ s.resumeQueue
  resume : c ∉ s.resumeList
  yield : c ∉ s.yieldList
  rest : c ∉ s.pc.rest

/-- The coroutine `c` runs, or `run` will switch to it. -/
def Awake (c : Nat) (s : Scheduler) : Prop :=
  s.currentCoro = some c ∨ c ∈ s.resumeQueue ∨ c ∈ s.pc.rest

theorem Asleep.not_awake {c : Nat} {s : Scheduler} (h : Asleep c s) : ¬ Awake c s := by
  rintro (hcurrent | hqueue | hrest)
  · exact h.current hcurrent
  · exact h.queue hqueue
  · exact h.rest hrest

theorem Asleep.step {c : Nat} {s t : Scheduler} {a : SchedulerAction} (h : Asleep c s)
    (hseen : Seen c s t a) : Asleep c t := by
  cases hseen with
  | elsewhere he =>
    exact ⟨fun hc => h.current (he.current.mp hc), fun hc => h.queue (he.queue.mp hc),
      fun hc => h.resume (he.resume.mp hc), fun hc => h.yield (he.yield.mp hc),
      fun hc => h.rest (he.rest.mp hc)⟩
  | drained hfrom hcurrent hqueue hresume hyield hrest =>
    have hnot : c ∉ t.resumeList := fun hc => (hresume hc).elim h.resume h.queue
    refine ⟨by rw [hcurrent]; exact nofun, by rw [hqueue]; exact nofun, hnot,
      fun hc => h.yield (hyield hc), by rw [hrest]; exact hnot⟩
  | turned hfrom hcurrent hqueue hpc hresume hyield hrest =>
    exact ⟨by rw [hcurrent]; exact nofun, by rw [hqueue]; exact h.queue,
      by rw [hresume]; exact h.resume, by rw [hyield]; exact h.yield,
      fun hc => h.yield (hrest hc)⟩
  | switched hfrom hcurrent hqueue hpc hrest => exact absurd hrest h.rest
  | yielded ha hfrom => exact absurd hfrom h.current

/-- A coroutine stays awake until it leaves the processor. -/
theorem Awake.step {c : Nat} {s t : Scheduler} {a : SchedulerAction} (h : Awake c s)
    (hleave : a = .yield ∨ a = .suspend ∨ (∃ ms, a = .sleep ms) ∨ a = .finish →
      s.currentCoro ≠ some c) (ht : s.step a = some t) : Awake c t := by
  -- the other coroutines leave the processor, and `resumeQueue_` and `pc` stay
  have hleft : ∀ {t : Scheduler}, s.currentCoro ≠ some c → t.resumeQueue = s.resumeQueue →
      t.pc = s.pc → Awake c t := by
    intro t hcurrent hqueue hpc
    rcases h with h | h | h
    · exact absurd h hcurrent
    · exact .inr (.inl (hqueue ▸ h))
    · exact .inr (.inr (hpc ▸ h))
  cases a with
  | clock now =>
    cases ht
    exact h
  | next =>
    simp only [Scheduler.step, Option.ite_none_right_eq_some] at ht
    obtain ⟨hnone, ht⟩ := ht
    have h : c ∈ s.resumeQueue ∨ c ∈ s.pc.rest := by
      rcases h with h | h
      · cases hnone.symm.trans h
      · exact h
    have hswitch : ∀ {d : Nat} {rest : List Nat} {pc : RunPc}, s.pc.rest = d :: rest →
        pc.rest = rest → { s with pc := pc }.switchTo d = some t → Awake c t := by
      intro d rest pc hrest hpc hto
      obtain ⟨-, hto⟩ := Option.ite_none_left_eq_some.mp hto
      cases hto
      rcases h with h | h
      · exact .inr (.inl h)
      · rcases List.mem_cons.mp (hrest ▸ h) with rfl | h
        · exact .inl rfl
        · exact .inr (.inr (hpc ▸ h))
    unfold Scheduler.next at ht
    split at ht
    next hpc =>
      cases ht
      rw [hpc] at h
      exact .inr (.inl (List.mem_append_left _ (h.resolve_right List.not_mem_nil)))
    next hpc =>
      cases ht
      rw [hpc] at h
      have hqueue : c ∈ s.resumeQueue := h.resolve_right List.not_mem_nil
      exact .inr (.inr (Scheduler.mem_drain_resumeList.mpr (.inr hqueue)))
    next hpc =>
      cases ht
      rw [hpc] at h
      exact .inr (.inl (h.resolve_right List.not_mem_nil))
    next d rest hpc => exact hswitch (by rw [hpc]; rfl) rfl ht
    next hpc =>
      cases ht
      rw [hpc] at h
      exact .inr (.inl (h.resolve_right List.not_mem_nil))
    next d rest hpc => exact hswitch (by rw [hpc]; rfl) rfl ht
  | yield | suspend | sleep ms | finish =>
    obtain ⟨d, st, hl⟩ := Scheduler.leaves_of_step rfl ht
    exact hleft (hleave (by simp)) hl.queue hl.pc
  | addCoroutine =>
    cases ht
    unfold Scheduler.addCoroutine
    split <;> exact h
  | resume d =>
    simp only [Scheduler.step, Option.ite_none_right_eq_some, Option.some.injEq] at ht
    obtain ⟨-, rfl⟩ := ht
    exact h.imp_right (Or.imp_left (List.mem_append_left _))

end Sheep
