import Sheep.Coroutine.SlotReuse

/-!
# One iteration of the loop of `run`

`schedulerRound coroNum s` is the scheduler from the start `s` of an iteration to its end, with a
record of what `run` reads and whom it switches to. `run` walks through a copy of the resume list
and then through one of the yield list, while the coroutines it switches to move slots between the
lists, add coroutines, and finish.

`RoundLaw`: each coroutine that was in `resumeQueue_` is switched to once, each coroutine of the
copied yield list is switched to once, nobody else is, and the resume list is empty between the two
loops. `round_law`: so it is in every iteration that starts without a request for a finished
coroutine.
-/

namespace Sheep

/-- The scheduler in an iteration of `run`. All fields but the first are ghosts. -/
structure Round where
  sched : Scheduler
  /-- `resumeQueue_` when it is drained -/
  drained : List Nat
  /-- whom the loop over `resumeList` has switched to -/
  resumed : List Nat
  /-- `yieldList` -/
  read : List Nat
  /-- whom the loop over `yieldList` has switched to -/
  yielded : List Nat
  /-- the iteration is over -/
  ended : Bool

namespace Round

def start (s : Scheduler) : Round := ⟨s, [], [], [], [], false⟩

/-- The next step of `run`, written down. -/
def note (r : Round) : Round :=
  match r.sched.pc with
  | .wakeUpSleep => r
  | .drain => { r with drained := r.sched.resumeQueue }
  | .resuming [] => { r with read := r.sched.yieldList }
  | .resuming (c :: _) => { r with resumed := r.resumed ++ [c] }
  | .yielding [] => { r with ended := true }
  | .yielding (c :: _) => { r with yielded := r.yielded ++ [c] }

/-- Before `resumeQueue_` is drained no coroutine runs, but the event loop and other threads call
`resume`. What they put into the queue then is not finished either. -/
def allows (r : Round) : SchedulerAction → Bool
  | .resume c => r.sched.pc.switching || r.sched.status c ≠ .free
  | _ => true

def step (coroNum : Nat) (r : Round) (a : SchedulerAction) : Option Round :=
  if r.ended = false ∧ r.allows a = true then
    (r.sched.stepAny coroNum a).map fun sched =>
      { (if a = .next then r.note else r) with sched := sched }
  else none

/-- How far the iteration is from its end: the part it is in, and the switches left there. -/
def rank (r : Round) : Nat × Nat :=
  if r.ended then (0, 0)
  else
    match r.sched.pc with
    | .wakeUpSleep => (3, 0)
    | .drain => (2, 0)
    | .resuming rest => (1, rest.length)
    | .yielding rest => (0, rest.length + 1)

end Round

/-- One iteration of `run`, from its start `s` on. -/
def schedulerRound (coroNum : Nat) (s : Scheduler) : System Round SchedulerAction :=
  ⟨.start s, Round.step coroNum⟩

/-- What holds at any time in an iteration. -/
structure RoundLaw (coroNum : Nat) (r : Round) : Prop where
  resumed_once : r.resumed.Nodup
  resumed_only : r.resumed ⊆ r.drained
  /-- the loop over `resumeList` ends when it has switched to all, with an empty resume list -/
  resume_end : r.sched.pc = .resuming [] → r.sched.currentCoro = none →
    r.drained ⊆ r.resumed ∧ r.sched.resumeList = []
  yielded_once : r.yielded.Nodup
  yielded_only : r.yielded ⊆ r.read
  round_end : r.ended = true → r.drained ⊆ r.resumed ∧ r.read ⊆ r.yielded
  /-- the coroutine that runs is the last one that was switched to -/
  current : ∀ c, r.sched.currentCoro = some c → (r.resumed ++ r.yielded).getLast? = some c
  /-- `run` goes on when the coroutine it switched to has switched back -/
  goes_on : r.ended = false → r.sched.currentCoro = none → (r.step coroNum .next).isSome
  /-- and comes nearer to the end with each of its steps, whatever happens in between -/
  nearer : ∀ a t, r.step coroNum a = some t →
    if a = .next then Prod.Lex (· < ·) (· < ·) t.rank r.rank else t.rank = r.rank

/-! ## The lists of the scheduler in each part of `run` -/

/-- The lists in every state of a run. -/
structure PhaseInv (s : Scheduler) : Prop where
  resume_nodup : s.resumeList.Nodup
  yield_nodup : s.yieldList.Nodup
  yield : ∀ c ∈ s.yieldList, s.status c ≠ .free
  switching : ∀ c, s.currentCoro = some c → s.pc.switching = true
  /-- the resume list is for the loop over its copy -/
  resume : ∀ c ∈ s.resumeList, s.pc = .resuming s.pc.rest ∧
    (c ∈ s.pc.rest ∨ s.currentCoro = some c)

namespace PhaseInv

open Scheduler

variable {s t : Scheduler} {c : Nat}

theorem init (coroNum : Nat) : PhaseInv (.init coroNum) :=
  ⟨.nil, .nil, nofun, nofun, nofun⟩

theorem resumeList_eq_nil (h : PhaseInv s) (hpc : s.pc ≠ .resuming s.pc.rest) :
    s.resumeList = [] :=
  List.eq_nil_iff_forall_not_mem.mpr fun c hc => hpc (h.resume c hc).1

/-- At the end of the loop over `resumeList` all its coroutines have left the resume list. -/
theorem resumeList_eq_nil_of_resumed (h : PhaseInv s) (hpc : s.pc = .resuming [])
    (hcurrent : s.currentCoro = none) : s.resumeList = [] := by
  refine List.eq_nil_iff_forall_not_mem.mpr fun c hc => ?_
  rcases (h.resume c hc).2 with hrest | hc
  · rw [hpc] at hrest
    exact List.not_mem_nil hrest
  · exact absurd (hcurrent.symm.trans hc) nofun

theorem leaves {a : SchedulerAction} {st : CoroStatus} (h : PhaseInv s)
    (hl : s.Leaves a c st t) : PhaseInv t := by
  refine ⟨hl.resumeList ▸ h.resume_nodup.filter _,
    hl.yieldList_nodup h.yield_nodup, ?_, fun d hd => ?_, fun d hd => ?_⟩
  · rw [hl.status]
    exact status_update (P := (· ≠ .free)) h.yield fun _ => hl.mem_yieldList
  · exact absurd (hl.current.symm.trans hd) nofun
  · rw [hl.resumeList] at hd
    obtain ⟨hd, hne⟩ := List.mem_filter.mp hd
    obtain ⟨hphase, hrest⟩ := h.resume d hd
    rw [hl.pc]
    refine ⟨hphase, hrest.imp_right fun hdc => ?_⟩
    exact absurd (Option.some.inj (hdc.symm.trans hl.running)) (of_decide_eq_true hne)

theorem switchTo {pc : RunPc} (h : PhaseInv s) (hcurrent : s.currentCoro = none)
    (hrest : s.pc.rest = c :: pc.rest) (hswitching : pc.switching = true)
    (hphase : s.pc = .resuming s.pc.rest → pc = .resuming pc.rest)
    (ht : { s with pc := pc }.switchTo c = some t) : PhaseInv t := by
  have hlive : ∀ d, s.status d ≠ .free → t.status d ≠ .free := fun d => switchTo_live ht
  obtain ⟨-, ht⟩ := Option.ite_none_left_eq_some.mp ht
  cases ht
  refine ⟨h.resume_nodup, h.yield_nodup, fun d hd => hlive d (h.yield d hd), fun _ _ => hswitching,
    fun d hd => ?_⟩
  obtain ⟨hpc, hd⟩ := h.resume d hd
  refine ⟨hphase hpc, ?_⟩
  rcases hd with hd | hd
  · rcases List.mem_cons.mp (hrest ▸ hd) with rfl | hd
    · exact .inr rfl
    · exact .inl hd
  · exact absurd (hcurrent.symm.trans hd) nofun

theorem next (h : PhaseInv s) (hcurrent : s.currentCoro = none) (ht : s.next = some t) :
    PhaseInv t := by
  have hnone : ∀ {t : Scheduler}, t.currentCoro = s.currentCoro →
      ∀ c, t.currentCoro = some c → t.pc.switching = true := fun heq c hc =>
    absurd ((heq.trans hcurrent).symm.trans hc) nofun
  have hempty : ∀ {P : Nat → Prop}, s.resumeList = [] → ∀ c ∈ s.resumeList, P c :=
    fun hnil c hc => absurd (hnil ▸ hc) List.not_mem_nil
  unfold Scheduler.next at ht
  split at ht
  next hpc =>
    cases ht
    exact ⟨h.resume_nodup, h.yield_nodup, h.yield, hnone rfl,
      hempty (h.resumeList_eq_nil (by rw [hpc]; nofun))⟩
  next hpc =>
    cases ht
    obtain ⟨hresume, hyield⟩ := drain_nodup h.resume_nodup h.yield_nodup
    refine ⟨hresume, hyield, fun c hc => ?_, hnone s.drain_currentCoro, fun c hc => ⟨rfl, .inl hc⟩⟩
    have hlive := h.yield c (mem_of_mem_drain_yieldList hc)
    rwa [← s.drain_status] at hlive
  next hpc =>
    cases ht
    exact ⟨h.resume_nodup, h.yield_nodup, h.yield, hnone rfl,
      hempty (h.resumeList_eq_nil_of_resumed hpc hcurrent)⟩
  next c rest hpc => exact h.switchTo hcurrent (by rw [hpc]; rfl) rfl (fun _ => rfl) ht
  next hpc =>
    cases ht
    exact ⟨h.resume_nodup, h.yield_nodup, h.yield, hnone rfl,
      hempty (h.resumeList_eq_nil (by rw [hpc]; nofun))⟩
  next c rest hpc =>
    exact h.switchTo hcurrent (by rw [hpc]; rfl) rfl (fun heq => by rw [hpc] at heq; cases heq) ht

theorem addCoroutine (h : PhaseInv s) : PhaseInv s.addCoroutine := by
  unfold Scheduler.addCoroutine
  split
  next => exact h
  next c freeList hfree =>
    refine ⟨h.resume_nodup.filter _, nodup_linked h.yield_nodup, ?_, h.switching,
      fun d hd => h.resume d (List.mem_of_mem_filter hd)⟩
    exact status_update (P := (· ≠ .free)) h.yield fun _ => mem_linked (by decide)

theorem step {coroNum : Nat} {a : SchedulerAction} (h : PhaseInv s)
    (ht : s.stepAny coroNum a = some t) : PhaseInv t := by
  cases a with
  | clock now =>
    cases ht
    exact ⟨h.resume_nodup, h.yield_nodup, h.yield, h.switching, h.resume⟩
  | next =>
    simp only [stepAny, Scheduler.step, Option.ite_none_right_eq_some] at ht
    exact h.next ht.1 ht.2
  | yield | suspend | sleep ms | finish =>
    obtain ⟨c, st, hl⟩ := leaves_of_stepAny rfl ht
    exact h.leaves hl
  | addCoroutine =>
    cases ht
    exact h.addCoroutine
  | resume c =>
    simp only [stepAny, Option.ite_none_right_eq_some, Option.some.injEq] at ht
    obtain ⟨-, rfl⟩ := ht
    exact ⟨h.resume_nodup, h.yield_nodup, h.yield, h.switching, h.resume⟩

theorem reachable {coroNum : Nat} (h : (listScheduler coroNum).Reachable s) : PhaseInv s :=
  h.invariant (.init coroNum) fun _ _ _ h _ ht => h.step ht

end PhaseInv

/-! ## What happens while `run` waits -/

/-- A step of a coroutine or of another thread, as `run` sees it. -/
structure Aside (s t : Scheduler) (a : SchedulerAction) : Prop where
  pc : t.pc = s.pc
  current : ∀ c, t.currentCoro = some c → s.currentCoro = some c
  /-- only the coroutine that runs can finish -/
  status : ∀ c, s.currentCoro ≠ some c → s.status c ≠ .free → t.status c ≠ .free
  queue : ∀ c ∈ t.resumeQueue, c ∈ s.resumeQueue ∨ a = .resume c
  sleep : s.currentCoro = none → t.sleepQueue = s.sleepQueue

namespace Aside

open Scheduler

variable {s t : Scheduler} {a : SchedulerAction}

theorem leaves {c : Nat} {st : CoroStatus} (hl : s.Leaves a c st t) : Aside s t a := by
  refine ⟨hl.pc, fun d hd => absurd (hl.current.symm.trans hd) nofun, fun d hd hfree => ?_,
    fun d hd => .inl (hl.queue ▸ hd), fun hnone => absurd (hl.running.symm.trans hnone) nofun⟩
  have hdc : d ≠ c := fun h => hd (h ▸ hl.running)
  rw [hl.status, Function.update_of_ne hdc]
  exact hfree

theorem of_step {coroNum : Nat} (ha : a ≠ .next) (ht : s.stepAny coroNum a = some t) :
    Aside s t a := by
  cases a with
  | clock now =>
    cases ht
    exact ⟨rfl, fun _ => id, fun _ _ => id, fun _ => .inl, fun _ => rfl⟩
  | next => exact absurd rfl ha
  | yield | suspend | sleep ms | finish =>
    obtain ⟨c, st, hl⟩ := leaves_of_stepAny rfl ht
    exact leaves hl
  | addCoroutine =>
    cases ht
    unfold Scheduler.addCoroutine
    split
    next => exact ⟨rfl, fun _ => id, fun _ _ => id, fun _ => .inl, fun _ => rfl⟩
    next c freeList hfree =>
      refine ⟨rfl, fun _ => id, fun d _ hd => ?_, fun _ => .inl, fun _ => rfl⟩
      rcases eq_or_ne d c with rfl | hdc
      · exact fun h => absurd ((Function.update_self ..).symm.trans h) nofun
      · exact fun h => hd ((Function.update_of_ne hdc ..).symm.trans h)
  | resume c =>
    simp only [stepAny, Option.ite_none_right_eq_some, Option.some.injEq] at ht
    obtain ⟨-, rfl⟩ := ht
    refine ⟨rfl, fun _ => id, fun _ _ => id, fun d hd => ?_, fun _ => rfl⟩
    exact (List.mem_append.mp hd).imp_right fun h => by rw [List.mem_singleton.mp h]

end Aside

/-! ## The invariant of an iteration -/

/-- The part of the iteration, and what the record says in it. -/
inductive RoundPart (r : Round) : Prop
  /-- `resumeQueue_` has not been drained -/
  | begun (hended : r.ended = false) (hpc : r.sched.pc.switching = false)
      (hdrained : r.drained = []) (hresumed : r.resumed = []) (hread : r.read = [])
      (hyielded : r.yielded = []) (hqueue : ∀ c ∈ r.sched.resumeQueue, r.sched.status c ≠ .free)
      (hsleep : ∀ e ∈ r.sched.sleepQueue, r.sched.status e.coro ≠ .free)
  | resuming (rest : List Nat) (hended : r.ended = false) (hpc : r.sched.pc = .resuming rest)
      (hread : r.read = []) (hyielded : r.yielded = []) (hnodup : (r.resumed ++ rest).Nodup)
      (hmem : ∀ c, c ∈ r.resumed ++ rest ↔ c ∈ r.drained)
      (hlive : ∀ c ∈ rest, r.sched.status c ≠ .free)
      (hlast : ∀ c, r.sched.currentCoro = some c → r.resumed.getLast? = some c)
  | yielding (rest : List Nat) (hended : r.ended = false) (hpc : r.sched.pc = .yielding rest)
      (hread : r.read = r.yielded ++ rest) (hresumed : r.resumed.Nodup)
      (hmem : ∀ c, c ∈ r.resumed ↔ c ∈ r.drained) (hnodup : (r.yielded ++ rest).Nodup)
      (hlive : ∀ c ∈ rest, r.sched.status c ≠ .free)
      (hlast : ∀ c, r.sched.currentCoro = some c → r.yielded.getLast? = some c)
  | finished (hended : r.ended = true) (hpc : r.sched.pc = .wakeUpSleep)
      (hread : r.read = r.yielded) (hresumed : r.resumed.Nodup)
      (hmem : ∀ c, c ∈ r.resumed ↔ c ∈ r.drained) (hnodup : r.yielded.Nodup)

structure RoundInv (r : Round) : Prop where
  phase : PhaseInv r.sched
  part : RoundPart r

namespace RoundInv

open Scheduler

variable {coroNum : Nat} {r t : Round} {sched : Scheduler} {a : SchedulerAction}

/-- Outside the two loops no coroutine runs. -/
theorem no_current (h : RoundInv r) (hpc : r.sched.pc.switching = false) (c : Nat) :
    r.sched.currentCoro ≠ some c := by
  intro hc
  have hswitching := h.phase.switching c hc
  rw [hpc] at hswitching
  cases hswitching

theorem start {s : Scheduler} (h : PhaseInv s) (hpc : s.pc = .wakeUpSleep)
    (hqueue : ∀ c ∈ s.resumeQueue, s.status c ≠ .free)
    (hsleep : ∀ e ∈ s.sleepQueue, s.status e.coro ≠ .free) : RoundInv (.start s) :=
  ⟨h, .begun rfl (by rw [Round.start, hpc]; rfl) rfl rfl rfl rfl hqueue hsleep⟩

/-- The coroutine that runs is none of those that `run` has still to switch to. -/
theorem not_current {s : Scheduler} {l rest : List Nat} {c : Nat} (hnodup : (l ++ rest).Nodup)
    (hlast : ∀ c, s.currentCoro = some c → l.getLast? = some c) (hc : c ∈ rest) :
    s.currentCoro ≠ some c := fun hcur =>
  (List.nodup_append.mp hnodup).2.2 c (List.mem_of_getLast? (hlast c hcur)) c hc rfl

theorem aside (h : RoundInv r) (hended : r.ended = false) (hallows : r.allows a = true)
    (ha : a ≠ .next) (ht : r.sched.stepAny coroNum a = some sched) :
    RoundInv { r with sched := sched } := by
  have hs := Aside.of_step ha ht
  refine ⟨h.phase.step ht, ?_⟩
  cases h.part with
  | begun _ hpc hdrained hresumed hread hyielded hqueue hsleep =>
    -- nobody runs before the loops, and so nobody finishes
    have hnone := h.no_current hpc
    refine .begun hended (hs.pc ▸ hpc) hdrained hresumed hread hyielded (fun c hc => ?_)
      fun e he => ?_
    · refine hs.status c (hnone c) ?_
      rcases hs.queue c hc with hc | rfl
      · exact hqueue c hc
      · rw [Round.allows, hpc] at hallows
        simpa using hallows
    · rw [hs.sleep (Option.eq_none_iff_forall_ne_some.mpr hnone)] at he
      exact hs.status _ (hnone _) (hsleep e he)
  | resuming rest _ hpc hread hyielded hnodup hmem hlive hlast =>
    exact .resuming rest hended (hs.pc.trans hpc) hread hyielded hnodup hmem
      (fun c hc => hs.status c (not_current hnodup hlast hc) (hlive c hc))
      fun c hc => hlast c (hs.current c hc)
  | yielding rest _ hpc hread hresumed hmem hnodup hlive hlast =>
    exact .yielding rest hended (hs.pc.trans hpc) hread hresumed hmem hnodup
      (fun c hc => hs.status c (not_current hnodup hlast hc) (hlive c hc))
      fun c hc => hlast c (hs.current c hc)
  | finished hfinished => exact absurd (hended.symm.trans hfinished) nofun

/-- What `switchTo` does to the record of either loop. -/
theorem switched {s s' : Scheduler} {pc : RunPc} {c : Nat} {rest : List Nat}
    (hlive : ∀ d ∈ c :: rest, s.status d ≠ .free)
    (ht : { s with pc := pc }.switchTo c = some s') :
    s'.pc = pc ∧ (∀ d ∈ rest, s'.status d ≠ .free) ∧
      ∀ (l : List Nat) (d : Nat), s'.currentCoro = some d → (l ++ [c]).getLast? = some d := by
  have hlive' : ∀ d ∈ rest, s'.status d ≠ .free := fun d hd =>
    switchTo_live ht (hlive d (List.mem_cons_of_mem c hd))
  obtain ⟨-, ht⟩ := Option.ite_none_left_eq_some.mp ht
  cases ht
  refine ⟨rfl, hlive', fun l d hd => ?_⟩
  rw [List.getLast?_concat]
  exact hd

/-- `resumeQueue_` is drained, and the loop over `resumeList` begins. -/
theorem drained (h : PhaseInv r.sched) (hended : r.ended = false) (hpc : r.sched.pc = .drain)
    (hcurrent : r.sched.currentCoro = none) (hresumed : r.resumed = []) (hread : r.read = [])
    (hyielded : r.yielded = []) (hqueue : ∀ c ∈ r.sched.resumeQueue, r.sched.status c ≠ .free) :
    RoundPart { r with
      drained := r.sched.resumeQueue
      sched := { r.sched.drain with pc := .resuming r.sched.drain.resumeList } } := by
  have hnil : r.sched.resumeList = [] := h.resumeList_eq_nil (by rw [hpc]; nofun)
  have hmem : ∀ c, c ∈ r.sched.drain.resumeList ↔ c ∈ r.sched.resumeQueue := fun c => by
    rw [mem_drain_resumeList, hnil]
    exact or_iff_right List.not_mem_nil
  refine .resuming r.sched.drain.resumeList hended rfl hread hyielded ?_ (fun c => ?_)
    (fun c hc => ?_) fun c hc => ?_
  · show (r.resumed ++ r.sched.drain.resumeList).Nodup
    rw [hresumed]
    exact (drain_nodup h.resume_nodup h.yield_nodup).1
  · show c ∈ r.resumed ++ r.sched.drain.resumeList ↔ c ∈ r.sched.resumeQueue
    rw [hresumed]
    exact hmem c
  · have hlive := hqueue c ((hmem c).mp hc)
    rwa [← r.sched.drain_status] at hlive
  · have hnone := r.sched.drain_currentCoro.trans hcurrent
    exact absurd (hnone.symm.trans hc) nofun

/-- The yield list is copied, and the loop over `yieldList` begins. -/
theorem yieldRead (h : PhaseInv r.sched) (hended : r.ended = false)
    (hcurrent : r.sched.currentCoro = none) (hresumed : r.resumed.Nodup)
    (hmem : ∀ c, c ∈ r.resumed ↔ c ∈ r.drained) (hyielded : r.yielded = []) :
    RoundPart { r with
      read := r.sched.yieldList
      sched := { r.sched with pc := .yielding r.sched.yieldList } } := by
  refine .yielding r.sched.yieldList hended rfl ?_ hresumed hmem ?_ h.yield fun c hc =>
    absurd (hcurrent.symm.trans hc) nofun
  · show r.sched.yieldList = r.yielded ++ r.sched.yieldList
    rw [hyielded, List.nil_append]
  · show (r.yielded ++ r.sched.yieldList).Nodup
    rw [hyielded]
    exact h.yield_nodup

theorem next (h : RoundInv r) (hended : r.ended = false) (hcurrent : r.sched.currentCoro = none)
    (ht : r.sched.next = some sched) : RoundInv { r.note with sched := sched } := by
  refine ⟨h.phase.next hcurrent ht, ?_⟩
  unfold Scheduler.next at ht
  unfold Round.note
  cases h.part with
  | begun _ hpc hdrained hresumed hread hyielded hqueue hsleep =>
    cases hat : r.sched.pc with
    | wakeUpSleep =>
      simp only [hat, Option.some.injEq] at ht ⊢
      subst ht
      refine .begun hended rfl hdrained hresumed hread hyielded (fun c hc => ?_)
        fun e he => hsleep e ((List.dropWhile_suffix _).subset he)
      rcases List.mem_append.mp hc with hc | hc
      · exact hqueue c hc
      · obtain ⟨e, he, rfl⟩ := List.mem_map.mp hc
        exact hsleep e ((List.takeWhile_prefix _).subset he)
    | drain =>
      simp only [hat, Option.some.injEq] at ht ⊢
      subst ht
      exact drained h.phase hended hat hcurrent hresumed hread hyielded hqueue
    | resuming rest =>
      rw [hat] at hpc
      cases hpc
    | yielding rest =>
      rw [hat] at hpc
      cases hpc
  | resuming rest _ hpc hread hyielded hnodup hmem hlive _ =>
    cases rest with
    | nil =>
      simp only [hpc, Option.some.injEq] at ht ⊢
      subst ht
      rw [List.append_nil] at hnodup hmem
      exact yieldRead h.phase hended hcurrent hnodup hmem hyielded
    | cons c rest =>
      simp only [hpc] at ht ⊢
      obtain ⟨hpc', hlive', hlast'⟩ := switched hlive ht
      rw [List.append_cons] at hnodup hmem
      exact .resuming rest hended hpc' hread hyielded hnodup hmem hlive' (hlast' _)
  | yielding rest _ hpc hread hresumed hmem hnodup hlive _ =>
    cases rest with
    | nil =>
      simp only [hpc, Option.some.injEq] at ht ⊢
      subst ht
      rw [List.append_nil] at hread hnodup
      exact .finished rfl rfl hread hresumed hmem hnodup
    | cons c rest =>
      simp only [hpc] at ht ⊢
      obtain ⟨hpc', hlive', hlast'⟩ := switched hlive ht
      rw [List.append_cons] at hread hnodup
      exact .yielding rest hended hpc' hread hresumed hmem hnodup hlive' (hlast' _)
  | finished hfinished => exact absurd (hended.symm.trans hfinished) nofun

theorem step (h : RoundInv r) (ht : r.step coroNum a = some t) : RoundInv t := by
  simp only [Round.step, Option.ite_none_right_eq_some] at ht
  obtain ⟨⟨hended, hallows⟩, ht⟩ := ht
  obtain ⟨sched, hsched, rfl⟩ := Option.map_eq_some_iff.mp ht
  rcases eq_or_ne a .next with rfl | ha
  · simp only [stepAny, Scheduler.step, Option.ite_none_right_eq_some] at hsched
    exact h.next hended hsched.1 hsched.2
  · rw [if_neg ha]
    exact h.aside hended hallows ha hsched

end RoundInv

/-! ## To the end of the iteration -/

namespace Round

open Scheduler

variable {coroNum : Nat} {r t : Round} {a : SchedulerAction}

theorem switchTo_pc {s s' : Scheduler} {pc : RunPc} {c : Nat}
    (ht : { s with pc := pc }.switchTo c = some s') : s'.pc = pc := by
  obtain ⟨-, ht⟩ := Option.ite_none_left_eq_some.mp ht
  cases ht
  rfl

/-- A step of `run` ends a part of the iteration, or is one of the switches left. -/
theorem next_nearer {sched : Scheduler} (hended : r.ended = false)
    (ht : r.sched.next = some sched) :
    Prod.Lex (· < ·) (· < ·) { r.note with sched := sched }.rank r.rank := by
  unfold Scheduler.next at ht
  unfold rank note
  split at ht
  next hpc =>
    cases ht
    simp only [hpc, hended]
    exact .left _ _ (by decide)
  next hpc =>
    cases ht
    simp only [hpc, hended]
    exact .left _ _ (by decide)
  next hpc =>
    cases ht
    simp only [hpc, hended]
    exact .left _ _ (by decide)
  next c rest hpc =>
    simp only [hpc, hended, switchTo_pc ht]
    exact .right _ (Nat.lt_succ_self _)
  next hpc =>
    cases ht
    simp only [hpc, hended]
    exact .right _ (by decide)
  next c rest hpc =>
    simp only [hpc, hended, switchTo_pc ht]
    exact .right _ (Nat.lt_succ_self _)

theorem nearer (ht : r.step coroNum a = some t) :
    if a = .next then Prod.Lex (· < ·) (· < ·) t.rank r.rank else t.rank = r.rank := by
  simp only [step, Option.ite_none_right_eq_some] at ht
  obtain ⟨⟨hended, -⟩, ht⟩ := ht
  obtain ⟨sched, hsched, rfl⟩ := Option.map_eq_some_iff.mp ht
  split
  next ha =>
    subst ha
    simp only [stepAny, Scheduler.step, Option.ite_none_right_eq_some] at hsched
    exact next_nearer hended hsched.2
  next ha =>
    have hpc := (Aside.of_step ha hsched).pc
    simp only [rank, hpc]

/-- `run` goes on as long as nobody whom it would switch to has finished. -/
theorem goes_on (hended : r.ended = false) (hcurrent : r.sched.currentCoro = none)
    (hlive : ∀ c ∈ r.sched.pc.rest, r.sched.status c ≠ .free) :
    (r.step coroNum .next).isSome := by
  have hswitch : ∀ {pc : RunPc} {c : Nat} {rest : List Nat}, r.sched.pc.rest = c :: rest →
      ({ r.sched with pc := pc }.switchTo c).isSome := fun hrest => by
    have hfree := hlive _ (hrest ▸ List.mem_cons_self)
    rw [Scheduler.switchTo, if_neg hfree]
    rfl
  have hnext : r.sched.next.isSome := by
    unfold Scheduler.next
    split
    next => rfl
    next => rfl
    next => rfl
    next c rest hpc => exact hswitch (by rw [hpc]; rfl)
    next => rfl
    next c rest hpc => exact hswitch (by rw [hpc]; rfl)
  have hstep : r.sched.stepAny coroNum .next = r.sched.next := if_pos hcurrent
  rw [step, if_pos ⟨hended, rfl⟩, Option.isSome_map, hstep]
  exact hnext

end Round

namespace RoundInv

variable {coroNum : Nat} {r : Round}

/-- No coroutine that `run` has still to switch to has finished. -/
theorem live (h : RoundInv r) (hended : r.ended = false) :
    ∀ c ∈ r.sched.pc.rest, r.sched.status c ≠ .free := by
  cases h.part with
  | begun _ hpc =>
    intro c hc
    cases hat : r.sched.pc <;> rw [hat] at hpc hc <;> cases hpc <;> cases hc
  | resuming rest _ hpc _ _ _ _ hlive =>
    rw [hpc]
    exact hlive
  | yielding rest _ hpc _ _ _ _ hlive =>
    rw [hpc]
    exact hlive
  | finished hfinished => exact absurd (hended.symm.trans hfinished) nofun

theorem resumed (h : RoundInv r) : r.resumed.Nodup ∧ r.resumed ⊆ r.drained := by
  cases h.part with
  | begun _ _ _ hresumed =>
    rw [hresumed]
    exact ⟨.nil, List.nil_subset _⟩
  | resuming rest _ _ _ _ hnodup hmem =>
    exact ⟨(List.nodup_append.mp hnodup).1, fun c hc => (hmem c).mp (List.mem_append_left _ hc)⟩
  | yielding _ _ _ _ hresumed hmem => exact ⟨hresumed, fun c hc => (hmem c).mp hc⟩
  | finished _ _ _ hresumed hmem => exact ⟨hresumed, fun c hc => (hmem c).mp hc⟩

theorem yielded (h : RoundInv r) : r.yielded.Nodup ∧ r.yielded ⊆ r.read := by
  cases h.part with
  | begun _ _ _ _ _ hyielded =>
    rw [hyielded]
    exact ⟨.nil, List.nil_subset _⟩
  | resuming _ _ _ _ hyielded =>
    rw [hyielded]
    exact ⟨.nil, List.nil_subset _⟩
  | yielding rest _ _ hread _ _ hnodup =>
    rw [hread]
    exact ⟨(List.nodup_append.mp hnodup).1, List.subset_append_left _ _⟩
  | finished _ _ hread _ _ hnodup =>
    rw [hread]
    exact ⟨hnodup, List.Subset.refl _⟩

theorem resume_end (h : RoundInv r) (hpc : r.sched.pc = .resuming []) :
    r.drained ⊆ r.resumed := by
  cases h.part with
  | begun _ hat => rw [hpc] at hat; cases hat
  | resuming rest _ hat _ _ _ hmem =>
    rw [hpc] at hat
    cases hat
    intro c hc
    rw [← hmem, List.append_nil] at hc
    exact hc
  | yielding _ _ hat => rw [hpc] at hat; cases hat
  | finished _ hat => rw [hpc] at hat; cases hat

theorem round_end (h : RoundInv r) (hended : r.ended = true) :
    r.drained ⊆ r.resumed ∧ r.read ⊆ r.yielded := by
  cases h.part with
  | begun hnot => exact absurd (hended.symm.trans hnot) nofun
  | resuming _ hnot => exact absurd (hended.symm.trans hnot) nofun
  | yielding _ hnot => exact absurd (hended.symm.trans hnot) nofun
  | finished _ _ hread _ hmem => exact ⟨fun c hc => (hmem c).mpr hc, hread ▸ List.Subset.refl _⟩

theorem current (h : RoundInv r) (c : Nat) (hc : r.sched.currentCoro = some c) :
    (r.resumed ++ r.yielded).getLast? = some c := by
  cases h.part with
  | begun _ hpc => exact absurd hc (h.no_current hpc c)
  | resuming _ _ _ _ hyielded _ _ _ hlast =>
    rw [hyielded, List.append_nil]
    exact hlast c hc
  | yielding _ _ _ _ _ _ _ _ hlast =>
    rw [List.getLast?_append, hlast c hc]
    rfl
  | finished _ hpc => exact absurd hc (h.no_current (by rw [hpc]; rfl) c)

theorem law (h : RoundInv r) : RoundLaw coroNum r where
  resumed_once := h.resumed.1
  resumed_only := h.resumed.2
  resume_end := fun hpc hcurrent =>
    ⟨h.resume_end hpc, h.phase.resumeList_eq_nil_of_resumed hpc hcurrent⟩
  yielded_once := h.yielded.1
  yielded_only := h.yielded.2
  round_end := h.round_end
  current := h.current
  goes_on := fun hended hcurrent => Round.goes_on hended hcurrent (h.live hended)
  nearer := fun _ _ => Round.nearer

end RoundInv

/-- In every iteration that starts without a request for a finished coroutine, whatever the
coroutines do, each coroutine of `resumeQueue_` and each one of the yield list gets its one turn,
and nobody else does. -/
theorem round_law (coroNum : Nat) (s : Scheduler) (h : (listScheduler coroNum).Reachable s)
    (hpc : s.pc = .wakeUpSleep) (hqueue : ∀ c ∈ s.resumeQueue, s.status c ≠ .free)
    (hsleep : ∀ e ∈ s.sleepQueue, s.status e.coro ≠ .free) (r : Round)
    (hr : (schedulerRound coroNum s).Reachable r) : RoundLaw coroNum r :=
  (hr.invariant (P := RoundInv) (.start (.reachable h) hpc hqueue hsleep)
    fun _ _ _ hinv _ ht => hinv.step ht).law

/-- Two coroutines. One of them suspends, and the other resumes it twice and yields. -/
def resumedTwice : List SchedulerAction :=
  [.addCoroutine, .addCoroutine, .next, .next, .next, .next, .suspend, .next, .resume 0, .resume 0,
    .yield, .next]

/-- The one that was resumed yields, has another turn in the second loop, and finishes. -/
def resumedTwiceRound : List SchedulerAction :=
  [.next, .next, .next, .yield, .next, .next, .finish, .next, .suspend, .next]

theorem round_law_resumedTwice :
    ∃ s r, (listScheduler 2).run (listScheduler 2).init resumedTwice = some s ∧
      (schedulerRound 2 s).run (schedulerRound 2 s).init resumedTwiceRound = some r ∧
      (r.drained, r.resumed, r.read, r.yielded) = ([0, 0], [0], [0, 1], [0, 1]) ∧
      r.ended = true ∧ RoundLaw 2 r :=
  have hstart {s : Scheduler} (h : (listScheduler 2).run (listScheduler 2).init resumedTwice =
      some s) : (listScheduler 2).Reachable s := System.reachable_of_run h
  have hround {s : Scheduler} {r : Round}
      (h : (schedulerRound 2 s).run (schedulerRound 2 s).init resumedTwiceRound = some r) :
      (schedulerRound 2 s).Reachable r := System.reachable_of_run h
  ⟨_, _, rfl, rfl, rfl, rfl,
    round_law 2 _ (hstart rfl) rfl (by decide) (by decide) _ (hround rfl)⟩

end Sheep
