import Mathlib.Data.List.Nodup
import Mathlib.Logic.Function.Basic
import Sheep.Lib.System

/-!
# The coroutine scheduler

`scheduler coroNum` is a `CoroutineScheduler` with its loop `run`, its coroutines, and the threads
that call `resume` and `addCoroutine`. One round of the loop takes the due entries of
`sleepQueue_`, drains `resumeQueue_` into the resume list, and switches to the coroutines of the
resume list and then of the yield list, as both lists were at the start of that part.

`SchedulerLaw`: an entry that `wakeUpSleep` takes is of a coroutine that is still in the sleep call
that pushed it, and `run` does not switch to a finished coroutine. `schedulerLaw_of_noRequestLeft`:
a run keeps the law as long as no request to wake a coroutine outlives its reason: no entry of
`sleepQueue_` is left when `run` switches to its coroutine, and no entry of `resumeQueue_` when its
coroutine finishes. Nothing in the code sees to it: requests name the coroutine and not the call,
and `resume` leaves the entry of `sleepQueue_` behind.

`Leaves` says what a coroutine changes that leaves the processor, whichever call it does it by.
-/

namespace Sheep

/-- Ghost: what a slot of `coros_` is doing. -/
inductive CoroStatus
  /-- unused, or the coroutine has finished -/
  | free
  /-- added and not started -/
  | ready
  | running
  | yielded
  | suspended
  /-- in the sleep call with this number -/
  | sleeping (call : Nat)
  deriving DecidableEq, Repr

/-- The coroutine is blocked in `suspend` or `sleep`. -/
def CoroStatus.blocked : CoroStatus → Bool
  | .suspended | .sleeping _ => true
  | _ => false

structure SleepInfo where
  deadline : Nat
  coro : Nat
  /-- ghost: the number of the sleep call -/
  call : Nat
  deriving DecidableEq, Repr

/-- Where the loop of `run` is. -/
inductive RunPc
  /-- before `wakeUpSleep` -/
  | wakeUpSleep
  /-- before the loop over `resumeQueue_` -/
  | drain
  /-- in the loop over `resumeList` -/
  | resuming (rest : List Nat)
  /-- in the loop over `yieldList` -/
  | yielding (rest : List Nat)
  deriving DecidableEq, Repr

/-- The coroutines the current loop of `run` has still to switch to. -/
def RunPc.rest : RunPc → List Nat
  | .wakeUpSleep | .drain => []
  | .resuming rest | .yielding rest => rest

/-- A coroutine is its index in `coros_`. The intrusive lists are lists, front first. -/
structure Scheduler where
  freeList : List Nat
  suspendList : List Nat
  resumeList : List Nat
  yieldList : List Nat
  /-- the priority queue, smallest entry first -/
  sleepQueue : List SleepInfo
  resumeQueue : List Nat
  /-- `UnixTimeMilliSecond()` -/
  now : Nat
  pc : RunPc
  /-- the coroutine that `run` has switched to -/
  currentCoro : Option Nat
  status : Nat → CoroStatus
  /-- ghost: the number of sleep calls so far -/
  calls : Nat

inductive SchedulerAction
  /-- time passes; the system clock may also be set back -/
  | clock (now : Nat)
  /-- the next step of `run` -/
  | next
  | yield
  | suspend
  | sleep (ms : Nat)
  /-- the function of the current coroutine returns -/
  | finish
  | addCoroutine
  | resume (c : Nat)
  deriving DecidableEq, Repr

namespace Scheduler

/-- The constructor puts every slot at the front of the free list. -/
def init (coroNum : Nat) : Scheduler :=
  ⟨(List.range coroNum).reverse, [], [], [], [], [], 0, .wakeUpSleep, none, fun _ => .free, 0⟩

/-- `IntrusiveListRemove`: the node is unlinked from the list that it is in. -/
def unlink (s : Scheduler) (c : Nat) : Scheduler :=
  { s with
    freeList := s.freeList.filter (· ≠ c)
    suspendList := s.suspendList.filter (· ≠ c)
    resumeList := s.resumeList.filter (· ≠ c)
    yieldList := s.yieldList.filter (· ≠ c) }

def moveToFree (s : Scheduler) (c : Nat) : Scheduler :=
  { s.unlink c with freeList := c :: (s.unlink c).freeList }

def moveToSuspend (s : Scheduler) (c : Nat) : Scheduler :=
  { s.unlink c with suspendList := c :: (s.unlink c).suspendList }

def moveToResume (s : Scheduler) (c : Nat) : Scheduler :=
  { s.unlink c with resumeList := c :: (s.unlink c).resumeList }

def moveToYield (s : Scheduler) (c : Nat) : Scheduler :=
  { s.unlink c with yieldList := c :: (s.unlink c).yieldList }

def setStatus (s : Scheduler) (c : Nat) (st : CoroStatus) : Scheduler :=
  { s with status := Function.update s.status c st }

/-- `sleepQueue_.push`. -/
def pushSleep (e : SleepInfo) : List SleepInfo → List SleepInfo
  | [] => [e]
  | x :: xs =>
    if x.deadline < e.deadline ∨ (x.deadline = e.deadline ∧ x.coro ≤ e.coro) then
      x :: pushSleep e xs
    else e :: x :: xs

/-- The entries that `wakeUpSleep` takes. -/
def due (s : Scheduler) : List SleepInfo := s.sleepQueue.takeWhile (·.deadline ≤ s.now)

def wakeUpSleep (s : Scheduler) : Scheduler :=
  { s with
    sleepQueue := s.sleepQueue.dropWhile (·.deadline ≤ s.now)
    resumeQueue := s.resumeQueue ++ s.due.map (·.coro) }

/-- The loop over `resumeQueue_`. -/
def drain (s : Scheduler) : Scheduler :=
  s.resumeQueue.foldl moveToResume { s with resumeQueue := [] }

/-- `CoroutineInfo::switchTo`. A coroutine that has finished would run into `assert(false)`. -/
def switchTo (s : Scheduler) (c : Nat) : Option Scheduler :=
  if s.status c = .free then none
  else some { s.setStatus c .running with currentCoro := some c }

/-- The coroutine that the next step of `run` switches to. -/
def nextCoro (s : Scheduler) : Option Nat := s.pc.rest.head?

/-- The next step of `run`, after the coroutine it switched to has switched back. -/
def next (s : Scheduler) : Option Scheduler :=
  match s.pc with
  | .wakeUpSleep => some { s.wakeUpSleep with pc := .drain }
  | .drain => some { s.drain with pc := .resuming s.drain.resumeList }
  | .resuming [] => some { s with pc := .yielding s.yieldList }
  | .resuming (c :: rest) => { s with pc := .resuming rest }.switchTo c
  | .yielding [] => some { s with pc := .wakeUpSleep }
  | .yielding (c :: rest) => { s with pc := .yielding rest }.switchTo c

/-- The current coroutine switches back. -/
def switchBack (s : Scheduler) : Scheduler := { s with currentCoro := none }

def yield (s : Scheduler) (cur : Nat) : Scheduler :=
  ((s.moveToYield cur).setStatus cur .yielded).switchBack

/-- `suspend`; the ghost status is `sleeping` when it is called by `sleep`. -/
def suspend (s : Scheduler) (cur : Nat) (st : CoroStatus) : Scheduler :=
  ((s.moveToSuspend cur).setStatus cur st).switchBack

def sleep (s : Scheduler) (cur : Nat) (ms : Nat) : Scheduler :=
  let s' := { s with
    sleepQueue := pushSleep ⟨s.now + ms, cur, s.calls⟩ s.sleepQueue, calls := s.calls + 1 }
  s'.suspend cur (.sleeping s.calls)

/-- `endFunc_` and the last switch back. -/
def finish (s : Scheduler) (cur : Nat) : Scheduler :=
  ((s.moveToFree cur).setStatus cur .free).switchBack

/-- `addCoroutine`; it returns false, and changes nothing, when no slot is free. -/
def addCoroutine (s : Scheduler) : Scheduler :=
  match s.freeList with
  | [] => s
  | info :: _ => (s.moveToYield info).setStatus info .ready

def step (s : Scheduler) : SchedulerAction → Option Scheduler
  | .clock now => some { s with now := now }
  | .next => if s.currentCoro = none then s.next else none
  | .yield => s.currentCoro.map s.yield
  | .suspend => s.currentCoro.map fun cur => s.suspend cur .suspended
  | .sleep ms => s.currentCoro.map fun cur => s.sleep cur ms
  | .finish => s.currentCoro.map s.finish
  | .addCoroutine => some s.addCoroutine
  | .resume c =>
    -- callers resume only who is blocked
    if (s.status c).blocked then some { s with resumeQueue := s.resumeQueue ++ [c] } else none

end Scheduler

def scheduler (coroNum : Nat) : System Scheduler SchedulerAction := ⟨.init coroNum, Scheduler.step⟩

/-- `wakeUpSleep` takes only entries of coroutines that are in the very sleep call that pushed
them, and `run` switches to no finished coroutine. -/
def SchedulerLaw (s : Scheduler) : SchedulerAction → Prop
  | .next =>
    (s.pc = .wakeUpSleep → ∀ e ∈ s.due, s.status e.coro = .sleeping e.call) ∧
    ∀ c ∈ s.nextCoro, s.status c ≠ .free
  | _ => True

instance : ∀ s a, Decidable (SchedulerLaw s a)
  | s, .next => inferInstanceAs (Decidable
      ((s.pc = .wakeUpSleep → ∀ e ∈ s.due, s.status e.coro = .sleeping e.call) ∧
        ∀ c ∈ s.nextCoro, s.status c ≠ .free))
  | _, .clock _ | _, .yield | _, .suspend | _, .sleep _ | _, .finish | _, .addCoroutine
  | _, .resume _ => isTrue True.intro

/-- No request to wake a coroutine outlives its reason: when `run` switches to a coroutine,
`sleepQueue_` holds no entry of it, and when a coroutine finishes, `resumeQueue_` does not. -/
def NoRequestLeft (s : Scheduler) : SchedulerAction → Prop
  | .next => ∀ c ∈ s.nextCoro, ∀ e ∈ s.sleepQueue, e.coro ≠ c
  | .finish => ∀ c ∈ s.currentCoro, c ∉ s.resumeQueue
  | _ => True

instance : ∀ s a, Decidable (NoRequestLeft s a)
  | s, .next => inferInstanceAs (Decidable (∀ c ∈ s.nextCoro, ∀ e ∈ s.sleepQueue, e.coro ≠ c))
  | s, .finish => inferInstanceAs (Decidable (∀ c ∈ s.currentCoro, c ∉ s.resumeQueue))
  | _, .clock _ | _, .yield | _, .suspend | _, .sleep _ | _, .addCoroutine | _, .resume _ =>
    isTrue True.intro

/-! ## Lists and status -/

namespace Scheduler

variable {s : Scheduler} {c d : Nat}

theorem mem_unlinked {l : List Nat} {P : Prop} (hd : d ∈ l.filter (· ≠ c)) :
    (d ∈ l ∧ d ≠ c) ∨ (d = c ∧ P) :=
  .inl (by simpa using hd)

theorem mem_linked {l : List Nat} {P : Prop} (hP : P) (hd : d ∈ c :: l.filter (· ≠ c)) :
    (d ∈ l ∧ d ≠ c) ∨ (d = c ∧ P) := by
  rcases List.mem_cons.mp hd with rfl | hd
  · exact .inr ⟨rfl, hP⟩
  · exact mem_unlinked hd

theorem nodup_linked {l : List Nat} (h : l.Nodup) : (c :: l.filter (· ≠ c)).Nodup :=
  List.nodup_cons.mpr ⟨by simp, h.filter _⟩

/-- A property of the status of every other coroutine is not changed, and `c` meets it now. -/
theorem status_update {st : CoroStatus} {P : CoroStatus → Prop} {l l' : List Nat}
    (h : ∀ d ∈ l, P (s.status d)) (hl : ∀ d ∈ l', (d ∈ l ∧ d ≠ c) ∨ (d = c ∧ P st)) :
    ∀ d ∈ l', P (Function.update s.status c st d) := by
  intro d hd
  rcases hl d hd with ⟨hdl, hdc⟩ | ⟨rfl, hst⟩
  · rw [Function.update_of_ne hdc]
    exact h d hdl
  · rwa [Function.update_self]

/-- To switch to a coroutine finishes nobody. -/
theorem switchTo_live {t : Scheduler} {pc : RunPc} (ht : { s with pc := pc }.switchTo c = some t)
    (hd : s.status d ≠ .free) : t.status d ≠ .free := by
  obtain ⟨-, ht⟩ := Option.ite_none_left_eq_some.mp ht
  cases ht
  rcases eq_or_ne d c with rfl | hdc
  · exact fun h => absurd ((Function.update_self ..).symm.trans h) nofun
  · exact fun h => hd ((Function.update_of_ne hdc ..).symm.trans h)

/-! ## The drain -/

/-- The loop over `resumeQueue_` changes the four lists and nothing else. -/
theorem foldl_moveToResume_frame (l : List Nat) (s : Scheduler) : ∃ f u r y,
    l.foldl moveToResume s =
      { s with freeList := f, suspendList := u, resumeList := r, yieldList := y } := by
  induction l generalizing s with
  | nil => exact ⟨_, _, _, _, rfl⟩
  | cons d l ih =>
    obtain ⟨f, u, r, y, h⟩ := ih (s.moveToResume d)
    exact ⟨f, u, r, y, h⟩

theorem drain_frame (s : Scheduler) : ∃ f u r y, s.drain =
    { s with
      resumeQueue := [], freeList := f, suspendList := u, resumeList := r, yieldList := y } :=
  foldl_moveToResume_frame s.resumeQueue { s with resumeQueue := [] }

theorem drain_currentCoro (s : Scheduler) : s.drain.currentCoro = s.currentCoro := by
  obtain ⟨f, u, r, y, h⟩ := s.drain_frame
  rw [h]

theorem drain_status (s : Scheduler) : s.drain.status = s.status := by
  obtain ⟨f, u, r, y, h⟩ := s.drain_frame
  rw [h]

theorem drain_sleepQueue (s : Scheduler) : s.drain.sleepQueue = s.sleepQueue := by
  obtain ⟨f, u, r, y, h⟩ := s.drain_frame
  rw [h]

theorem drain_resumeQueue (s : Scheduler) : s.drain.resumeQueue = [] := by
  obtain ⟨f, u, r, y, h⟩ := s.drain_frame
  rw [h]

theorem mem_moveToResume : c ∈ (s.moveToResume d).resumeList ↔ c ∈ s.resumeList ∨ c = d := by
  show c ∈ d :: s.resumeList.filter (· ≠ d) ↔ c ∈ s.resumeList ∨ c = d
  by_cases hc : c = d <;> simp [hc]

theorem mem_foldl_moveToResume {l : List Nat} :
    (c ∈ (l.foldl moveToResume s).resumeList ↔ c ∈ s.resumeList ∨ c ∈ l) ∧
    (c ∈ (l.foldl moveToResume s).yieldList → c ∈ s.yieldList) ∧
    (c ∈ (l.foldl moveToResume s).freeList → c ∈ s.freeList) := by
  induction l generalizing s with
  | nil => exact ⟨by simp, id, id⟩
  | cons d l ih =>
    obtain ⟨hresume, hyield, hfree⟩ := @ih (s.moveToResume d)
    refine ⟨?_, fun hc => List.mem_of_mem_filter (hyield hc),
      fun hc => List.mem_of_mem_filter (hfree hc)⟩
    rw [List.foldl_cons, hresume, mem_moveToResume, or_assoc, List.mem_cons]

theorem mem_drain_resumeList : c ∈ s.drain.resumeList ↔ c ∈ s.resumeList ∨ c ∈ s.resumeQueue :=
  (mem_foldl_moveToResume (s := { s with resumeQueue := [] })).1

theorem mem_of_mem_drain_yieldList (hc : c ∈ s.drain.yieldList) : c ∈ s.yieldList :=
  (mem_foldl_moveToResume (s := { s with resumeQueue := [] })).2.1 hc

theorem mem_of_mem_drain_freeList (hc : c ∈ s.drain.freeList) : c ∈ s.freeList :=
  (mem_foldl_moveToResume (s := { s with resumeQueue := [] })).2.2 hc

theorem foldl_moveToResume_nodup {l : List Nat} (hr : s.resumeList.Nodup) (hy : s.yieldList.Nodup) :
    (l.foldl moveToResume s).resumeList.Nodup ∧ (l.foldl moveToResume s).yieldList.Nodup := by
  induction l generalizing s with
  | nil => exact ⟨hr, hy⟩
  | cons d l ih => exact ih (nodup_linked hr) (hy.filter _)

theorem drain_nodup (hr : s.resumeList.Nodup) (hy : s.yieldList.Nodup) :
    s.drain.resumeList.Nodup ∧ s.drain.yieldList.Nodup :=
  foldl_moveToResume_nodup (s := { s with resumeQueue := [] }) hr hy

end Scheduler

/-! ## Leaving the processor -/

/-- The calls by which the current coroutine leaves the processor. -/
def SchedulerAction.leaves : SchedulerAction → Bool
  | .yield | .suspend | .sleep _ | .finish => true
  | .clock _ | .next | .addCoroutine | .resume _ => false

namespace Scheduler

theorem mem_pushSleep {e x : SleepInfo} {q : List SleepInfo} (hx : x ∈ pushSleep e q) :
    x ∈ q ∨ x = e := by
  induction q with
  | nil => exact .inr (List.mem_singleton.mp hx)
  | cons y ys ih =>
    unfold pushSleep at hx
    split at hx
    · rcases List.mem_cons.mp hx with rfl | hx
      · exact .inl List.mem_cons_self
      · exact (ih hx).imp_left (List.mem_cons_of_mem y)
    · exact (List.mem_cons.mp hx).symm

/-- The current coroutine `c` calls `a`: it goes to another list, has the status `st`, and switches
back. The rest of what `run` works through stays. -/
structure Leaves (s : Scheduler) (a : SchedulerAction) (c : Nat) (st : CoroStatus)
    (t : Scheduler) : Prop where
  running : s.currentCoro = some c
  current : t.currentCoro = none
  pc : t.pc = s.pc
  queue : t.resumeQueue = s.resumeQueue
  sleepQueue : ∀ e ∈ t.sleepQueue, e ∈ s.sleepQueue ∨ (e.coro = c ∧ st = .sleeping e.call)
  status : t.status = Function.update s.status c st
  free : st = .free ↔ a = .finish
  yielded : st = .yielded ↔ a = .yield
  resumeList : t.resumeList = s.resumeList.filter (· ≠ c)
  freeList : t.freeList = s.freeList.filter (· ≠ c) ∨
    (t.freeList = c :: s.freeList.filter (· ≠ c) ∧ a = .finish)
  yieldList : t.yieldList = s.yieldList.filter (· ≠ c) ∨
    (t.yieldList = c :: s.yieldList.filter (· ≠ c) ∧ a = .yield)

theorem leaves_of_step {s t : Scheduler} {a : SchedulerAction} (ha : a.leaves = true)
    (ht : s.step a = some t) : ∃ c st, s.Leaves a c st t := by
  cases a with
  | clock now | next | addCoroutine | resume c => cases ha
  | yield =>
    obtain ⟨c, hcur, rfl⟩ := Option.map_eq_some_iff.mp ht
    exact ⟨c, .yielded, hcur, rfl, rfl, rfl, fun _ => .inl, rfl, by decide, by decide, rfl,
      .inl rfl, .inr ⟨rfl, rfl⟩⟩
  | suspend =>
    obtain ⟨c, hcur, rfl⟩ := Option.map_eq_some_iff.mp ht
    exact ⟨c, .suspended, hcur, rfl, rfl, rfl, fun _ => .inl, rfl, by decide, by decide, rfl,
      .inl rfl, .inl rfl⟩
  | sleep ms =>
    obtain ⟨c, hcur, rfl⟩ := Option.map_eq_some_iff.mp ht
    refine ⟨c, .sleeping s.calls, hcur, rfl, rfl, rfl, fun e he => ?_, rfl, by simp, by simp, rfl,
      .inl rfl, .inl rfl⟩
    exact (mem_pushSleep he).imp_right fun h => by rw [h]; exact ⟨rfl, rfl⟩
  | finish =>
    obtain ⟨c, hcur, rfl⟩ := Option.map_eq_some_iff.mp ht
    exact ⟨c, .free, hcur, rfl, rfl, rfl, fun _ => .inl, rfl, by decide, by decide, rfl,
      .inr ⟨rfl, rfl⟩, .inl rfl⟩

/-- Only a coroutine that goes on is put into the yield list. -/
theorem Leaves.mem_yieldList {s t : Scheduler} {a : SchedulerAction} {c d : Nat} {st : CoroStatus}
    (hl : s.Leaves a c st t) (hd : d ∈ t.yieldList) :
    (d ∈ s.yieldList ∧ d ≠ c) ∨ (d = c ∧ st ≠ .free) := by
  rcases hl.yieldList with hlist | ⟨hlist, rfl⟩ <;> rw [hlist] at hd
  · exact mem_unlinked hd
  · exact mem_linked (fun hst => by cases hl.free.mp hst) hd

theorem Leaves.yieldList_nodup {s t : Scheduler} {a : SchedulerAction} {c : Nat} {st : CoroStatus}
    (hl : s.Leaves a c st t) (h : s.yieldList.Nodup) : t.yieldList.Nodup := by
  rcases hl.yieldList with hlist | ⟨hlist, -⟩ <;> rw [hlist]
  · exact h.filter _
  · exact nodup_linked h

end Scheduler

/-! ## The invariant -/

/-- What holds in every state that a run without left requests reaches. -/
structure SchedulerInv (s : Scheduler) : Prop where
  sleeping : ∀ e ∈ s.sleepQueue, s.status e.coro = .sleeping e.call
  requested : ∀ c ∈ s.resumeQueue, s.status c ≠ .free
  free : ∀ c ∈ s.freeList, s.status c = .free
  resume : ∀ c ∈ s.resumeList, s.status c ≠ .free
  yield : ∀ c ∈ s.yieldList, s.status c ≠ .free
  rest : ∀ c ∈ s.pc.rest, s.status c ≠ .free
  resume_nodup : s.resumeList.Nodup
  yield_nodup : s.yieldList.Nodup
  rest_nodup : s.pc.rest.Nodup
  current : ∀ c ∈ s.currentCoro, s.status c = .running ∧ c ∉ s.pc.rest

namespace SchedulerInv

open Scheduler

variable {s t : Scheduler} {c : Nat}

theorem init (coroNum : Nat) : SchedulerInv (.init coroNum) := by
  constructor <;> simp [Scheduler.init, RunPc.rest]

theorem leaves {a : SchedulerAction} {st : CoroStatus} (h : SchedulerInv s)
    (hl : s.Leaves a c st t) (hleft : a = .finish → c ∉ s.resumeQueue) : SchedulerInv t := by
  obtain ⟨hrun, hrest⟩ := h.current c hl.running
  refine ⟨?_, ?_, ?_, ?_, ?_, ?_, hl.resumeList ▸ h.resume_nodup.filter _, ?_,
    hl.pc ▸ h.rest_nodup, fun d hd => absurd (hl.current.symm.trans hd) nofun⟩
  · intro e he
    rw [hl.status]
    rcases hl.sleepQueue e he with he | ⟨rfl, rfl⟩
    · -- an entry of the current coroutine would say that it sleeps
      have hlive := h.sleeping e he
      have hec : e.coro ≠ c := by
        rintro rfl
        rw [hrun] at hlive
        cases hlive
      rwa [Function.update_of_ne hec]
    · rw [Function.update_self]
  · rw [hl.status, hl.queue]
    refine status_update (P := (· ≠ .free)) h.requested fun d hd => ?_
    rcases eq_or_ne d c with rfl | hdc
    · exact .inr ⟨rfl, fun hst => hleft (hl.free.mp hst) hd⟩
    · exact .inl ⟨hd, hdc⟩
  · rw [hl.status]
    rcases hl.freeList with hlist | ⟨hlist, ha⟩ <;> rw [hlist]
    · exact status_update (P := (· = .free)) h.free fun _ => mem_unlinked
    · exact status_update (P := (· = .free)) h.free fun _ => mem_linked (hl.free.mpr ha)
  · rw [hl.status, hl.resumeList]
    exact status_update (P := (· ≠ .free)) h.resume fun _ => mem_unlinked
  · rw [hl.status]
    exact status_update (P := (· ≠ .free)) h.yield fun _ => hl.mem_yieldList
  · rw [hl.status, hl.pc]
    exact status_update (P := (· ≠ .free)) h.rest fun d hd =>
      .inl ⟨hd, fun hdc => hrest (hdc ▸ hd)⟩
  · exact hl.yieldList_nodup h.yield_nodup

theorem addCoroutine (h : SchedulerInv s) : SchedulerInv s.addCoroutine := by
  unfold Scheduler.addCoroutine
  split
  · exact h
  · rename_i info freeList hlist
    have hinfo : s.status info = .free := h.free info (hlist ▸ List.mem_cons_self)
    -- no list of a coroutine at work holds the free slot
    have hne : ∀ {d : Nat}, s.status d ≠ .free → d ≠ info := by
      rintro d hd rfl
      exact hd hinfo
    refine ⟨?_, ?_, ?_, ?_, ?_, ?_, h.resume_nodup.filter _, nodup_linked h.yield_nodup,
      h.rest_nodup, ?_⟩
    · intro e he
      have hlive := h.sleeping e he
      have hei : e.coro ≠ info := hne (by rw [hlive]; nofun)
      exact (Function.update_of_ne hei ..).trans hlive
    · exact status_update (P := (· ≠ .free)) h.requested fun d hd =>
        .inl ⟨hd, hne (h.requested d hd)⟩
    · exact status_update (P := (· = .free)) h.free fun _ => mem_unlinked
    · exact status_update (P := (· ≠ .free)) h.resume fun _ => mem_unlinked
    · exact status_update (P := (· ≠ .free)) h.yield fun _ => mem_linked nofun
    · exact status_update (P := (· ≠ .free)) h.rest fun d hd => .inl ⟨hd, hne (h.rest d hd)⟩
    · intro d hd
      obtain ⟨hrun, hrest⟩ := h.current d hd
      have hdi : d ≠ info := hne (by rw [hrun]; nofun)
      exact ⟨(Function.update_of_ne hdi ..).trans hrun, hrest⟩

/-! ### The loop of `run` -/

theorem wakeUpSleep (h : SchedulerInv s) :
    SchedulerInv { s.wakeUpSleep with pc := .drain } := by
  refine ⟨?_, ?_, h.free, h.resume, h.yield, nofun, h.resume_nodup, h.yield_nodup, .nil, ?_⟩
  · exact fun e he => h.sleeping e ((List.dropWhile_suffix _).subset he)
  · intro c hc
    rcases List.mem_append.mp hc with hc | hc
    · exact h.requested c hc
    · obtain ⟨e, he, rfl⟩ := List.mem_map.mp hc
      have hlive := h.sleeping e ((List.takeWhile_prefix _).subset he)
      simp only [Scheduler.wakeUpSleep, hlive]
      nofun
  · exact fun c hc => ⟨(h.current c hc).1, nofun⟩

theorem moveToResume (h : SchedulerInv s) (hc : s.status c ≠ .free) :
    SchedulerInv (s.moveToResume c) := by
  refine ⟨h.sleeping, h.requested, ?_, ?_, ?_, h.rest, nodup_linked h.resume_nodup,
    h.yield_nodup.filter _, h.rest_nodup, h.current⟩
  · exact fun d hd => h.free d (List.mem_of_mem_filter hd)
  · intro d hd
    rcases List.mem_cons.mp hd with rfl | hd
    · exact hc
    · exact h.resume d (List.mem_of_mem_filter hd)
  · exact fun d hd => h.yield d (List.mem_of_mem_filter hd)

theorem foldl_moveToResume {l : List Nat} (h : SchedulerInv s)
    (hl : ∀ c ∈ l, s.status c ≠ .free) : SchedulerInv (l.foldl Scheduler.moveToResume s) := by
  induction l generalizing s with
  | nil => exact h
  | cons c l ih =>
    exact ih (h.moveToResume (hl c List.mem_cons_self)) fun d hd =>
      hl d (List.mem_cons_of_mem c hd)

theorem drain (h : SchedulerInv s) (hcur : s.currentCoro = none) :
    SchedulerInv { s.drain with pc := .resuming s.drain.resumeList } := by
  have hd : SchedulerInv s.drain :=
    foldl_moveToResume ⟨h.sleeping, nofun, h.free, h.resume, h.yield, h.rest, h.resume_nodup,
      h.yield_nodup, h.rest_nodup, h.current⟩ h.requested
  have hcur' : s.drain.currentCoro = none := s.drain_currentCoro.trans hcur
  refine ⟨hd.sleeping, hd.requested, hd.free, hd.resume, hd.yield, hd.resume, hd.resume_nodup,
    hd.yield_nodup, hd.resume_nodup, ?_⟩
  simp [hcur']

theorem switchTo {pc : RunPc} (h : SchedulerInv s) (hrest : s.pc.rest = c :: pc.rest)
    (hleft : ∀ e ∈ s.sleepQueue, e.coro ≠ c)
    (hs : { s with pc := pc }.switchTo c = some t) : SchedulerInv t := by
  have hlive : ∀ d, s.status d ≠ .free → t.status d ≠ .free := fun d => switchTo_live hs
  obtain ⟨hc, hs⟩ := Option.ite_none_left_eq_some.mp hs
  cases hs
  have hnd := h.rest_nodup
  have hst := h.rest
  rw [hrest] at hnd hst
  refine ⟨?_, fun d hd => hlive d (h.requested d hd), ?_, fun d hd => hlive d (h.resume d hd),
    fun d hd => hlive d (h.yield d hd), fun d hd => hlive d (hst d (List.mem_cons_of_mem c hd)),
    h.resume_nodup, h.yield_nodup, (List.nodup_cons.mp hnd).2, ?_⟩
  · exact fun e he => (Function.update_of_ne (hleft e he) ..).trans (h.sleeping e he)
  · refine status_update (P := (· = .free)) h.free fun d hd => .inl ⟨hd, ?_⟩
    rintro rfl
    exact hc (h.free d hd)
  · rintro d ⟨⟩
    exact ⟨Function.update_self .., (List.nodup_cons.mp hnd).1⟩

theorem next (h : SchedulerInv s) (hcur : s.currentCoro = none)
    (hleft : ∀ c ∈ s.nextCoro, ∀ e ∈ s.sleepQueue, e.coro ≠ c) (hs : s.next = some t) :
    SchedulerInv t := by
  unfold Scheduler.next at hs
  cases hpc : s.pc with
  | wakeUpSleep =>
    simp only [hpc, Option.some.injEq] at hs
    subst hs
    exact h.wakeUpSleep
  | drain =>
    simp only [hpc, Option.some.injEq] at hs
    subst hs
    exact h.drain hcur
  | resuming rest =>
    cases rest with
    | nil =>
      simp only [hpc, Option.some.injEq] at hs
      subst hs
      exact { h with rest := h.yield, rest_nodup := h.yield_nodup, current := by simp [hcur] }
    | cons c rest =>
      simp only [hpc] at hs
      exact h.switchTo (by rw [hpc]; rfl) (hleft c (by simp [nextCoro, hpc, RunPc.rest])) hs
  | yielding rest =>
    cases rest with
    | nil =>
      simp only [hpc, Option.some.injEq] at hs
      subst hs
      exact { h with rest := nofun, rest_nodup := .nil, current := by simp [hcur] }
    | cons c rest =>
      simp only [hpc] at hs
      exact h.switchTo (by rw [hpc]; rfl) (hleft c (by simp [nextCoro, hpc, RunPc.rest])) hs

theorem step {a : SchedulerAction} (h : SchedulerInv s) (hleft : NoRequestLeft s a)
    (hs : s.step a = some t) : SchedulerInv t := by
  cases a with
  | clock now =>
    obtain rfl := Option.some.inj hs
    exact { h with }
  | next =>
    simp only [Scheduler.step, Option.ite_none_right_eq_some] at hs
    exact h.next hs.1 hleft hs.2
  | yield | suspend | sleep ms =>
    obtain ⟨c, st, hl⟩ := leaves_of_step rfl hs
    exact h.leaves hl fun ha => by cases ha
  | finish =>
    obtain ⟨c, st, hl⟩ := leaves_of_step rfl hs
    exact h.leaves hl fun _ => hleft c hl.running
  | addCoroutine =>
    obtain rfl := Option.some.inj hs
    exact h.addCoroutine
  | resume c =>
    simp only [Scheduler.step, Option.ite_none_right_eq_some, Option.some.injEq] at hs
    obtain ⟨hc, rfl⟩ := hs
    refine { h with requested := fun d hd => ?_ }
    rcases List.mem_append.mp hd with hd | hd
    · exact h.requested d hd
    · obtain rfl := List.mem_singleton.mp hd
      intro hfree
      simp [show s.status d = .free from hfree, CoroStatus.blocked] at hc

/-- The contract holds wherever the invariant does. -/
theorem law (h : SchedulerInv s) (a : SchedulerAction) : SchedulerLaw s a := by
  cases a with
  | next =>
    refine ⟨fun _ e he => h.sleeping e ((List.takeWhile_prefix _).subset he), fun c hc => ?_⟩
    exact h.rest c (List.mem_of_mem_head? hc)
  | _ => exact True.intro

end SchedulerInv

/-! ## Every run -/

/-- A run in which no request to wake a coroutine outlives its reason keeps the contract at every
step. -/
theorem schedulerLaw_of_noRequestLeft (coroNum : Nat) (as : List SchedulerAction)
    (h : (scheduler coroNum).AllSteps NoRequestLeft (scheduler coroNum).init as) :
    (scheduler coroNum).AllSteps SchedulerLaw (scheduler coroNum).init as :=
  h.imp (P := SchedulerInv) (.init coroNum) (fun _ _ _ hinv hleft hs => hinv.step hleft hs)
    fun _ a hinv _ => hinv.law a

/-- One coroutine that sleeps for 100 ms, wakes when they are over, and finishes. -/
def sleepAndFinish : List SchedulerAction :=
  [.addCoroutine, .next, .next, .next, .next, .sleep 100, .next, .clock 100, .next, .next, .next,
    .finish, .next, .next]

theorem schedulerLaw_sleepAndFinish :
    (scheduler 1).AllSteps SchedulerLaw (scheduler 1).init sleepAndFinish :=
  schedulerLaw_of_noRequestLeft 1 sleepAndFinish (by decide)

/-- The coroutine sleeps for 100 ms and is resumed at once. -/
def resumeEarly : List SchedulerAction :=
  [.addCoroutine, .next, .next, .next, .next, .sleep 100, .next, .resume 0, .next, .next, .next]

/-- After an early resume the entry of the sleep call stays in `sleepQueue_`. It cuts a later
`suspend` short, and if the coroutine finishes instead, `run` switches to the finished
coroutine. -/
theorem early_resume_leaves_entry :
    (∃ s, (scheduler 1).run (scheduler 1).init
        (resumeEarly ++ [.suspend, .next, .next, .clock 100]) = some s ∧
      s.pc = .wakeUpSleep ∧ s.due = [⟨100, 0, 0⟩] ∧ s.status 0 = .suspended ∧
      ¬ SchedulerLaw s .next) ∧
    ∃ s, (scheduler 1).run (scheduler 1).init
        (resumeEarly ++ [.finish, .next, .next, .clock 100, .next, .next]) = some s ∧
      s.nextCoro = some 0 ∧ s.status 0 = .free ∧ ¬ SchedulerLaw s .next :=
  ⟨⟨_, rfl, rfl, rfl, rfl, by decide⟩, ⟨_, rfl, rfl, rfl, by decide⟩⟩

end Sheep
