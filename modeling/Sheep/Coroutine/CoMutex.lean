import Sheep.Lib.Process
import Sheep.Lib.System
import Sheep.Coroutine.Waiter

/-!
# The mutex of coroutines

`CoMutex::lock` tries the flag `isLock_` outside and once more inside the critical section of
`mtx_`, then queues and suspends; `CoMutex::unlock` hands the mutex to the first in the queue
without clearing the flag. `coMutex` runs any number of coroutines through these two functions,
one atomic step of one coroutine at a time; the fast path runs concurrently with the critical
sections of the others.

`coMutex_law`: in every reachable state at most one coroutine holds the mutex (a coroutine that it
was handed to holds it from the moment it is taken out of the queue), coroutines queue only while
the mutex is held, and whoever gets the mutex while others queue is the first of the queue.
-/

namespace Sheep

/-- Where a coroutine is: each value is the point before one atomic step. -/
inductive LockPc
  /-- outside; the next step calls `lock` and tries the flag -/
  | idle
  /-- `lock`: before `mtx_` is taken -/
  | enter
  /-- before the second try -/
  | retry
  /-- before `waiters_.push` -/
  | push
  /-- before `lock.unlock()` -/
  | release
  /-- before `sched_->suspend()` -/
  | suspend
  /-- switched out -/
  | suspended
  /-- resumed, before `lock.lock()` -/
  | relock
  /-- before `lock` returns and releases `mtx_` -/
  | leave
  /-- after `lock`; the next step calls `unlock` -/
  | holding
  /-- `unlock`: before `mtx_` is taken -/
  | unlock
  /-- before `notify_nolock(false)` -/
  | notify
  /-- before `setLock(false)` -/
  | clear
  /-- before `unlock` returns and releases `mtx_` -/
  | done
  deriving DecidableEq, Repr

namespace LockPc

/-- The coroutine is in a critical section of `mtx_`. -/
def inside : LockPc → Bool
  | .retry | .push | .release | .leave | .notify | .clear | .done => true
  | _ => false

/-- The coroutine has queued and was not switched to since. -/
def queued : LockPc → Bool
  | .release | .suspend | .suspended => true
  | _ => false

/-- The coroutine runs, has the mutex, and has not given it up. -/
def running : LockPc → Bool
  | .relock | .leave | .holding | .unlock | .notify | .clear => true
  | _ => false

end LockPc

/-- `CoMutex`, its coroutines, and the schedulers' `resumeQueue_`. -/
structure CoMutex where
  /-- who is in the critical section of `mtx_` -/
  mtx : Option Coro
  isLock : Bool
  waiters : List CoroutineWaiter
  resumeQueue : List Coro
  pc : Coro → LockPc
  /-- ghost: the coroutines in the order they were queued -/
  pushed : List Coro
  /-- ghost: the coroutines in the order they were taken out of the queue -/
  handed : List Coro

namespace CoMutex

def init : CoMutex := ⟨none, false, [], [], fun _ => .idle, [], []⟩

/-- `setLock`: the new value of `isLock_` when the compare-exchange succeeds. -/
def setLock (isLock newV : Bool) : Option Bool :=
  let expected := !newV
  if isLock = expected then some newV else none

/-- `CoMutex::notify_nolock`, whose body is that of `CoConditionVariable`. -/
def notifyNolock (isAll : Bool) (waiters : List CoroutineWaiter) : NotifyResult :=
  Sheep.notifyNolock isAll waiters

/-- The object that `lock` builds and queues. -/
def waiter (c : Coro) (call : Nat) : CoroutineWaiter := ⟨some c.sched, c.info, false, call⟩

def goto (s : CoMutex) (c : Coro) (p : LockPc) : CoMutex :=
  { s with pc := Function.update s.pc c p }

/-- The next atomic step of the coroutine `c`; `none` where it has to wait. -/
def step (s : CoMutex) (c : Coro) : Option CoMutex :=
  match s.pc c with
  | .idle =>
    match setLock s.isLock true with
    | some v => some { s.goto c .holding with isLock := v }
    | none => some (s.goto c .enter)
  | .enter => if s.mtx = none then some { s.goto c .retry with mtx := some c } else none
  | .retry =>
    match setLock s.isLock true with
    | some v => some { s.goto c .leave with isLock := v }
    | none => some (s.goto c .push)
  | .push => some { s.goto c .release with
      waiters := s.waiters ++ [waiter c s.pushed.length]
      pushed := s.pushed ++ [c] }
  | .release => some { s.goto c .suspend with mtx := none }
  | .suspend => some (s.goto c .suspended)
  | .suspended =>
    -- the scheduler takes `c` out of its `resumeQueue_` and switches to it
    if c ∈ s.resumeQueue then
      some { s.goto c .relock with resumeQueue := s.resumeQueue.erase c }
    else none
  | .relock => if s.mtx = none then some { s.goto c .leave with mtx := some c } else none
  | .leave => some { s.goto c .holding with mtx := none }
  | .holding => some (s.goto c .unlock)
  | .unlock => if s.mtx = none then some { s.goto c .notify with mtx := some c } else none
  | .notify =>
    let r := notifyNolock false s.waiters
    some { s.goto c (if r.notifyCount = 0 then .clear else .done) with
      waiters := r.waiters
      resumeQueue := s.resumeQueue ++ r.resumed
      handed := s.handed ++ r.resumed }
  | .clear => some { s.goto c .done with isLock := (setLock s.isLock false).getD s.isLock }
  | .done => some { s.goto c .idle with mtx := none }

/-- The coroutines in `waiters_`, the first in first. -/
def queue (s : CoMutex) : List Coro := s.waiters.filterMap (·.wakeup)

/-- `c` has the mutex: it runs and has it, or it was taken out of the queue and will be resumed
with it. -/
def Holds (s : CoMutex) (c : Coro) : Prop := (s.pc c).running ∨ c ∈ s.resumeQueue

end CoMutex

def coMutex : System CoMutex Coro := ⟨.init, CoMutex.step⟩

/-! ## The contract -/

/-- The contract of the mutex in the state `s`. -/
structure CoMutexLaw (s : CoMutex) : Prop where
  exclusive : ∀ c d, s.Holds c → s.Holds d → c = d
  /-- coroutines queue only while the flag is set, and then somebody has the mutex -/
  locked : s.waiters ≠ [] → s.isLock = true
  held : s.isLock = true → ∃ c, s.Holds c
  /-- the queue is served first in, first out -/
  fifo : s.pushed = s.handed ++ s.queue
  /-- nobody gets the mutex before the first of the queue -/
  no_overtaking : ∀ a t, s.step a = some t → ∀ c, ¬ s.Holds c → t.Holds c →
    s.queue = [] ∨ s.queue.head? = some c

/-! ## The invariant -/

/-- What holds in every reachable state. -/
structure CoMutexInv (s : CoMutex) : Prop where
  mtx : Owned LockPc.inside s.pc s.mtx
  queued : ∀ c, (s.pc c).queued ↔ c ∈ s.queue ∨ c ∈ s.resumeQueue
  nodup : (s.queue ++ s.resumeQueue).Nodup
  owner : ∃ o : Option Coro, s.isLock = o.isSome ∧ ∀ c, s.Holds c ↔ o = some c
  push : ∀ c, s.pc c = .push → s.isLock = true
  clear : ∀ c, s.pc c = .clear → s.queue = []
  locked : s.queue ≠ [] → s.isLock = true
  fifo : s.pushed = s.handed ++ s.queue
  entries : ∀ w ∈ s.waiters, ∃ c n, w = CoMutex.waiter c n

namespace CoMutex

/-- What a step of `c` can do. -/
inductive Effect (s : CoMutex) (c : Coro) : CoMutex → Prop
  /-- only the place of `c` and `mtx_` change -/
  | move {p q : LockPc} {m : Option Coro} :
      s.pc c = p → q.queued = p.queued → q.running = p.running →
      Owned.Move LockPc.inside c p q s.mtx m →
      (q = .push → s.isLock = true) → (q = .clear → s.queue = []) →
      Effect s c { s.goto c q with mtx := m }
  /-- the compare-exchange of `lock` succeeds -/
  | take {p q : LockPc} :
      s.pc c = p → s.isLock = false → p.queued = false → q.queued = false → q.running = true →
      q.inside = p.inside → q ≠ .clear → Effect s c { s.goto c q with isLock := true }
  | push :
      s.pc c = .push →
      Effect s c { s.goto c .release with
        waiters := s.waiters ++ [waiter c s.pushed.length]
        pushed := s.pushed ++ [c] }
  | resume :
      s.pc c = .suspended → c ∈ s.resumeQueue →
      Effect s c { s.goto c .relock with resumeQueue := s.resumeQueue.erase c }
  /-- `unlock` gives the mutex to the first of the queue -/
  | handOff (d : Coro) (ws : List CoroutineWaiter) :
      s.pc c = .notify → s.queue = d :: ws.filterMap (·.wakeup) → (∀ w ∈ ws, w ∈ s.waiters) →
      Effect s c { s.goto c .done with
        waiters := ws, resumeQueue := s.resumeQueue ++ [d], handed := s.handed ++ [d] }
  | free : s.pc c = .clear → Effect s c { s.goto c .done with isLock := false }

@[simp]
theorem waiter_wakeup (c : Coro) (n : Nat) : (waiter c n).wakeup = some c := rfl

/-- The effects are all that a step can do. -/
theorem step_effect {s t : CoMutex} {c : Coro} (h : CoMutexInv s) (hs : s.step c = some t) :
    s.Effect c t := by
  unfold step at hs
  cases hpc : s.pc c with
  | idle =>
    cases hl : s.isLock with
    | false =>
      simp only [hpc, hl, setLock, Bool.not_true, ↓reduceIte, Option.some.injEq] at hs
      subst hs
      exact .take hpc hl rfl rfl rfl rfl nofun
    | true =>
      simp only [hpc, hl, setLock, Bool.not_true, Bool.true_eq_false, ↓reduceIte,
        Option.some.injEq] at hs
      subst hs
      exact .move hpc rfl rfl (.stay rfl) nofun nofun
  | enter =>
    simp only [hpc, Option.ite_none_right_eq_some, Option.some.injEq] at hs
    obtain ⟨hm, rfl⟩ := hs
    exact .move hpc rfl rfl (.enter hm rfl) nofun nofun
  | retry =>
    cases hl : s.isLock with
    | false =>
      simp only [hpc, hl, setLock, Bool.not_true, ↓reduceIte, Option.some.injEq] at hs
      subst hs
      exact .take hpc hl rfl rfl rfl rfl nofun
    | true =>
      simp only [hpc, hl, setLock, Bool.not_true, Bool.true_eq_false, ↓reduceIte,
        Option.some.injEq] at hs
      subst hs
      exact .move hpc rfl rfl (.stay rfl) (fun _ => hl) nofun
  | push =>
    simp only [hpc, Option.some.injEq] at hs
    subst hs
    exact .push hpc
  | release =>
    simp only [hpc, Option.some.injEq] at hs
    subst hs
    exact .move hpc rfl rfl (.leave rfl rfl) nofun nofun
  | suspend =>
    simp only [hpc, Option.some.injEq] at hs
    subst hs
    exact .move hpc rfl rfl (.stay rfl) nofun nofun
  | suspended =>
    simp only [hpc, Option.ite_none_right_eq_some, Option.some.injEq] at hs
    obtain ⟨hc, rfl⟩ := hs
    exact .resume hpc hc
  | relock =>
    simp only [hpc, Option.ite_none_right_eq_some, Option.some.injEq] at hs
    obtain ⟨hm, rfl⟩ := hs
    exact .move hpc rfl rfl (.enter hm rfl) nofun nofun
  | leave =>
    simp only [hpc, Option.some.injEq] at hs
    subst hs
    exact .move hpc rfl rfl (.leave rfl rfl) nofun nofun
  | holding =>
    simp only [hpc, Option.some.injEq] at hs
    subst hs
    exact .move hpc rfl rfl (.stay rfl) nofun nofun
  | unlock =>
    simp only [hpc, Option.ite_none_right_eq_some, Option.some.injEq] at hs
    obtain ⟨hm, rfl⟩ := hs
    exact .move hpc rfl rfl (.enter hm rfl) nofun nofun
  | notify =>
    -- nobody cancels a waiter of the mutex, so the first in the queue gets the lock
    have hnot : ∀ w ∈ s.waiters, w.isCanceled = false := by
      intro w hw
      obtain ⟨d, n, rfl⟩ := h.entries w hw
      rfl
    simp only [hpc, notifyNolock, notifyNolock_one hnot, Option.some.injEq] at hs
    cases hws : s.waiters with
    | nil =>
      have hs' : { s.goto c .clear with mtx := s.mtx } = t := by
        rw [← hs]
        simp [hws, goto, NotifyResult.resumed]
      subst hs'
      exact .move hpc rfl rfl (.stay rfl) nofun (fun _ => by simp [queue, hws])
    | cons w ws =>
      obtain ⟨d, n, rfl⟩ := h.entries w (hws ▸ List.mem_cons_self)
      simp only [hws, NotifyResult.resumed, List.take_succ_cons, List.take_zero,
        List.drop_succ_cons, List.drop_zero, List.length_singleton, List.filterMap_cons,
        List.filterMap_nil, waiter_wakeup, Nat.one_ne_zero, ↓reduceIte] at hs
      subst hs
      refine .handOff d ws hpc (by simp [queue, hws]) fun w hw => ?_
      rw [hws]
      exact List.mem_cons_of_mem _ hw
  | clear =>
    cases hl : s.isLock with
    | false =>
      simp only [hpc, hl, setLock, Bool.not_false, Bool.false_eq_true, ↓reduceIte,
        Option.getD_none, Option.some.injEq] at hs
      subst hs
      exact .free hpc
    | true =>
      simp only [hpc, hl, setLock, Bool.not_false, ↓reduceIte, Option.getD_some,
        Option.some.injEq] at hs
      subst hs
      exact .free hpc
  | done =>
    simp only [hpc, Option.some.injEq] at hs
    subst hs
    exact .move hpc rfl rfl (.leave rfl rfl) nofun nofun

/-! ## The effects keep the invariant -/

/-- Who runs with the mutex after a step to a place without it ran with it before. -/
theorem running_of_goto {s : CoMutex} {a c : Coro} {q : LockPc} (hq : q.running = false)
    (hc : ((s.goto a q).pc c).running) : (s.pc c).running := by
  refine forall_update (R := fun d (p : LockPc) => p.running → (s.pc d).running) ?_ ?_ c hc
  · simp [hq]
  · exact fun d _ hd => hd

/-- A move changes nobody's hold on the mutex. -/
theorem holds_goto {s : CoMutex} {c : Coro} {p q : LockPc} {m : Option Coro}
    (hpc : s.pc c = p) (hq : q.running = p.running) (d : Coro) :
    ({ s.goto c q with mtx := m } : CoMutex).Holds d ↔ s.Holds d := by
  refine forall_update
    (R := fun d (p : LockPc) => p.running ∨ d ∈ s.resumeQueue ↔ s.Holds d) ?_ ?_ d
  · simp [Holds, hq, hpc]
  · exact fun d _ => Iff.rfl

end CoMutex

namespace CoMutexInv

open CoMutex

variable {s : CoMutex} {c : Coro}

theorem not_queued {p : LockPc} (h : CoMutexInv s) (hpc : s.pc c = p) (hp : p.queued = false) :
    c ∉ s.queue ∧ c ∉ s.resumeQueue := by
  have hc := h.queued c
  simp only [hpc, hp, Bool.false_eq_true, false_iff, not_or] at hc
  exact hc

theorem move {p q : LockPc} {m : Option Coro} (h : CoMutexInv s) (hpc : s.pc c = p)
    (hqueued : q.queued = p.queued) (hrunning : q.running = p.running)
    (hm : Owned.Move LockPc.inside c p q s.mtx m)
    (hpush : q = .push → s.isLock = true) (hclear : q = .clear → s.queue = []) :
    CoMutexInv { s.goto c q with mtx := m } where
  mtx := h.mtx.move hpc hm
  queued := forall_update (R := fun d (p : LockPc) => p.queued ↔ d ∈ s.queue ∨ d ∈ s.resumeQueue)
    (by rw [hqueued, ← hpc, h.queued c]) fun d _ => h.queued d
  nodup := h.nodup
  owner := by
    obtain ⟨o, hlock, ho⟩ := h.owner
    exact ⟨o, hlock, fun d => (holds_goto hpc hrunning d).trans (ho d)⟩
  push := forall_update
    (R := fun _ (p : LockPc) => p = .push → s.isLock = true) hpush fun d _ => h.push d
  clear := forall_update
    (R := fun _ (p : LockPc) => p = .clear → s.queue = []) hclear fun d _ => h.clear d
  locked := h.locked
  fifo := h.fifo
  entries := h.entries

theorem take {p q : LockPc} (h : CoMutexInv s) (hpc : s.pc c = p) (hfree : s.isLock = false)
    (hp : p.queued = false) (hq : q.queued = false) (hrunning : q.running = true)
    (hinside : q.inside = p.inside) (hclear : q ≠ .clear) :
    CoMutexInv { s.goto c q with isLock := true } where
  mtx := h.mtx.move hpc (.stay hinside)
  queued := forall_update (R := fun d (p : LockPc) => p.queued ↔ d ∈ s.queue ∨ d ∈ s.resumeQueue)
    (by rw [hq, ← hp, ← hpc, h.queued c]) fun d _ => h.queued d
  nodup := h.nodup
  owner := by
    obtain ⟨o, hlock, ho⟩ := h.owner
    obtain rfl : o = none := by simpa [hfree] using hlock
    refine ⟨some c, rfl, ?_⟩
    refine forall_update
      (R := fun d (p : LockPc) => p.running ∨ d ∈ s.resumeQueue ↔ some c = some d) ?_ ?_
    · simp [hrunning]
    · intro d hd
      simpa [Holds, Ne.symm hd] using ho d
  push := fun _ _ => rfl
  clear := forall_update (R := fun _ (p : LockPc) => p = .clear → s.queue = []) (absurd · hclear)
    fun d _ => h.clear d
  locked := fun _ => rfl
  fifo := h.fifo
  entries := h.entries

theorem pushed (h : CoMutexInv s) (hpc : s.pc c = .push) :
    CoMutexInv { s.goto c .release with
      waiters := s.waiters ++ [waiter c s.pushed.length]
      pushed := s.pushed ++ [c] } := by
  have hqueue : ({ s.goto c .release with
      waiters := s.waiters ++ [waiter c s.pushed.length]
      pushed := s.pushed ++ [c] } : CoMutex).queue = s.queue ++ [c] := by
    simp [queue]
  have hnew := h.not_queued hpc rfl
  have hlock := h.push c hpc
  refine ⟨?_, ?_, ?_, ?_, fun _ _ => hlock, ?_, fun _ => hlock, ?_, ?_⟩
  · exact h.mtx.move hpc (.stay rfl)
  · rw [hqueue]
    refine forall_update
      (R := fun d (p : LockPc) => p.queued ↔ d ∈ s.queue ++ [c] ∨ d ∈ s.resumeQueue) ?_ ?_
    · simp [LockPc.queued]
    · intro d hd
      simpa [hd] using h.queued d
  · rw [hqueue]
    have hperm : (s.queue ++ [c] ++ s.resumeQueue).Perm (c :: (s.queue ++ s.resumeQueue)) := by
      simp
    exact hperm.nodup_iff.mpr (List.nodup_cons.mpr ⟨by simpa using hnew, h.nodup⟩)
  · obtain ⟨o, ho, hown⟩ := h.owner
    refine ⟨o, ho, ?_⟩
    refine forall_update
      (R := fun d (p : LockPc) => p.running ∨ d ∈ s.resumeQueue ↔ o = some d) ?_ ?_
    · simpa [Holds, hpc, LockPc.running] using hown c
    · exact fun d _ => hown d
  · -- `c` is inside, so nobody is about to clear the flag
    refine forall_update (R := fun _ (p : LockPc) => p = .clear → _) nofun fun d hd hclear => ?_
    exact absurd (h.mtx.unique hclear hpc rfl rfl) hd
  · rw [hqueue, ← List.append_assoc]
    exact congrArg (· ++ [c]) h.fifo
  · intro w hw
    rcases List.mem_append.mp hw with hw | hw
    · exact h.entries w hw
    · exact ⟨c, _, List.mem_singleton.mp hw⟩

theorem resume (h : CoMutexInv s) (hpc : s.pc c = .suspended) (hc : c ∈ s.resumeQueue) :
    CoMutexInv { s.goto c .relock with resumeQueue := s.resumeQueue.erase c } := by
  have hnd := List.nodup_append.mp h.nodup
  have hmem : ∀ d, d ≠ c → (d ∈ s.resumeQueue.erase c ↔ d ∈ s.resumeQueue) := fun d hd =>
    List.mem_erase_of_ne hd
  have hcq : c ∉ s.queue := fun hq => hnd.2.2 c hq c hc rfl
  refine ⟨?_, ?_, ?_, ?_, ?_, ?_, h.locked, h.fifo, h.entries⟩
  · exact h.mtx.move hpc (.stay rfl)
  · refine forall_update
      (R := fun d (p : LockPc) => p.queued ↔ d ∈ s.queue ∨ d ∈ s.resumeQueue.erase c) ?_ ?_
    · simp [LockPc.queued, hcq, hnd.2.1.not_mem_erase]
    · intro d hd
      rw [hmem d hd]
      exact h.queued d
  · exact h.nodup.sublist (List.erase_sublist.append_left s.queue)
  · obtain ⟨o, ho, hown⟩ := h.owner
    refine ⟨o, ho, ?_⟩
    refine forall_update
      (R := fun d (p : LockPc) => p.running ∨ d ∈ s.resumeQueue.erase c ↔ o = some d) ?_ ?_
    · simpa [LockPc.running] using (hown c).mp (.inr hc)
    · intro d hd
      rw [hmem d hd]
      exact hown d
  · exact forall_update
      (R := fun _ (p : LockPc) => p = .push → s.isLock = true) nofun fun d _ => h.push d
  · exact forall_update
      (R := fun _ (p : LockPc) => p = .clear → s.queue = []) nofun fun d _ => h.clear d

theorem handOff {d : Coro} {ws : List CoroutineWaiter} (h : CoMutexInv s)
    (hpc : s.pc c = .notify) (hqueue : s.queue = d :: ws.filterMap (·.wakeup))
    (hws : ∀ w ∈ ws, w ∈ s.waiters) :
    CoMutexInv { s.goto c .done with
      waiters := ws, resumeQueue := s.resumeQueue ++ [d], handed := s.handed ++ [d] } := by
  have hlock : s.isLock = true := h.locked (by simp [hqueue])
  have hc := h.not_queued hpc rfl
  have hcd : c ≠ d := fun hcd => hc.1 (by simp [hqueue, hcd])
  refine ⟨?_, ?_, ?_, ?_, fun _ _ => hlock, ?_, fun _ => hlock, ?_,
    fun w hw => h.entries w (hws w hw)⟩
  · exact h.mtx.move hpc (.stay rfl)
  · refine forall_update (R := fun e (p : LockPc) => p.queued ↔
      e ∈ ws.filterMap (·.wakeup) ∨ e ∈ s.resumeQueue ++ [d]) ?_ ?_
    · have : c ∉ ws.filterMap (·.wakeup) := fun hw => hc.1 (by simp [hqueue, hw])
      simp [LockPc.queued, this, hc.2, hcd]
    · intro e _
      rw [h.queued e, hqueue]
      simp only [List.mem_cons, List.mem_append, List.not_mem_nil, or_false]
      tauto
  · have hnd := h.nodup
    rw [hqueue] at hnd
    have hperm : (ws.filterMap (·.wakeup) ++ (s.resumeQueue ++ [d])).Perm
        (d :: ws.filterMap (·.wakeup) ++ s.resumeQueue) := by
      rw [← List.append_assoc]
      exact List.perm_append_singleton ..
    exact hperm.nodup_iff.mpr hnd
  · -- `c` had the mutex, and now `d` has it
    obtain ⟨o, -, hown⟩ := h.owner
    obtain rfl := (hown c).mp (.inl (by rw [hpc]; rfl))
    refine ⟨some d, hlock, ?_⟩
    refine forall_update
      (R := fun e (p : LockPc) => p.running ∨ e ∈ s.resumeQueue ++ [d] ↔ some d = some e) ?_ ?_
    · simp [LockPc.running, hc.2, hcd, hcd.symm]
    · intro e he
      have := hown e
      simp only [Holds, Option.some.injEq, he.symm, iff_false, not_or] at this
      simp [this, eq_comm]
  · refine forall_update (R := fun _ (p : LockPc) => p = .clear → _) nofun fun e he hclear => ?_
    have := h.clear e hclear
    simp [hqueue] at this
  · refine h.fifo.trans ?_
    rw [hqueue]
    simp [queue]

theorem free (h : CoMutexInv s) (hpc : s.pc c = .clear) :
    CoMutexInv { s.goto c .done with isLock := false } := by
  have hqueue := h.clear c hpc
  refine ⟨?_, ?_, h.nodup, ?_, ?_, ?_, fun hne => absurd hqueue hne, h.fifo, h.entries⟩
  · exact h.mtx.move hpc (.stay rfl)
  · exact forall_update (R := fun d (p : LockPc) => p.queued ↔ d ∈ s.queue ∨ d ∈ s.resumeQueue)
      (by rw [← h.queued c, hpc]; rfl) fun d _ => h.queued d
  · obtain ⟨o, -, hown⟩ := h.owner
    obtain rfl := (hown c).mp (.inl (by rw [hpc]; rfl))
    refine ⟨none, rfl, ?_⟩
    refine forall_update
      (R := fun d (p : LockPc) => p.running ∨ d ∈ s.resumeQueue ↔ none = some d) ?_ ?_
    · simp [LockPc.running, (h.not_queued hpc rfl).2]
    · intro d hd
      simpa [Holds, hd.symm] using hown d
  · -- who is about to queue is inside, and that is `c`
    refine forall_update (R := fun _ (p : LockPc) => p = .push → _) nofun fun d hd hpush => ?_
    exact absurd (h.mtx.unique hpush hpc rfl rfl) hd
  · exact fun _ _ => hqueue

theorem init : CoMutexInv .init := by
  constructor <;>
    simp [CoMutex.init, Owned, LockPc.inside, LockPc.queued, queue, Holds, LockPc.running]

theorem step {t : CoMutex} (h : CoMutexInv s) (hs : s.step c = some t) : CoMutexInv t := by
  cases step_effect h hs with
  | move hpc hqueued hrunning hm hpush hclear => exact h.move hpc hqueued hrunning hm hpush hclear
  | take hpc hfree hp hq hrunning hinside hclear =>
    exact h.take hpc hfree hp hq hrunning hinside hclear
  | push hpc => exact h.pushed hpc
  | resume hpc hc => exact h.resume hpc hc
  | handOff d ws hpc hqueue hws => exact h.handOff hpc hqueue hws
  | free hpc => exact h.free hpc

end CoMutexInv

/-! ## Every interleaving -/

theorem CoMutexInv.reachable {s : CoMutex} (h : coMutex.Reachable s) : CoMutexInv s :=
  h.invariant .init fun _ _ _ hinv _ hs => hinv.step hs

/-- Nobody gets the mutex before the first of the queue. -/
theorem CoMutexInv.no_overtaking {s t : CoMutex} {a c : Coro} (h : CoMutexInv s)
    (hs : s.step a = some t) (hc : ¬ s.Holds c) (hc' : t.Holds c) :
    s.queue = [] ∨ s.queue.head? = some c := by
  cases CoMutex.step_effect h hs with
  | move hpc _ hrunning => exact absurd ((CoMutex.holds_goto hpc hrunning c).mp hc') hc
  | take _ hfree =>
    left
    by_contra hne
    simp [h.locked hne] at hfree
  | push =>
    refine absurd ?_ hc
    exact hc'.imp_left (CoMutex.running_of_goto rfl)
  | resume _ ha =>
    refine absurd ?_ hc
    rcases eq_or_ne c a with hca | hca
    · exact .inr (hca ▸ ha)
    · refine hc'.imp (fun hrun => ?_) List.mem_of_mem_erase
      exact Function.update_of_ne hca LockPc.relock s.pc ▸ hrun
  | handOff d ws _ hqueue =>
    rcases hc' with hrun | hres
    · exact absurd (.inl (CoMutex.running_of_goto rfl hrun)) hc
    · rcases List.mem_append.mp hres with hres | hres
      · exact absurd (.inr hres) hc
      · rw [hqueue, List.mem_singleton.mp hres]
        exact .inr rfl
  | free =>
    refine absurd ?_ hc
    exact hc'.imp_left (CoMutex.running_of_goto rfl)

/-- Every reachable state of the mutex, under every interleaving of the atomic steps of any number
of coroutines, meets the contract. -/
theorem coMutex_law (s : CoMutex) (h : coMutex.Reachable s) : CoMutexLaw s := by
  have hinv := CoMutexInv.reachable h
  obtain ⟨o, hlock, hown⟩ := hinv.owner
  refine ⟨?_, ?_, ?_, hinv.fifo, fun a t hs c hc hc' => hinv.no_overtaking hs hc hc'⟩
  · intro c d hc hd
    have hc' := (hown c).mp hc
    have hd' := (hown d).mp hd
    exact Option.some.inj (hc'.symm.trans hd')
  · intro hne
    obtain ⟨w, ws, hws⟩ := List.exists_cons_of_ne_nil hne
    obtain ⟨c, n, rfl⟩ := hinv.entries w (hws ▸ List.mem_cons_self)
    exact hinv.locked (by simp [CoMutex.queue, hws])
  · intro hl
    obtain ⟨c, rfl⟩ := Option.isSome_iff_exists.mp (hlock.symm.trans hl)
    exact ⟨c, (hown c).mpr rfl⟩

/-- Coroutine `0` locks, and coroutine `1` of another scheduler queues; `unlock` hands the mutex
over before coroutine `1` is suspended. -/
theorem coMutex_law_handed_early :
    let c : Coro := ⟨0, 0⟩
    let d : Coro := ⟨1, 0⟩
    ∃ s, coMutex.run .init [c, d, d, d, d, d, c, c, c] = some s ∧ CoMutexLaw s ∧
      s.pc d = .suspend ∧ s.handed = [d] :=
  have hrun : coMutex.run .init [⟨0, 0⟩, ⟨1, 0⟩, ⟨1, 0⟩, ⟨1, 0⟩, ⟨1, 0⟩, ⟨1, 0⟩, ⟨0, 0⟩, ⟨0, 0⟩,
      ⟨0, 0⟩] = some _ := rfl
  ⟨_, hrun, coMutex_law _ (System.reachable_of_run hrun), rfl, rfl⟩

end Sheep
