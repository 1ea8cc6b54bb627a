import Sheep.Lib.Process
import Sheep.Lib.System
import Sheep.Coroutine.Waiter

/-!
# The mutex of threads and coroutines

`Mutex` is a flag behind `mtx_` and a `ConditionVariable`, which keeps coroutines and threads in
two queues. `mutex` runs any number of threads and coroutines through `lock` and `unlock`, one
atomic step of one party at a time. `std::condition_variable` may wake a thread spuriously and
chooses which thread it notifies; a coroutine is resumed only by a notification.

`mutex_law`: in every reachable state at most one party has the lock, `waitings_` is the number of
parties in the wait loop, and no wake-up is lost. The last rests on `MutexInv.wake`: while the
flag is clear, either somebody in a critical section is about to look at the flag or to notify,
or nobody waits un-notified, or some notified party is on its way.
-/

namespace Sheep

inductive Party
  | thread (id : Nat)
  | coro (c : Coro)
  deriving DecidableEq, Repr

/-- Where a party is: each value is the point before one atomic step. -/
inductive MutexPc
  /-- outside; the next step calls `lock` and takes `mtx_` -/
  | idle
  /-- before `while (isLock)` -/
  | test
  /-- before `cond_.wait(lock)` -/
  | wait
  /-- a coroutine that is queued, before `lock.unlock()` -/
  | release
  /-- before `sched_->suspend()` -/
  | suspend
  /-- switched out -/
  | suspended
  /-- a thread in `cv_.wait` -/
  | blocked
  /-- woken, by a notification or spuriously, before `mtx_` is taken again -/
  | relock (notified : Bool)
  /-- before `waitings_--` -/
  | wake
  /-- before `lock` returns and releases `mtx_` -/
  | leave
  /-- after `lock`; the next step calls `unlock` and takes `mtx_` -/
  | holding
  /-- before `isLock = false` -/
  | clear
  /-- before `if (waitings_ > 0)` -/
  | check
  /-- before `coCv_.notify_one()` -/
  | notify
  /-- before `cv_.notify_one()` -/
  | notifyThread
  /-- before `unlock` returns and releases `mtx_` -/
  | done
  deriving DecidableEq, Repr

namespace MutexPc

/-- The party is in a critical section of `mtx_`. -/
def inside : MutexPc → Bool
  | .test | .wait | .release | .wake | .leave | .clear | .check | .notify | .notifyThread | .done =>
    true
  | _ => false

/-- The party has the lock: from `isLock = true` to `isLock = false`. -/
def owner : MutexPc → Bool
  | .leave | .holding | .clear => true
  | _ => false

/-- The party is between `waitings_++` and `waitings_--`. -/
def inLoop : MutexPc → Bool
  | .wait | .release | .suspend | .suspended | .blocked | .relock _ | .wake => true
  | _ => false

/-- A coroutine that has queued and was not switched to since. -/
def queued : MutexPc → Bool
  | .release | .suspend | .suspended => true
  | _ => false

/-- The party found the flag set and will release `mtx_` to wait. -/
def goesWaiting : MutexPc → Bool
  | .wait | .release => true
  | _ => false

/-- The party is inside and about to look at the flag or to notify. -/
def attends : MutexPc → Bool
  | .test | .wake | .check | .notify | .notifyThread => true
  | _ => false

end MutexPc

/-- `Mutex`, its parties, and the schedulers' `resumeQueue_`. -/
structure Mutex where
  /-- who is in the critical section of `mtx_` -/
  mtx : Option Party
  coCv : CoConditionVariable
  /-- the threads blocked in `cv_` -/
  cv : List Nat
  isLock : Bool
  waitings : Int
  resumeQueue : List Coro
  pc : Party → MutexPc

inductive MutexAction
  /-- the next atomic step of a party -/
  | step (p : Party)
  /-- `cv_.notify_one()` of the party wakes this thread -/
  | notifyThread (p : Party) (thread : Nat)
  | spurious (thread : Nat)
  deriving DecidableEq, Repr

namespace Mutex

def init : Mutex := ⟨none, ⟨[]⟩, [], false, 0, [], fun _ => .idle⟩

def goto (s : Mutex) (p : Party) (q : MutexPc) : Mutex :=
  { s with pc := Function.update s.pc p q }

/-- The object that `CoConditionVariable::wait` builds and queues. -/
def waiter (c : Coro) : CoroutineWaiter := ⟨some c.sched, c.info, false, 0⟩

/-- `cond_.wait(lock)` up to the point where the party blocks. -/
def wait (s : Mutex) : Party → Mutex
  | .coro c => { s.goto (.coro c) .release with
      coCv := (s.coCv.wait (waiter c) (-1)).1 }
  | .thread t => { s.goto (.thread t) .blocked with cv := t :: s.cv, mtx := none }

/-- The next atomic step of `p`; `none` where it has to wait. -/
def stepParty (s : Mutex) (p : Party) : Option Mutex :=
  match s.pc p with
  | .idle => if s.mtx = none then some { s.goto p .test with mtx := some p } else none
  | .test =>
    if s.isLock then some { s.goto p .wait with waitings := s.waitings + 1 }
    else some { s.goto p .leave with isLock := true }
  | .wait => some (s.wait p)
  | .release => some { s.goto p .suspend with mtx := none }
  | .suspend => some (s.goto p .suspended)
  | .suspended =>
    match p with
    | .thread _ => none
    | .coro c =>
      -- the scheduler takes `c` out of its `resumeQueue_` and switches to it
      if c ∈ s.resumeQueue then
        some { s.goto p (.relock true) with resumeQueue := s.resumeQueue.erase c }
      else none
  | .blocked => none
  | .relock _ => if s.mtx = none then some { s.goto p .wake with mtx := some p } else none
  | .wake => some { s.goto p .test with waitings := s.waitings - 1 }
  | .leave => some { s.goto p .holding with mtx := none }
  | .holding => if s.mtx = none then some { s.goto p .clear with mtx := some p } else none
  | .clear => some { s.goto p .check with isLock := false }
  | .check => some (s.goto p (if s.waitings > 0 then .notify else .done))
  | .notify =>
    let (r, fallsThrough) := ConditionVariable.notifyOne s.coCv
    some { s.goto p (if fallsThrough then .notifyThread else .done) with
      coCv := ⟨r.waiters⟩
      resumeQueue := s.resumeQueue ++ r.resumed }
  | .notifyThread => if s.cv = [] then some (s.goto p .done) else none
  | .done => some { s.goto p .idle with mtx := none }

/-- The thread `t` leaves `cv_.wait`. -/
def unblock (s : Mutex) (t : Nat) (notified : Bool) : Mutex :=
  { s.goto (.thread t) (.relock notified) with cv := s.cv.filter (· ≠ t) }

def step (s : Mutex) : MutexAction → Option Mutex
  | .step p => s.stepParty p
  | .notifyThread p t =>
    if s.pc p = .notifyThread ∧ t ∈ s.cv then some ((s.unblock t true).goto p .done) else none
  | .spurious t => if t ∈ s.cv then some (s.unblock t false) else none

/-- The coroutines in `coCv_`, the first in first. -/
def queue (s : Mutex) : List Coro := s.coCv.waiters.filterMap (·.wakeup)

/-- The party waits and was not notified. -/
def Unnotified (s : Mutex) : Party → Prop
  | .thread t => s.pc (.thread t) = .blocked
  | .coro c => (s.pc (.coro c)).queued ∧ c ∉ s.resumeQueue

/-- The party was notified and has not taken `mtx_` again. -/
def Notified (s : Mutex) : Party → Prop
  | .thread t => s.pc (.thread t) = .relock true
  | .coro c => ((s.pc (.coro c)).queued ∧ c ∈ s.resumeQueue) ∨ s.pc (.coro c) = .relock true

end Mutex

def mutex : System Mutex MutexAction := ⟨.init, Mutex.step⟩

/-! ## The contract -/

structure MutexLaw (s : Mutex) : Prop where
  exclusive : ∀ p q, (s.pc p).owner → (s.pc q).owner → p = q
  waitings : s.waitings = {p | (s.pc p).inLoop = true}.ncard
  finite : {p | (s.pc p).inLoop = true}.Finite
  no_lost_wakeup : s.isLock = false → s.mtx = none → ∀ p, s.Unnotified p →
    ∃ q, q ≠ p ∧ s.Notified q

/-! ## The places of coroutines and threads -/

theorem forall_coro {α : Type} {pc : Party → α} {c : Coro} {b : α} {R : Coro → α → Prop}
    (hc : R c b) (hd : ∀ d, d ≠ c → R d (pc (.coro d))) (d : Coro) :
    R d (Function.update pc (.coro c) b (.coro d)) :=
  forall_update_comp (fun _ _ => Party.coro.inj) hc hd d

theorem forall_thread {α : Type} {pc : Party → α} {t : Nat} {b : α} {R : Nat → α → Prop}
    (ht : R t b) (hu : ∀ u, u ≠ t → R u (pc (.thread u))) (u : Nat) :
    R u (Function.update pc (.thread t) b (.thread u)) :=
  forall_update_comp (fun _ _ => Party.thread.inj) ht hu u

/-! ## The invariant -/

/-- While the flag is clear, somebody attends to it, or nobody waits un-notified, or a notified
party is on its way. -/
def Mutex.Wake (s : Mutex) : Prop :=
  s.isLock = false →
    (∃ p, (s.pc p).attends) ∨ (∀ p, ¬ s.Unnotified p) ∨ ∃ p, s.Notified p

theorem Mutex.not_canceled {ws : List CoroutineWaiter} (h : ∀ w ∈ ws, ∃ c, w = waiter c) :
    ∀ w ∈ ws, w.isCanceled = false := by
  intro w hw
  obtain ⟨c, rfl⟩ := h w hw
  rfl

/-- What holds in every reachable state. -/
structure MutexInv (s : Mutex) : Prop where
  mtx : Owned MutexPc.inside s.pc s.mtx
  lock : ∃ o : Option Party, s.isLock = o.isSome ∧ Owned MutexPc.owner s.pc o
  count : Counted MutexPc.inLoop s.pc s.waitings
  queued : ∀ c, (s.pc (.coro c)).queued ↔ c ∈ s.queue ∨ c ∈ s.resumeQueue
  nodup : (s.queue ++ s.resumeQueue).Nodup
  blocked : ∀ t, s.pc (.thread t) = .blocked ↔ t ∈ s.cv
  goesWaiting : ∀ p, (s.pc p).goesWaiting → s.isLock = true
  empty : ∀ p, s.pc p = .notifyThread → s.queue = []
  entries : ∀ w ∈ s.coCv.waiters, ∃ c, w = Mutex.waiter c
  wake : s.Wake

namespace Mutex

/-- Who goes to a place that attends sees to the wakeup. -/
theorem Wake.of_goto {s : Mutex} {pc : Party → MutexPc} {p : Party} {b : MutexPc}
    (hpc : s.pc = Function.update pc p b) (hb : b.attends = true) : s.Wake := by
  refine fun _ => .inl ⟨p, ?_⟩
  rw [hpc, Function.update_self]
  exact hb

theorem Wake.of_locked {s : Mutex} (h : s.isLock = true) : s.Wake := fun hfree => by
  simp [h] at hfree

/-- A step on which nobody stops attending, starts to wait, or forgets its notification. -/
theorem Wake.mono {s t : Mutex} (h : s.Wake) (hlock : t.isLock = s.isLock)
    (hattends : ∀ p, (s.pc p).attends → (t.pc p).attends)
    (hun : ∀ p, t.Unnotified p → s.Unnotified p)
    (hno : ∀ p, s.Notified p → t.Notified p) : t.Wake := by
  intro hfree
  rcases h (hlock ▸ hfree) with ⟨p, hp⟩ | hnone | ⟨p, hp⟩
  · exact .inl ⟨p, hattends p hp⟩
  · exact .inr (.inl fun p hp => hnone p (hun p hp))
  · exact .inr (.inr ⟨p, hno p hp⟩)

end Mutex

namespace MutexInv

open Mutex

variable {s : Mutex} {p : Party} {a b : MutexPc}

/-- Whoever has the lock has the flag set. -/
theorem locked (h : MutexInv s) (hpc : s.pc p = a) (ha : a.owner = true) : s.isLock = true := by
  obtain ⟨o, hlock, howned⟩ := h.lock
  obtain rfl := (howned p).mp (hpc ▸ ha)
  exact hlock

/-- Two different parties are not both inside. -/
theorem alone {q : Party} (h : MutexInv s) (hpc : s.pc p = a) (ha : a.inside = true)
    (hq : q ≠ p) : (s.pc q).inside = false := by
  by_contra hne
  have hin : (s.pc q).inside = true := by simpa using hne
  exact hq (h.mtx.unique rfl hpc hin ha)

/-- How a step from `a` to `b` changes the flag. -/
inductive FlagMove (a b : MutexPc) : Bool → Bool → Prop
  | stay {l : Bool} : b.owner = a.owner → FlagMove a b l l
  | take : b.owner = true → FlagMove a b false true
  | free {l : Bool} : a.owner = true → b.owner = false → a.inside = true → FlagMove a b l false

theorem lock_move {l : Bool} (h : MutexInv s) (hpc : s.pc p = a)
    (hl : FlagMove a b s.isLock l) :
    ∃ o : Option Party, l = o.isSome ∧ Owned MutexPc.owner (Function.update s.pc p b) o := by
  obtain ⟨o, hlock, howned⟩ := h.lock
  generalize hs : s.isLock = l₀ at hl
  cases hl with
  | stay hb => exact ⟨o, hs ▸ hlock, howned.move hpc (.stay hb)⟩
  | take hb =>
    have ho : o = none := by simpa [hs] using hlock
    exact ⟨some p, rfl, howned.move hpc (.enter ho hb)⟩
  | free ha hb => exact ⟨none, rfl, howned.move hpc (.leave ha hb)⟩

theorem goesWaiting_move {l : Bool} (h : MutexInv s) (hpc : s.pc p = a)
    (hl : FlagMove a b s.isLock l) (hb : b.goesWaiting → l = true) (q : Party) :
    (Function.update s.pc p b q).goesWaiting → l = true := by
  refine forall_update (R := fun _ (x : MutexPc) => x.goesWaiting → l = true) hb ?_ q
  intro r hr hgoes
  have hset := h.goesWaiting r hgoes
  rw [hset] at hl
  cases hl with
  | stay => rfl
  | free _ _ ha =>
    have hout := h.alone hpc ha hr
    cases hpr : s.pc r <;> simp_all [MutexPc.goesWaiting, MutexPc.inside]

theorem empty_move (h : MutexInv s) (hb : b = .notifyThread → s.queue = []) (q : Party) :
    Function.update s.pc p b q = .notifyThread → s.queue = [] :=
  forall_update (R := fun _ (x : MutexPc) => x = .notifyThread → s.queue = []) hb
    (fun q _ => h.empty q) q

theorem attends_move (hpc : s.pc p = a) (ha : a.attends = false) (q : Party) :
    (s.pc q).attends → (Function.update s.pc p b q).attends :=
  forall_update (R := fun q (x : MutexPc) => (s.pc q).attends → x.attends)
    (by simp [hpc, ha]) (fun _ _ => id) q

/-- A step that changes the place of `p`, `mtx_`, the flag and the counter. -/
theorem move {m : Option Party} {l : Bool} {n : Int} (h : MutexInv s) (hpc : s.pc p = a)
    (hm : Owned.Move MutexPc.inside p a b s.mtx m) (hl : FlagMove a b s.isLock l)
    (hn : Counted.Move MutexPc.inLoop a b s.waitings n) (hqueued : b.queued = a.queued)
    (ha : a ≠ .blocked) (hb : b ≠ .blocked) (hgoes : b.goesWaiting → l = true)
    (hempty : b = .notifyThread → s.queue = [])
    (hwake : ({ s.goto p b with mtx := m, isLock := l, waitings := n } : Mutex).Wake) :
    MutexInv { s.goto p b with mtx := m, isLock := l, waitings := n } where
  mtx := h.mtx.move hpc hm
  lock := h.lock_move hpc hl
  count := h.count.move hpc hn
  queued := fun c =>
    (forall_update (R := fun q (x : MutexPc) => x.queued ↔ (s.pc q).queued)
      (by rw [hqueued, hpc]) (fun _ _ => Iff.rfl) (.coro c)).trans (h.queued c)
  nodup := h.nodup
  blocked := fun t =>
    (forall_update (R := fun q (x : MutexPc) => x = .blocked ↔ s.pc q = .blocked)
      (by simp [hpc, ha, hb]) (fun _ _ => Iff.rfl) (.thread t)).trans (h.blocked t)
  goesWaiting := h.goesWaiting_move hpc hl hgoes
  empty := h.empty_move hempty
  entries := h.entries
  wake := hwake

/-! ### `lock` -/

theorem not_queued {c : Coro} (h : MutexInv s) (hpc : s.pc (.coro c) = a)
    (ha : a.queued = false) : c ∉ s.queue ∧ c ∉ s.resumeQueue := by
  have hc := h.queued c
  simp only [hpc, ha, Bool.false_eq_true, false_iff, not_or] at hc
  exact hc

/-- A coroutine queues itself. -/
theorem waitCoro {c : Coro} (h : MutexInv s) (hpc : s.pc (.coro c) = .wait) :
    MutexInv (s.wait (.coro c)) := by
  have hqueue : (s.wait (.coro c)).queue = s.queue ++ [c] := by
    simp [Mutex.wait, queue, CoConditionVariable.wait, waiter, CoroutineWaiter.wakeup]
  have hlock : s.isLock = true := h.goesWaiting (.coro c) (by rw [hpc]; rfl)
  have hnew := h.not_queued hpc rfl
  refine ⟨h.mtx.move hpc (.stay rfl), h.lock_move hpc (.stay rfl), h.count.move hpc (.stay rfl),
    ?_, ?_, ?_, fun _ _ => hlock, ?_, ?_, .of_locked hlock⟩
  · rw [hqueue]
    refine forall_coro (R := fun d (x : MutexPc) => x.queued ↔
      d ∈ s.queue ++ [c] ∨ d ∈ s.resumeQueue) ?_ ?_
    · simp [MutexPc.queued]
    · intro d hd
      simpa [hd] using h.queued d
  · rw [hqueue]
    have hperm : (s.queue ++ [c] ++ s.resumeQueue).Perm (c :: (s.queue ++ s.resumeQueue)) := by
      simp
    exact hperm.nodup_iff.mpr (List.nodup_cons.mpr ⟨by simpa using hnew, h.nodup⟩)
  · intro t
    simpa [Mutex.wait, goto] using h.blocked t
  · -- `c` is inside, so nobody is about to notify a thread
    refine forall_update (R := fun _ (x : MutexPc) => x = .notifyThread → _) nofun ?_
    intro q hq hnotify
    have hout := h.alone hpc rfl hq
    rw [hnotify] at hout
    cases hout
  · intro w hw
    rcases List.mem_append.mp hw with hw | hw
    · exact h.entries w hw
    · exact ⟨c, List.mem_singleton.mp hw⟩

/-- A thread blocks in `cv_`. -/
theorem waitThread {t : Nat} (h : MutexInv s) (hpc : s.pc (.thread t) = .wait) :
    MutexInv (s.wait (.thread t)) := by
  have hlock : s.isLock = true := h.goesWaiting (.thread t) (by rw [hpc]; rfl)
  refine ⟨h.mtx.move hpc (.leave rfl rfl), h.lock_move hpc (.stay rfl),
    h.count.move hpc (.stay rfl), ?_, h.nodup, ?_, fun _ _ => hlock, ?_, h.entries,
    .of_locked hlock⟩
  · intro c
    simpa [Mutex.wait, goto, queue] using h.queued c
  · refine forall_thread (R := fun u (x : MutexPc) => x = .blocked ↔ u ∈ t :: s.cv) ?_ ?_
    · simp
    · intro u hu
      simpa [hu] using h.blocked u
  · exact h.empty_move nofun

/-- A coroutine is resumed. -/
theorem resume {c : Coro} (h : MutexInv s) (hpc : s.pc (.coro c) = .suspended)
    (hc : c ∈ s.resumeQueue) :
    MutexInv { s.goto (.coro c) (.relock true) with resumeQueue := s.resumeQueue.erase c } := by
  have hnd := List.nodup_append.mp h.nodup
  have hcq : c ∉ s.queue := fun hq => hnd.2.2 c hq c hc rfl
  refine ⟨h.mtx.move hpc (.stay rfl), h.lock_move hpc (.stay rfl), h.count.move hpc (.stay rfl),
    ?_, h.nodup.sublist (List.erase_sublist.append_left s.queue), ?_,
    h.goesWaiting_move hpc (.stay rfl) nofun, ?_, h.entries, ?_⟩
  · refine forall_coro
      (R := fun d (x : MutexPc) => x.queued ↔ d ∈ s.queue ∨ d ∈ s.resumeQueue.erase c) ?_ ?_
    · simp [MutexPc.queued, hcq, hnd.2.1.not_mem_erase]
    · intro d hd
      rw [List.mem_erase_of_ne hd]
      exact h.queued d
  · intro t
    simpa [goto] using h.blocked t
  · exact h.empty_move nofun
  · refine h.wake.mono rfl (attends_move hpc rfl) ?_ ?_
    · intro q
      cases q with
      | thread t => simp [Unnotified, goto]
      | coro d =>
        refine forall_coro (R := fun d (x : MutexPc) =>
          x.queued ∧ d ∉ s.resumeQueue.erase c → s.Unnotified (.coro d)) ?_ ?_ d
        · simp [MutexPc.queued]
        · intro d hd
          rw [List.mem_erase_of_ne hd]
          exact id
    · intro q
      cases q with
      | thread t => simp [Notified, goto]
      | coro d =>
        refine forall_coro (R := fun d (x : MutexPc) => s.Notified (.coro d) →
          (x.queued ∧ d ∈ s.resumeQueue.erase c) ∨ x = .relock true) ?_ ?_ d
        · exact fun _ => .inr rfl
        · intro d hd
          rw [List.mem_erase_of_ne hd]
          exact id

/-- A thread leaves `cv_.wait`. -/
theorem unblock {t : Nat} {notified : Bool} (h : MutexInv s) (ht : t ∈ s.cv) :
    MutexInv (s.unblock t notified) := by
  have hpc := (h.blocked t).mpr ht
  refine ⟨h.mtx.move hpc (.stay rfl), h.lock_move hpc (.stay rfl), h.count.move hpc (.stay rfl),
    ?_, h.nodup, ?_, h.goesWaiting_move hpc (.stay rfl) nofun, ?_, h.entries, ?_⟩
  · intro c
    simpa [Mutex.unblock, goto, queue] using h.queued c
  · refine forall_thread (R := fun u (x : MutexPc) => x = .blocked ↔ u ∈ s.cv.filter (· ≠ t)) ?_ ?_
    · simp
    · intro u hu
      simpa [hu] using h.blocked u
  · exact h.empty_move nofun
  · refine h.wake.mono rfl (attends_move hpc rfl) ?_ ?_
    · intro q
      cases q with
      | coro c => simp [Unnotified, Mutex.unblock, goto]
      | thread u =>
        refine forall_thread (R := fun u (x : MutexPc) => x = .blocked →
          s.pc (.thread u) = .blocked) ?_ (fun _ _ hu => hu) u
        exact fun hblocked => nomatch hblocked
    · intro q
      cases q with
      | coro c => simp [Notified, Mutex.unblock, goto]
      | thread u =>
        refine forall_thread (R := fun u (x : MutexPc) => s.pc (.thread u) = .relock true →
          x = .relock true) ?_ (fun _ _ hu => hu) u
        simp [hpc]

/-! ### `unlock` -/

/-- A coroutine is notified. -/
theorem notify {c : Coro} {ws : List CoroutineWaiter} (h : MutexInv s) (hpc : s.pc p = .notify)
    (hws : s.coCv.waiters = waiter c :: ws) :
    MutexInv { s.goto p .done with
      coCv := ⟨ws⟩, resumeQueue := s.resumeQueue ++ [c] } := by
  have hqueue : s.queue = c :: ws.filterMap (·.wakeup) := by
    simp [queue, hws, waiter, CoroutineWaiter.wakeup]
  have hqueued : (s.pc (.coro c)).queued := (h.queued c).mpr (.inl (by simp [hqueue]))
  have hqueued' : ∀ q, (Function.update s.pc p .done q).queued ↔ (s.pc q).queued :=
    forall_update (R := fun q (x : MutexPc) => x.queued ↔ (s.pc q).queued)
      (by rw [hpc]; exact Iff.rfl) fun _ _ => Iff.rfl
  refine ⟨h.mtx.move hpc (.stay rfl), h.lock_move hpc (.stay rfl), h.count.move hpc (.stay rfl),
    ?_, ?_, ?_, h.goesWaiting_move hpc (.stay rfl) nofun, ?_, ?_, ?_⟩
  · intro d
    refine (hqueued' (.coro d)).trans ?_
    rw [h.queued d, hqueue]
    simp only [queue, List.mem_cons, List.mem_append, List.not_mem_nil, or_false]
    tauto
  · have hnd := h.nodup
    rw [hqueue] at hnd
    have hperm : (ws.filterMap (·.wakeup) ++ (s.resumeQueue ++ [c])).Perm
        (c :: ws.filterMap (·.wakeup) ++ s.resumeQueue) := by
      rw [← List.append_assoc]
      exact List.perm_append_singleton ..
    exact hperm.nodup_iff.mpr hnd
  · intro t
    exact (forall_update (R := fun q (x : MutexPc) => x = .blocked ↔ s.pc q = .blocked)
      (by simp [hpc]) (fun _ _ => Iff.rfl) (.thread t)).trans (h.blocked t)
  · refine forall_update (R := fun _ (x : MutexPc) => x = .notifyThread → _) nofun ?_
    intro q _ hnotify
    have hempty := h.empty q hnotify
    simp [hqueue] at hempty
  · exact fun w hw => h.entries w (hws ▸ List.mem_cons_of_mem _ hw)
  · exact fun _ => .inr (.inr ⟨.coro c, .inl ⟨(hqueued' (.coro c)).mpr hqueued, by simp⟩⟩)

/-- A thread is notified. -/
theorem notifyThread {t : Nat} (h : MutexInv s) (hpc : s.pc p = .notifyThread) (ht : t ∈ s.cv) :
    MutexInv ((s.unblock t true).goto p .done) := by
  have hne : p ≠ .thread t := by
    rintro rfl
    have hblocked := (h.blocked t).mpr ht
    rw [hpc] at hblocked
    cases hblocked
  have hpc' : (s.unblock t true).pc p = .notifyThread :=
    (Function.update_of_ne hne ..).trans hpc
  refine (h.unblock ht).move hpc' (.stay rfl) (.stay rfl) (.stay rfl) rfl nofun nofun nofun nofun ?_
  refine fun _ => .inr (.inr ⟨.thread t, ?_⟩)
  exact (Function.update_of_ne hne.symm ..).trans (Function.update_self ..)

theorem unnotified_goto {m : Option Party} (hpc : s.pc p = a) (hqueued : b.queued = a.queued)
    (hb : b ≠ .blocked) (q : Party) (hq : ({ s.goto p b with mtx := m } : Mutex).Unnotified q) :
    s.Unnotified q := by
  cases q with
  | thread t =>
    exact forall_update (R := fun q (x : MutexPc) => x = .blocked → s.pc q = .blocked)
      (absurd · hb) (fun _ _ => id) (.thread t) hq
  | coro c =>
    refine hq.imp_left ?_
    exact forall_update (R := fun q (x : MutexPc) => x.queued → (s.pc q).queued)
      (by rw [hqueued, hpc]; exact id) (fun _ _ => id) (.coro c)

/-- A step of a party that does not attend to the flag and was not notified. -/
theorem wake_goto {m : Option Party} (h : MutexInv s) (hpc : s.pc p = a)
    (hqueued : b.queued = a.queued) (hb : b ≠ .blocked) (ha : a.attends = false)
    (hno : a ≠ .relock true) : ({ s.goto p b with mtx := m } : Mutex).Wake := by
  refine h.wake.mono rfl (attends_move hpc ha) (unnotified_goto hpc hqueued hb) ?_
  have hrelock : ∀ q, s.pc q = .relock true → (s.goto p b).pc q = .relock true :=
    forall_update (R := fun q (x : MutexPc) => s.pc q = .relock true → x = .relock true)
      (by simp [hpc, hno]) fun _ _ => id
  intro q hq
  cases q with
  | thread t => exact hrelock (.thread t) hq
  | coro c =>
    refine hq.imp (And.imp_left ?_) (hrelock (.coro c))
    exact forall_update (R := fun q (x : MutexPc) => (s.pc q).queued → x.queued)
      (by rw [hqueued, hpc]; exact id) (fun _ _ => id) (.coro c)

/-- When both queues are empty, nobody waits un-notified. -/
theorem nobody_waits (h : MutexInv s) (hqueue : s.queue = []) (hcv : s.cv = []) (q : Party) :
    ¬ s.Unnotified q := by
  cases q with
  | thread t =>
    intro hblocked
    have ht := (h.blocked t).mp hblocked
    simp [hcv] at ht
  | coro c =>
    rintro ⟨hqueued, hres⟩
    have hc := (h.queued c).mp hqueued
    simp [hqueue, hres] at hc

/-- Nobody waits when the counter is zero. -/
theorem nobody_counted (h : MutexInv s) (hn : ¬ s.waitings > 0) (q : Party) :
    ¬ s.Unnotified q := by
  have hout := h.count.none_inside (Int.not_lt.mp hn) q
  cases q with
  | thread t =>
    intro hblocked
    rw [show s.pc (.thread t) = .blocked from hblocked] at hout
    cases hout
  | coro c =>
    rintro ⟨hqueued, -⟩
    cases hpc : s.pc (.coro c) <;> simp_all [MutexPc.queued, MutexPc.inLoop]

theorem init : MutexInv .init := by
  refine ⟨?_, ⟨none, rfl, ?_⟩, ⟨?_, ?_⟩, ?_, ?_, ?_, ?_, ?_, ?_, ?_⟩ <;>
    simp [Mutex.init, Owned, MutexPc.inside, MutexPc.owner, MutexPc.inLoop, MutexPc.queued,
      MutexPc.goesWaiting, queue]
  exact fun _ => .inr (.inl fun p => by cases p <;> simp [Unnotified, MutexPc.queued])

theorem stepParty {t : Mutex} (h : MutexInv s) (hs : s.stepParty p = some t) : MutexInv t := by
  unfold Mutex.stepParty at hs
  cases hpc : s.pc p with
  | idle =>
    simp only [hpc, Option.ite_none_right_eq_some, Option.some.injEq] at hs
    obtain ⟨hm, rfl⟩ := hs
    exact h.move hpc (.enter hm rfl) (.stay rfl) (.stay rfl) rfl nofun nofun nofun nofun
      (.of_goto rfl rfl)
  | test =>
    cases hl : s.isLock with
    | true =>
      simp only [hpc, hl, ↓reduceIte, Option.some.injEq] at hs
      subst hs
      exact h.move hpc (.stay rfl) (.stay rfl) (.enter rfl rfl) rfl nofun nofun (fun _ => hl) nofun
        (.of_locked hl)
    | false =>
      simp only [hpc, hl, Bool.false_eq_true, ↓reduceIte, Option.some.injEq] at hs
      subst hs
      exact h.move hpc (.stay rfl) (hl ▸ .take rfl) (.stay rfl) rfl nofun nofun nofun nofun
        (.of_locked rfl)
  | wait =>
    simp only [hpc, Option.some.injEq] at hs
    subst hs
    cases p with
    | thread t => exact h.waitThread hpc
    | coro c => exact h.waitCoro hpc
  | release =>
    simp only [hpc, Option.some.injEq] at hs
    subst hs
    exact h.move hpc (.leave rfl rfl) (.stay rfl) (.stay rfl) rfl nofun nofun nofun nofun
      (.of_locked (h.goesWaiting p (by rw [hpc]; rfl)))
  | suspend =>
    simp only [hpc, Option.some.injEq] at hs
    subst hs
    exact h.move hpc (.stay rfl) (.stay rfl) (.stay rfl) rfl nofun nofun nofun nofun
      (h.wake_goto hpc rfl nofun rfl nofun)
  | suspended =>
    cases p with
    | thread t => simp [hpc] at hs
    | coro c =>
      simp only [hpc, Option.ite_none_right_eq_some, Option.some.injEq] at hs
      obtain ⟨hc, rfl⟩ := hs
      exact h.resume hpc hc
  | blocked => simp [hpc] at hs
  | relock notified =>
    simp only [hpc, Option.ite_none_right_eq_some, Option.some.injEq] at hs
    obtain ⟨hm, rfl⟩ := hs
    exact h.move hpc (.enter hm rfl) (.stay rfl) (.stay rfl) rfl nofun nofun nofun nofun
      (.of_goto rfl rfl)
  | wake =>
    simp only [hpc, Option.some.injEq] at hs
    subst hs
    exact h.move hpc (.stay rfl) (.stay rfl) (.leave rfl rfl) rfl nofun nofun nofun nofun
      (.of_goto rfl rfl)
  | leave =>
    simp only [hpc, Option.some.injEq] at hs
    subst hs
    exact h.move hpc (.leave rfl rfl) (.stay rfl) (.stay rfl) rfl nofun nofun nofun nofun
      (.of_locked (h.locked hpc rfl))
  | holding =>
    simp only [hpc, Option.ite_none_right_eq_some, Option.some.injEq] at hs
    obtain ⟨hm, rfl⟩ := hs
    exact h.move hpc (.enter hm rfl) (.stay rfl) (.stay rfl) rfl nofun nofun nofun nofun
      (.of_locked (h.locked hpc rfl))
  | clear =>
    simp only [hpc, Option.some.injEq] at hs
    subst hs
    exact h.move hpc (.stay rfl) (.free rfl rfl rfl) (.stay rfl) rfl nofun nofun nofun nofun
      (.of_goto rfl rfl)
  | check =>
    simp only [hpc, Option.some.injEq] at hs
    subst hs
    by_cases hn : s.waitings > 0
    · simp only [hn, ↓reduceIte]
      exact h.move hpc (.stay rfl) (.stay rfl) (.stay rfl) rfl nofun nofun nofun nofun
        (.of_goto rfl rfl)
    · simp only [hn, ↓reduceIte]
      refine h.move hpc (.stay rfl) (.stay rfl) (.stay rfl) rfl nofun nofun nofun nofun ?_
      exact fun _ => .inr (.inl fun q hq =>
        h.nobody_counted hn q (unnotified_goto (b := .done) hpc rfl nofun q hq))
  | notify =>
    -- nobody cancels a waiter of the mutex, so the first in the queue is the one notified
    simp only [hpc, ConditionVariable.notifyOne, CoConditionVariable.notifyOne,
      notifyNolock_one (not_canceled h.entries), Option.some.injEq] at hs
    cases hws : s.coCv.waiters with
    | nil =>
      have hcv : s.coCv = ⟨[]⟩ := congrArg CoConditionVariable.mk hws
      have hs' : s.goto p .notifyThread = t := by
        rw [← hs]
        simp [goto, NotifyResult.resumed, hcv]
      subst hs'
      exact h.move hpc (.stay rfl) (.stay rfl) (.stay rfl) rfl nofun nofun nofun
        (fun _ => by simp [queue, hws]) (.of_goto rfl rfl)
    | cons w ws =>
      obtain ⟨c, rfl⟩ := h.entries w (hws ▸ List.mem_cons_self)
      have hs' : { s.goto p .done with
          coCv := ⟨ws⟩, resumeQueue := s.resumeQueue ++ [c] } = t := by
        rw [← hs]
        simp [hws, NotifyResult.resumed, waiter, CoroutineWaiter.wakeup]
      subst hs'
      exact h.notify hpc hws
  | notifyThread =>
    simp only [hpc, Option.ite_none_right_eq_some, Option.some.injEq] at hs
    obtain ⟨hcv, rfl⟩ := hs
    refine h.move hpc (.stay rfl) (.stay rfl) (.stay rfl) rfl nofun nofun nofun nofun ?_
    exact fun _ => .inr (.inl fun q hq =>
      h.nobody_waits (h.empty p hpc) hcv q (unnotified_goto (b := .done) hpc rfl nofun q hq))
  | done =>
    simp only [hpc, Option.some.injEq] at hs
    subst hs
    exact h.move hpc (.leave rfl rfl) (.stay rfl) (.stay rfl) rfl nofun nofun nofun nofun
      (h.wake_goto hpc rfl nofun rfl nofun)

end MutexInv

/-! ## Every interleaving -/

theorem MutexInv.step {s t : Mutex} {a : MutexAction} (h : MutexInv s)
    (hs : s.step a = some t) : MutexInv t := by
  cases a with
  | step p => exact h.stepParty hs
  | notifyThread p t =>
    simp only [Mutex.step, Option.ite_none_right_eq_some, Option.some.injEq] at hs
    obtain ⟨⟨hpc, ht⟩, rfl⟩ := hs
    exact h.notifyThread hpc ht
  | spurious t =>
    simp only [Mutex.step, Option.ite_none_right_eq_some, Option.some.injEq] at hs
    obtain ⟨ht, rfl⟩ := hs
    exact h.unblock ht

/-- Who waits un-notified is not notified. -/
theorem Mutex.Unnotified.not_notified {s : Mutex} {p : Party} (h : s.Unnotified p) :
    ¬ s.Notified p := by
  cases p with
  | thread t =>
    intro hno
    have heq : MutexPc.blocked = .relock true := h.symm.trans hno
    cases heq
  | coro c =>
    rintro (⟨-, hres⟩ | hrelock)
    · exact h.2 hres
    · have hqueued := h.1
      rw [hrelock] at hqueued
      cases hqueued

/-- Every reachable state of the mutex, under every interleaving of the atomic steps of any number
of threads and coroutines and of spurious wake-ups, meets the contract. -/
theorem mutex_law (s : Mutex) (h : mutex.Reachable s) : MutexLaw s := by
  have hinv : MutexInv s := h.invariant .init fun _ _ _ hinv _ hs => hinv.step hs
  refine ⟨?_, hinv.count.card, hinv.count.finite, ?_⟩
  · obtain ⟨o, -, howned⟩ := hinv.lock
    exact fun p q hp hq => howned.unique rfl rfl hp hq
  · intro hfree hmtx p hp
    rcases hinv.wake hfree with ⟨q, hq⟩ | hnone | ⟨q, hq⟩
    · -- whoever attends to the flag is inside
      have hin : (s.pc q).inside = true := by
        cases hpc : s.pc q <;> simp_all [MutexPc.attends, MutexPc.inside]
      have hown := (hinv.mtx q).mp hin
      rw [hmtx] at hown
      cases hown
    · exact absurd hp (hnone p)
    · refine ⟨q, ?_, hq⟩
      rintro rfl
      exact hp.not_notified hq

/-- A thread and a coroutine wait for a thread, which unlocks and notifies the coroutine; `mtx_` is
free again before the coroutine runs. -/
theorem mutex_law_notified_coroutine :
    let t := MutexAction.step (.thread 0)
    let u := MutexAction.step (.thread 1)
    let c := MutexAction.step (.coro ⟨0, 0⟩)
    ∃ s, mutex.run .init [t, t, t, u, u, u, c, c, c, c, c, t, t, t, t, t] = some s ∧
      MutexLaw s ∧ s.isLock = false ∧ s.mtx = none ∧ s.Unnotified (.thread 1) ∧
      s.waitings = 2 ∧ s.Notified (.coro ⟨0, 0⟩) :=
  have hrun : mutex.run .init [.step (.thread 0), .step (.thread 0), .step (.thread 0),
      .step (.thread 1), .step (.thread 1), .step (.thread 1), .step (.coro ⟨0, 0⟩),
      .step (.coro ⟨0, 0⟩), .step (.coro ⟨0, 0⟩), .step (.coro ⟨0, 0⟩), .step (.coro ⟨0, 0⟩),
      .step (.thread 0), .step (.thread 0), .step (.thread 0), .step (.thread 0),
      .step (.thread 0)] = some _ := rfl
  ⟨_, hrun, mutex_law _ (System.reachable_of_run hrun), rfl, rfl, rfl, rfl,
    .inl ⟨rfl, List.mem_singleton.mpr rfl⟩⟩

end Sheep
