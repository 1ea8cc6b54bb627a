import Sheep.Coroutine.CoMutex
import Sheep.Coroutine.CondVarRun

/-!
# Waits of a plain thread

A thread without a scheduler that calls `CoMutex::lock` while the mutex is taken, or
`CoConditionVariable::wait`, gets an exception. `CoroutineWaiter::wait` throws it, which comes after
the waiter was queued and the lock released. What is left behind has no coroutine: `wakeup` of it
does nothing, and the notification that takes it counts it all the same.

`LockLaw` and `WaitLaw` say what is expected of a call that throws, and of the unlocks and
notifications that follow. `throwLaw_iff`: they hold in a run of the mutex exactly if no thread
comes to `waiters_.push`, which is to say that no call throws; and in a run of the condition
variable exactly if no thread calls `wait`.
-/

namespace Sheep

/-- The object that a call by a plain thread builds. `currentCoro()` is null as well. -/
def threadWaiter (call : Nat) : CoroutineWaiter := ⟨none, 0, false, call⟩

/-! ## The mutex -/

/-- The next atomic step of `c`, where the parties that are a `thread` have no scheduler. -/
def CoMutex.stepParty (thread : Coro → Bool) (s : CoMutex) (c : Coro) : Option CoMutex :=
  if thread c then
    match s.pc c with
    | .push => some { s.goto c .release with
        waiters := s.waiters ++ [threadWaiter s.pushed.length] }
    | .release =>
      match (threadWaiter s.pushed.length).wait (-1) with
      | .error _ => some { s.goto c .idle with mtx := none }
      | .ok _ => some { s.goto c .suspend with mtx := none }
    | _ => s.step c
  else s.step c

/-- Coroutines and threads on one mutex. -/
def coMutexParties (thread : Coro → Bool) : System CoMutex Coro :=
  ⟨.init, CoMutex.stepParty thread⟩

/-- What is expected of the step of `c`, and of the state before it. -/
structure LockLaw (thread : Coro → Bool) (s : CoMutex) (c : Coro) : Prop where
  /-- a call that throws changes neither the queue nor the flag -/
  unchanged : thread c = true → s.pc c = .push ∨ s.pc c = .release →
    ∀ t, s.stepParty thread c = some t → t.waiters = s.waiters ∧ t.isLock = s.isLock
  /-- if no coroutine waits, `unlock` goes on to clear the flag -/
  freed : s.pc c = .notify → (∀ d, thread d = false → (s.pc d).queued = false) →
    ∀ t, s.stepParty thread c = some t → t.pc c = .clear
  /-- the flag is set only while somebody has the mutex -/
  held : s.isLock = true → ∃ d, s.Holds d

/-- The condition on a step: a thread whose second try has failed does not go on. -/
def NotQueued (thread : Coro → Bool) (s : CoMutex) (c : Coro) : Prop :=
  thread c = true → s.pc c ≠ .push

instance NotQueued.decidable (thread : Coro → Bool) (s : CoMutex) (c : Coro) :
    Decidable (NotQueued thread s c) := inferInstanceAs (Decidable (_ → _))

/-- Who has queued after a step had before, or does so now. -/
theorem CoMutex.Effect.queued {s t : CoMutex} {c d : Coro} (h : s.Effect c t)
    (hd : (t.pc d).queued = true) : (s.pc d).queued = true ∨ (d = c ∧ s.pc c = .push) := by
  have hgoto : ∀ q : LockPc, (((s.goto c q).pc d).queued = true → q.queued = true → d = c →
      (s.pc c).queued = true ∨ s.pc c = .push) → ((s.goto c q).pc d).queued = true →
        (s.pc d).queued = true ∨ (d = c ∧ s.pc c = .push) := by
    intro q hq hd
    rcases eq_or_ne d c with rfl | hdc
    · have hat : (s.goto d q).pc d = q := Function.update_self ..
      exact (hq hd (hat ▸ hd) rfl).imp_right fun h => ⟨rfl, h⟩
    · have hat : (s.goto c q).pc d = s.pc d := Function.update_of_ne hdc ..
      exact .inl (hat ▸ hd)
  cases h with
  | move hpc hqueued => exact hgoto _ (fun _ hq _ => .inl (by rw [hpc, ← hqueued, hq])) hd
  | take _ _ _ hq => exact hgoto _ (fun _ hq' _ => by rw [hq] at hq'; cases hq') hd
  | push hpc => exact hgoto _ (fun _ _ _ => .inr hpc) hd
  | resume => exact hgoto _ (fun _ hq _ => by cases hq) hd
  | handOff => exact hgoto _ (fun _ hq _ => by cases hq) hd
  | free => exact hgoto _ (fun _ hq _ => by cases hq) hd

/-- As long as no thread has queued, the parties take the steps of coroutines. -/
structure NoneQueued (thread : Coro → Bool) (s : CoMutex) : Prop where
  reachable : coMutex.Reachable s
  queued : ∀ c, thread c = true → (s.pc c).queued = false

namespace NoneQueued

variable {thread : Coro → Bool} {s t : CoMutex} {c : Coro}

theorem init (thread : Coro → Bool) : NoneQueued thread (coMutexParties thread).init :=
  ⟨.init, fun _ _ => rfl⟩

/-- A thread differs from a coroutine in two places only. -/
theorem stepParty_eq (h : NoneQueued thread s) (hc : NotQueued thread s c) :
    s.stepParty thread c = s.step c := by
  unfold CoMutex.stepParty
  split
  next hthread =>
    split
    next hpc => exact absurd hpc (hc hthread)
    next hpc =>
      have hqueued := h.queued c hthread
      rw [hpc] at hqueued
      cases hqueued
    next => rfl
  next => rfl

theorem step (h : NoneQueued thread s) (hc : NotQueued thread s c)
    (hs : s.stepParty thread c = some t) : NoneQueued thread t := by
  rw [h.stepParty_eq hc] at hs
  refine ⟨h.reachable.step True.intro hs, fun d hd => Bool.eq_false_iff.mpr fun hqueued => ?_⟩
  have heffect := CoMutex.step_effect (CoMutexInv.reachable h.reachable) hs
  rcases heffect.queued hqueued with hold | ⟨rfl, hpush⟩
  · rw [h.queued d hd] at hold
    cases hold
  · exact hc hd hpush

/-- A step meets the law exactly if it queues no thread. -/
theorem law_iff (h : NoneQueued thread s) (c : Coro) :
    LockLaw thread s c ↔ NotQueued thread s c := by
  have hinv := CoMutexInv.reachable h.reachable
  constructor
  · intro hlaw hthread hpush
    have hstep : s.stepParty thread c = some { s.goto c .release with
        waiters := s.waiters ++ [threadWaiter s.pushed.length] } := by
      unfold CoMutex.stepParty
      rw [if_pos hthread, hpush]
    have hsame := (hlaw.unchanged hthread (.inl hpush) _ hstep).1
    exact absurd hsame (by simp)
  · intro hc
    refine ⟨fun hthread hpc t _ => ?_, fun hpc hnone t hs => ?_, fun hlock => ?_⟩
    · rcases hpc with hpc | hpc
      · exact absurd hpc (hc hthread)
      · have hqueued := h.queued c hthread
        rw [hpc] at hqueued
        cases hqueued
    · -- nobody waits, so the queue is empty
      have hqueue : ∀ d, d ∉ s.queue := by
        intro d hd
        have hqueued : (s.pc d).queued = true := (hinv.queued d).mpr (.inl hd)
        cases hthread : thread d with
        | true =>
          rw [h.queued d hthread] at hqueued
          cases hqueued
        | false =>
          rw [hnone d hthread] at hqueued
          cases hqueued
      have hwaiters : s.waiters = [] := by
        refine List.eq_nil_iff_forall_not_mem.mpr fun w hw => ?_
        obtain ⟨d, n, rfl⟩ := hinv.entries w hw
        exact hqueue d (List.mem_filterMap.mpr ⟨_, hw, rfl⟩)
      rw [h.stepParty_eq hc] at hs
      simp only [CoMutex.step, hpc, hwaiters, CoMutex.notifyNolock, Sheep.notifyNolock,
        Option.some.injEq] at hs
      rw [← hs]
      exact Function.update_self ..
    · obtain ⟨o, ho, hown⟩ := hinv.owner
      obtain ⟨d, rfl⟩ := Option.isSome_iff_exists.mp (ho.symm.trans hlock)
      exact ⟨d, (hown d).mpr rfl⟩

end NoneQueued

/-! ## The condition variable -/

namespace CoConditionVariable

/-- `wait` by a plain thread: the queue, whether the caller's `unique_lock` is locked, and what is
thrown. -/
def waitFromThread (cv : CoConditionVariable) (call : Nat) (milliseconds : Int) :
    CoConditionVariable × Bool × Except String Blocking :=
  let r := cv.wait (threadWaiter call) milliseconds
  -- after `lock.unlock()`
  (r.1, false, r.2)

end CoConditionVariable

inductive CvCall
  /-- what coroutines do, and notifications -/
  | coro (a : CvAction)
  | threadWait (milliseconds : Int)
  deriving DecidableEq, Repr

/-- A step of `cv`, or a call of `wait` by a plain thread. -/
def CvRun.stepCall (s : CvRun) : CvCall → Option CvRun
  | .coro a => s.step a
  | .threadWait milliseconds =>
    match s.coCv.waitFromThread s.calls milliseconds with
    | (coCv, _, .error _) => some { s with coCv := coCv, calls := s.calls + 1 }
    | (_, _, .ok _) => none

def cvCalls : System CvRun CvCall := ⟨.init, CvRun.stepCall⟩

/-- What is expected of a call, and of the state before it. -/
structure WaitLaw (s : CvRun) (a : CvCall) : Prop where
  /-- a call that throws changes neither the queue nor the caller's lock -/
  unchanged : ∀ milliseconds, a = .threadWait milliseconds →
    (s.coCv.waitFromThread s.calls milliseconds).1 = s.coCv ∧
      (s.coCv.waitFromThread s.calls milliseconds).2.1 = true
  /-- if a coroutine waits, `notify_one` resumes one -/
  resumes : s.openWaits ≠ [] → ∃ c, s.coCv.notifyOne.resumed = [c]

/-- The condition on a step: it is no call of `wait` by a thread. -/
def NotFromThread (_ : CvRun) : CvCall → Prop
  | .coro _ => True
  | .threadWait _ => False

instance NotFromThread.decidable (s : CvRun) : ∀ a, Decidable (NotFromThread s a)
  | .coro _ => isTrue True.intro
  | .threadWait _ => isFalse id

/-- Every entry of the queue is one of a coroutine, and every open wait call has its own. -/
structure CvEntries (s : CvRun) : Prop where
  entries : ∀ w ∈ s.coCv.waiters, w.isCanceled = false ∧ ∃ c, w.wakeup = some c
  opens : ∀ w ∈ s.openWaits, w.waiter ∈ s.coCv.waiters

namespace CvEntries

variable {s t : CvRun}

theorem init : CvEntries .init := ⟨nofun, nofun⟩

/-- A step that leaves the queue alone, and opens no wait call. -/
theorem keep (h : CvEntries s) (hcv : t.coCv = s.coCv)
    (hopen : ∀ w ∈ t.openWaits, ∃ v ∈ s.openWaits, w.waiter = v.waiter) : CvEntries t := by
  refine ⟨hcv ▸ h.entries, fun w hw => ?_⟩
  obtain ⟨v, hv, heq⟩ := hopen w hw
  rw [hcv, heq]
  exact h.opens v hv

theorem wait (h : CvEntries s) {c : Coro} {milliseconds : Int}
    (hs : s.step (.wait c milliseconds) = some t) : CvEntries t := by
  simp only [CvRun.step, CoConditionVariable.wait, CoroutineWaiter.wait] at hs
  split at hs
  next => cases hs
  next =>
    obtain rfl := Option.some.inj hs
    refine ⟨fun w hw => ?_, fun w hw => ?_⟩
    · rcases List.mem_append.mp hw with hw | hw
      · exact h.entries w hw
      · rw [List.mem_singleton.mp hw]
        exact ⟨rfl, c, rfl⟩
    · simp only [CvRun.openWaits, List.filter_append] at hw
      rcases List.mem_append.mp hw with hw | hw
      · exact List.mem_append_left _ (h.opens w hw)
      · rw [List.mem_singleton.mp (List.mem_of_mem_filter hw)]
        exact List.mem_append_right _ List.mem_cons_self

/-- A notification that takes the first `k` entries. -/
theorem notify (h : CvEntries s) (k n : Nat) :
    CvEntries (s.notify ⟨s.coCv.waiters.take k, s.coCv.waiters.drop k, n⟩) := by
  refine ⟨fun w hw => h.entries w (List.mem_of_mem_drop hw), fun w hw => ?_⟩
  rw [openWaits_notify] at hw
  obtain ⟨hw, hnot⟩ := List.mem_filter.mp hw
  have hmem := h.opens w hw
  rw [← List.take_append_drop k s.coCv.waiters] at hmem
  refine (List.mem_append.mp hmem).resolve_left fun htaken => ?_
  have htakes : NotifyResult.takes ⟨s.coCv.waiters.take k, s.coCv.waiters.drop k, n⟩
      w.waiter.call = true := List.any_eq_true.mpr ⟨w.waiter, htaken, decide_eq_true rfl⟩
  rw [htakes] at hnot
  cases hnot

theorem step (h : CvEntries s) {a : CvAction} (hs : s.step a = some t) : CvEntries t := by
  have hlive : ∀ w ∈ s.coCv.waiters, w.isCanceled = false := fun w hw => (h.entries w hw).1
  cases a with
  | wait c milliseconds => exact h.wait hs
  | expire c =>
    simp only [CvRun.step, Option.ite_none_right_eq_some, Option.some.injEq] at hs
    obtain ⟨-, rfl⟩ := hs
    exact h.keep rfl fun w hw => ⟨w, hw, rfl⟩
  | switchTo c =>
    simp only [CvRun.step, Option.ite_none_right_eq_some, Option.some.injEq] at hs
    obtain ⟨-, rfl⟩ := hs
    refine h.keep rfl fun w hw => ?_
    obtain ⟨hw, hopen⟩ := List.mem_filter.mp hw
    obtain ⟨v, hv, rfl⟩ := List.mem_map.mp hw
    refine ⟨v, List.mem_filter.mpr ⟨hv, ?_⟩, ?_⟩
    · split at hopen <;> exact hopen
    · split <;> rfl
  | relock call =>
    simp only [CvRun.step] at hs
    split at hs
    next => cases hs
    next =>
      obtain rfl := Option.some.inj hs
      refine h.keep rfl fun w hw => ⟨w, ?_, rfl⟩
      obtain ⟨hw, hopen⟩ := List.mem_filter.mp hw
      exact List.mem_filter.mpr ⟨List.mem_of_mem_filter hw, hopen⟩
  | notifyOne =>
    obtain rfl := Option.some.inj hs
    have hone : (ConditionVariable.notifyOne s.coCv).1 = _ := notifyNolock_one hlive
    rw [hone]
    exact h.notify 1 _
  | notifyAll =>
    obtain rfl := Option.some.inj hs
    have hall : s.coCv.notifyAll = ⟨s.coCv.waiters.take s.coCv.waiters.length,
        s.coCv.waiters.drop s.coCv.waiters.length, s.coCv.waiters.length⟩ := by
      rw [List.take_length, List.drop_length]
      exact notifyNolock_all hlive
    rw [hall]
    exact h.notify _ _

/-- The first entry is one of a coroutine. -/
theorem resumes (h : CvEntries s) (hopen : s.openWaits ≠ []) :
    ∃ c, s.coCv.notifyOne.resumed = [c] := by
  obtain ⟨v, vs, hvs⟩ := List.exists_cons_of_ne_nil hopen
  have hmem := h.opens v (hvs ▸ List.mem_cons_self)
  obtain ⟨w, ws, hws⟩ := List.exists_cons_of_ne_nil (List.ne_nil_of_mem hmem)
  obtain ⟨hlive, c, hc⟩ := h.entries w (hws ▸ List.mem_cons_self)
  refine ⟨c, ?_⟩
  simp [CoConditionVariable.notifyOne, hws, notifyNolock, hlive, NotifyResult.resumed, hc]

theorem law_iff (h : CvEntries s) (a : CvCall) : WaitLaw s a ↔ NotFromThread s a := by
  cases a with
  | coro a => exact iff_of_true ⟨nofun, h.resumes⟩ True.intro
  | threadWait milliseconds =>
    refine iff_of_false (fun hlaw => ?_) id
    cases (hlaw.unchanged milliseconds rfl).2

end CvEntries

/-! ## Every run -/

/-- In every run of coroutines and plain threads on a mutex, each step meets the law exactly if no
thread queues itself; in every run on a condition variable exactly if no thread calls `wait`. -/
theorem throwLaw_iff (thread : Coro → Bool) (as : List Coro) (calls : List CvCall) :
    ((coMutexParties thread).AllSteps (LockLaw thread) (coMutexParties thread).init as ↔
      (coMutexParties thread).AllSteps (NotQueued thread) (coMutexParties thread).init as) ∧
    (cvCalls.AllSteps WaitLaw cvCalls.init calls ↔
      cvCalls.AllSteps NotFromThread cvCalls.init calls) := by
  constructor
  · exact System.allSteps_iff (P := NoneQueued thread) (.init thread)
      (fun _ _ _ h hc hs => h.step hc hs) fun _ c h => h.law_iff c
  · refine System.allSteps_iff (P := CvEntries) .init (fun s a t h ha hs => ?_) fun _ a h =>
      h.law_iff a
    cases a with
    | coro a => exact h.step hs
    | threadWait milliseconds => exact ha.elim

/-- `throwLaw_iff` on a mutex that a thread takes while it is free, and a coroutine queues; and on
a condition variable with a coroutine only. -/
theorem throwLaw_thread_locks :
    (coMutexParties fun c => c = ⟨1, 0⟩).AllSteps (LockLaw fun c => c = ⟨1, 0⟩) .init
        [⟨1, 0⟩, ⟨0, 0⟩, ⟨0, 0⟩, ⟨0, 0⟩, ⟨0, 0⟩, ⟨0, 0⟩, ⟨1, 0⟩, ⟨1, 0⟩, ⟨1, 0⟩] ∧
      cvCalls.AllSteps WaitLaw cvCalls.init [.coro (.wait ⟨0, 0⟩ (-1)), .coro .notifyOne] :=
  have h := throwLaw_iff (fun c => c = ⟨1, 0⟩)
    [⟨1, 0⟩, ⟨0, 0⟩, ⟨0, 0⟩, ⟨0, 0⟩, ⟨0, 0⟩, ⟨0, 0⟩, ⟨1, 0⟩, ⟨1, 0⟩, ⟨1, 0⟩]
    [.coro (.wait ⟨0, 0⟩ (-1)), .coro .notifyOne]
  ⟨h.1.mpr (by decide +kernel), h.2.mpr (by decide +kernel)⟩

/-- A coroutine holds the mutex while a thread calls `lock`: after `unlock` the flag is still set,
and nobody has the mutex. A thread calls `wait`, and then a coroutine: `notify_one` resumes
nobody. -/
theorem thrown_waiter_stays :
    ¬ (coMutexParties fun c => c = ⟨1, 0⟩).AllSteps (LockLaw fun c => c = ⟨1, 0⟩) .init
        [⟨0, 0⟩, ⟨1, 0⟩, ⟨1, 0⟩, ⟨1, 0⟩, ⟨1, 0⟩] ∧
    (∃ s, (coMutexParties fun c => c = ⟨1, 0⟩).run .init
        [⟨0, 0⟩, ⟨1, 0⟩, ⟨1, 0⟩, ⟨1, 0⟩, ⟨1, 0⟩, ⟨1, 0⟩, ⟨0, 0⟩, ⟨0, 0⟩, ⟨0, 0⟩, ⟨0, 0⟩] = some s ∧
      s.isLock = true ∧ s.waiters = [] ∧ s.resumeQueue = [] ∧ s.pc ⟨0, 0⟩ = .idle ∧
      s.pc ⟨1, 0⟩ = .idle) ∧
    ¬ cvCalls.AllSteps WaitLaw cvCalls.init [.threadWait (-1)] ∧
    (∃ s, cvCalls.run cvCalls.init [.threadWait (-1), .coro (.wait ⟨0, 0⟩ (-1))] = some s ∧
      s.openWaits.map (·.coro) = [⟨0, 0⟩] ∧ s.coCv.notifyOne.resumed = [] ∧
      s.coCv.notifyOne.notifyCount = 1) := by
  refine ⟨fun h => ?_, ⟨_, rfl, rfl, rfl, rfl, rfl, rfl⟩, fun h => ?_,
    ⟨_, rfl, by decide, by decide, by decide⟩⟩
  · have hlaw := ((((h.2 _ rfl).2 _ rfl).2 _ rfl).2 _ rfl).1
    have hsame := (hlaw.unchanged rfl (.inl rfl) _ rfl).1
    exact absurd (congrArg List.length hsame) (by decide)
  · cases (h.1.unchanged (-1) rfl).2

end Sheep
