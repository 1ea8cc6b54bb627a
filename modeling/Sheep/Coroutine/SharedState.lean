import Sheep.Coroutine.Mutex

/-!
# The shared state of promises and futures

`SharedState<T>` is a value, an exception and the flag `isReady_` behind `mtx_` and a
`ConditionVariable`. `sharedState` runs any number of threads and coroutines through
`Future<T>::wait`, `setValue` and `setException`, one atomic step of one party at a time. A
coroutine queues, releases `mtx_` and is suspended in three steps, so that it may be resumed before
it is suspended; `std::condition_variable` may wake a thread spuriously.

`sharedState_law`: no `wait` returns before the flag is set, and `getValue` behind it finds it set;
once the flag is set and `mtx_` is free, nobody waits un-notified. The last rests on
`SharedStateInv.coCv` and `SharedStateInv.cv`: while the flag is set, a queue that is not empty has
a party inside that is about to notify it.
-/

namespace Sheep

/-- What `getValue` throws. -/
inductive FutureError (ε : Type)
  | runtimeError (what : String)
  | exception (e : ε)
  deriving DecidableEq, Repr

/-- How a `Future<T>::wait` has ended; it has a value if `T` is not `void`. -/
abbrev WaitResult (α ε : Type) := Except (FutureError ε) (Option α)

inductive FutureCall (α ε : Type)
  | wait
  | setValue (value : α)
  | setException (eptr : ε)
  deriving DecidableEq, Repr

/-- Where a party is: each value is the point before one atomic step. -/
inductive FuturePc (α ε : Type)
  /-- outside of the calls; the last one was a `wait` with this result -/
  | outside (r : Option (WaitResult α ε))
  /-- before the call takes `mtx_` -/
  | lock (call : FutureCall α ε)
  /-- before `while (!isReady_)` -/
  | test
  /-- before `cond_.wait(lock)` -/
  | wait
  /-- a coroutine that is queued, before `lock.unlock()` -/
  | release
  /-- before `sched_->suspend()` -/
  | suspend
  /-- switched out -/
  | suspended
  /-- a thread in `cv_.wait` -/
  | blocked
  /-- woken, before `mtx_` is taken again -/
  | relock
  /-- before `SharedStateBase::wait` returns and releases `mtx_` -/
  | leave
  /-- before `getValue` takes `mtx_` -/
  | getValue
  /-- in `getValue` -/
  | read
  /-- before `value_ = value` -/
  | setValue (value : α)
  /-- before `eptr_ = eptr` -/
  | setException (eptr : ε)
  /-- before `isReady_ = true` -/
  | ready
  /-- before `coCv_.notify_all()` -/
  | notifyCo
  /-- before `cv_.notify_all()` -/
  | notifyThreads
  /-- before `setValue` or `setException` returns and releases `mtx_` -/
  | done
  deriving DecidableEq, Repr

/-- The first statement after `mtx_` is taken. -/
def FutureCall.body {α ε : Type} : FutureCall α ε → FuturePc α ε
  | .wait => .test
  | .setValue value => .setValue value
  | .setException eptr => .setException eptr

namespace FuturePc

variable {α ε : Type}

/-- The party is in a critical section of `mtx_`. -/
def inside : FuturePc α ε → Bool
  | .test | .wait | .release | .leave | .read | .setValue _ | .setException _ | .ready
  | .notifyCo | .notifyThreads | .done => true
  | .outside _ | .lock _ | .suspend | .suspended | .blocked | .relock | .getValue => false

/-- A coroutine that has queued and was not switched to since. -/
def queued : FuturePc α ε → Bool
  | .release | .suspend | .suspended => true
  | _ => false

/-- What the place of a party says about the flag. -/
def Fits (isReady : Bool) : FuturePc α ε → Prop
  | .wait => isReady = false
  | .leave | .getValue | .read | .outside (some (.ok _))
  | .outside (some (.error (.exception _))) => isReady = true
  | .outside (some (.error (.runtimeError _))) => False
  | _ => True

theorem Fits.of_ne_wait {isReady : Bool} {x : FuturePc α ε} (h : x.Fits isReady)
    (hx : x ≠ .wait) : x.Fits true := by
  unfold Fits at h ⊢
  split at h <;> simp_all

end FuturePc

/-- `SharedState<T>`, its parties, and the schedulers' `resumeQueue_`. -/
structure SharedState (α ε : Type) where
  /-- who is in the critical section of `mtx_` -/
  mtx : Option Party
  coCv : CoConditionVariable
  /-- the threads blocked in `cv_` -/
  cv : List Nat
  eptr : Option ε
  isReady : Bool
  value : α
  resumeQueue : List Coro
  pc : Party → FuturePc α ε

inductive FutureAction (α ε : Type)
  | call (p : Party) (call : FutureCall α ε)
  /-- the next atomic step of a party -/
  | step (p : Party)
  | spurious (thread : Nat)
  deriving DecidableEq, Repr

namespace SharedState

variable {α ε : Type}

/-- `value` is what the constructor leaves in `value_`. -/
def init (value : α) : SharedState α ε :=
  ⟨none, ⟨[]⟩, [], none, false, value, [], fun _ => .outside none⟩

def goto (s : SharedState α ε) (p : Party) (q : FuturePc α ε) : SharedState α ε :=
  { s with pc := Function.update s.pc p q }

/-- `getValue`, with `mtx_` taken. -/
def getValue (s : SharedState α ε) : Except (FutureError ε) α :=
  if !s.isReady then
    .error (.runtimeError "CoroutineSharedState::getValue() must be called after wait()")
  else
    match s.eptr with
    | some e => .error (.exception e)
    | none => .ok s.value

/-- `cond_.wait(lock)` up to the point where the party blocks. -/
def wait (s : SharedState α ε) : Party → SharedState α ε
  | .coro c => { s.goto (.coro c) .release with
      coCv := (s.coCv.wait (Mutex.waiter c) (-1)).1 }
  | .thread t => { s.goto (.thread t) .blocked with cv := t :: s.cv, mtx := none }

/-- The next atomic step of `p`; `none` where it has to wait. -/
def stepParty (isVoid : Bool) (s : SharedState α ε) (p : Party) : Option (SharedState α ε) :=
  match s.pc p with
  | .outside _ => none
  | .lock call => if s.mtx = none then some { s.goto p call.body with mtx := some p } else none
  | .test => some (s.goto p (if s.isReady then .leave else .wait))
  | .wait => some (s.wait p)
  | .release => some { s.goto p .suspend with mtx := none }
  | .suspend => some (s.goto p .suspended)
  | .suspended =>
    match p with
    | .thread _ => none
    | .coro c =>
      -- the scheduler takes `c` out of its `resumeQueue_` and switches to it
      if c ∈ s.resumeQueue then
        some { s.goto p .relock with resumeQueue := s.resumeQueue.erase c }
      else none
  | .blocked =>
    match p with
    | .thread t => if t ∈ s.cv then none else some (s.goto p .relock)
    | .coro _ => none
  | .relock => if s.mtx = none then some { s.goto p .test with mtx := some p } else none
  | .leave =>
    some { s.goto p (if isVoid then .outside (some (.ok none)) else .getValue) with mtx := none }
  | .getValue => if s.mtx = none then some { s.goto p .read with mtx := some p } else none
  | .read => some { s.goto p (.outside (some (s.getValue.map some))) with mtx := none }
  | .setValue value => some { s.goto p .ready with value := value }
  | .setException eptr => some { s.goto p .ready with eptr := some eptr }
  | .ready => some { s.goto p .notifyCo with isReady := true }
  | .notifyCo =>
    some { s.goto p .notifyThreads with
      coCv := ⟨s.coCv.notifyAll.waiters⟩
      resumeQueue := s.resumeQueue ++ s.coCv.notifyAll.resumed }
  | .notifyThreads => some { s.goto p .done with cv := [] }
  | .done => some { s.goto p (.outside none) with mtx := none }

def step (isVoid : Bool) (s : SharedState α ε) : FutureAction α ε → Option (SharedState α ε)
  | .call p call =>
    match s.pc p with
    | .outside _ => some (s.goto p (.lock call))
    | _ => none
  | .step p => s.stepParty isVoid p
  | .spurious t => if t ∈ s.cv then some { s with cv := s.cv.filter (· ≠ t) } else none

/-- The coroutines in `coCv_`, the first in first. -/
def queue (s : SharedState α ε) : List Coro := s.coCv.waiters.filterMap (·.wakeup)

/-- The party waits and was not notified. -/
def Unnotified (s : SharedState α ε) : Party → Prop
  | .thread t => s.pc (.thread t) = .blocked ∧ t ∈ s.cv
  | .coro c => (s.pc (.coro c)).queued ∧ c ∉ s.resumeQueue

end SharedState

/-- The shared state of a `Future<T>`; `isVoid` says whether `T` is `void`. -/
def sharedState {α : Type} (ε : Type) (isVoid : Bool) (value : α) :
    System (SharedState α ε) (FutureAction α ε) :=
  ⟨.init value, SharedState.step isVoid⟩

/-! ## The contract -/

structure FutureLaw {α ε : Type} (s : SharedState α ε) : Prop where
  /-- a `wait` that has returned has found the flag set, and so has its `getValue` -/
  returned : ∀ p r, s.pc p = .outside (some r) →
    s.isReady = true ∧ ∀ what, r ≠ .error (.runtimeError what)
  notified : s.isReady = true → s.mtx = none → ∀ p, ¬ s.Unnotified p

/-! ## The invariant -/

/-- What holds in every reachable state. -/
structure SharedStateInv {α ε : Type} (s : SharedState α ε) : Prop where
  mtx : Owned FuturePc.inside s.pc s.mtx
  queued : ∀ c, (s.pc (.coro c)).queued → c ∈ s.queue ∨ c ∈ s.resumeQueue
  entries : ∀ w ∈ s.coCv.waiters, ∃ c, w = Mutex.waiter c
  fits : ∀ p, (s.pc p).Fits s.isReady
  coCv : s.isReady = true → s.queue = [] ∨ ∃ p, s.pc p = .notifyCo
  cv : s.isReady = true → s.cv = [] ∨ ∃ p, s.pc p = .notifyCo ∨ s.pc p = .notifyThreads

namespace SharedStateInv

open SharedState

variable {α ε : Type} {s : SharedState α ε} {p : Party} {a b : FuturePc α ε}

theorem exists_of_goto {P : FuturePc α ε → Prop} (hpc : s.pc p = a) (ha : ¬ P a)
    (h : ∃ q, P (s.pc q)) : ∃ q, P ((s.goto p b).pc q) := by
  obtain ⟨q, hq⟩ := h
  have hne : q ≠ p := by
    rintro rfl
    exact ha (hpc ▸ hq)
  refine ⟨q, ?_⟩
  show P (Function.update s.pc p b q)
  rwa [Function.update_of_ne hne]

theorem queued_of_goto (h : SharedStateInv s) (hpc : s.pc p = a) (hb : b.queued → a.queued)
    {c : Coro} (hc : ((s.goto p b).pc (.coro c)).queued) : c ∈ s.queue ∨ c ∈ s.resumeQueue :=
  h.queued c (forall_update (R := fun q (x : FuturePc α ε) => x.queued → (s.pc q).queued)
    (hpc.symm ▸ hb) (fun _ _ => id) (.coro c) hc)

theorem fits_at (h : SharedStateInv s) (hpc : s.pc p = a) : a.Fits s.isReady := hpc ▸ h.fits p

theorem fits_goto (h : SharedStateInv s) (hb : b.Fits s.isReady) (q : Party) :
    ((s.goto p b).pc q).Fits s.isReady :=
  forall_update (R := fun _ (x : FuturePc α ε) => x.Fits s.isReady) hb (fun q _ => h.fits q) q

/-- A step of a party that notifies nobody and joins no queue. -/
theorem move {m : Option Party} (h : SharedStateInv s) (hpc : s.pc p = a)
    (hm : Owned.Move FuturePc.inside p a b s.mtx m) (hqueued : b.queued → a.queued)
    (hfits : b.Fits s.isReady) (hco : a ≠ .notifyCo) (hthreads : a ≠ .notifyThreads) :
    SharedStateInv { s.goto p b with mtx := m } where
  mtx := h.mtx.move hpc hm
  queued := fun _ => h.queued_of_goto hpc hqueued
  entries := h.entries
  fits := h.fits_goto hfits
  coCv := fun hready => (h.coCv hready).imp_right (exists_of_goto (P := (· = .notifyCo)) hpc hco)
  cv := fun hready => (h.cv hready).imp_right
    (exists_of_goto (P := fun x => x = .notifyCo ∨ x = .notifyThreads) hpc
      (not_or.mpr ⟨hco, hthreads⟩))

/-! ### `wait` -/

/-- A coroutine queues itself. -/
theorem waitCoro {c : Coro} (h : SharedStateInv s) (hpc : s.pc (.coro c) = .wait) :
    SharedStateInv (s.wait (.coro c)) := by
  have hready : s.isReady = false := h.fits_at hpc
  have hqueue : (s.wait (.coro c)).queue = s.queue ++ [c] := by
    simp [SharedState.wait, queue, CoConditionVariable.wait, Mutex.waiter, CoroutineWaiter.wakeup]
  refine ⟨h.mtx.move hpc (.stay rfl), ?_, ?_, h.fits_goto True.intro,
    fun hc => absurd (hready.symm.trans hc) Bool.false_ne_true,
    fun hc => absurd (hready.symm.trans hc) Bool.false_ne_true⟩
  · rw [hqueue]
    refine forall_coro (R := fun d (x : FuturePc α ε) => x.queued →
      d ∈ s.queue ++ [c] ∨ d ∈ s.resumeQueue) ?_ ?_
    · exact fun _ => .inl (List.mem_append_right _ List.mem_cons_self)
    · exact fun d _ hd => (h.queued d hd).imp_left (List.mem_append_left _)
  · intro w hw
    rcases List.mem_append.mp hw with hw | hw
    · exact h.entries w hw
    · exact ⟨c, List.mem_singleton.mp hw⟩

/-- A thread blocks in `cv_`. -/
theorem waitThread {t : Nat} (h : SharedStateInv s) (hpc : s.pc (.thread t) = .wait) :
    SharedStateInv (s.wait (.thread t)) := by
  have hready : s.isReady = false := h.fits_at hpc
  have hmoved := h.move hpc (.leave rfl rfl) (b := .blocked) nofun True.intro nofun nofun
  exact ⟨hmoved.mtx, hmoved.queued, hmoved.entries, hmoved.fits, hmoved.coCv,
    fun hc => absurd (hready.symm.trans hc) Bool.false_ne_true⟩

/-- The scheduler switches to a coroutine that was resumed. -/
theorem resume {c : Coro} (h : SharedStateInv s) (hpc : s.pc (.coro c) = .suspended) :
    SharedStateInv { s.goto (.coro c) .relock with resumeQueue := s.resumeQueue.erase c } := by
  have hmoved := h.move (m := s.mtx) hpc (.stay rfl) (b := .relock) nofun True.intro nofun nofun
  refine ⟨hmoved.mtx, ?_, hmoved.entries, hmoved.fits, hmoved.coCv, hmoved.cv⟩
  refine forall_coro (R := fun d (x : FuturePc α ε) => x.queued →
    d ∈ s.queue ∨ d ∈ s.resumeQueue.erase c) (fun hc => by cases hc) fun d hd hqueued => ?_
  exact (h.queued d hqueued).imp_right (List.mem_erase_of_ne hd).mpr

theorem spurious {t : Nat} (h : SharedStateInv s) :
    SharedStateInv { s with cv := s.cv.filter (· ≠ t) } := by
  refine ⟨h.mtx, h.queued, h.entries, h.fits, h.coCv, fun hready => ?_⟩
  exact (h.cv hready).imp_left fun hcv => by rw [hcv]; rfl

/-! ### `setValue` and `setException` -/

/-- `value_` and `eptr_` are not in the invariant. -/
theorem set {value : α} {eptr : Option ε} (h : SharedStateInv s) :
    SharedStateInv { s with value := value, eptr := eptr } :=
  ⟨h.mtx, h.queued, h.entries, h.fits, h.coCv, h.cv⟩

/-- `isReady_ = true`, by a party that will notify. -/
theorem ready (h : SharedStateInv s) (hpc : s.pc p = .ready) :
    SharedStateInv { s.goto p .notifyCo with isReady := true } := by
  have hat : (s.goto p .notifyCo).pc p = .notifyCo := Function.update_self ..
  refine ⟨h.mtx.move hpc (.stay rfl), fun _ => h.queued_of_goto (b := .notifyCo) hpc nofun,
    h.entries, ?_, fun _ => .inr ⟨p, hat⟩, fun _ => .inr ⟨p, .inl hat⟩⟩
  refine forall_update (R := fun _ (x : FuturePc α ε) => x.Fits true) True.intro fun q hq => ?_
  -- who is about to wait is inside, and that is `p`
  have hwait : s.pc q ≠ .wait := fun hwait =>
    hq (h.mtx.unique hpc hwait rfl rfl).symm
  exact (h.fits q).of_ne_wait hwait

/-- `coCv_.notify_all()` resumes every coroutine of the queue. -/
theorem notifyAll_eq (h : SharedStateInv s) :
    s.coCv.notifyAll.waiters = [] ∧ s.coCv.notifyAll.resumed = s.queue := by
  rw [CoConditionVariable.notifyAll, notifyNolock_all (Mutex.not_canceled h.entries)]
  exact ⟨rfl, rfl⟩

theorem notifyCo (h : SharedStateInv s) (hpc : s.pc p = .notifyCo) :
    SharedStateInv { s.goto p .notifyThreads with
      coCv := ⟨s.coCv.notifyAll.waiters⟩
      resumeQueue := s.resumeQueue ++ s.coCv.notifyAll.resumed } := by
  obtain ⟨hwaiters, hresumed⟩ := h.notifyAll_eq
  rw [hwaiters, hresumed]
  refine ⟨h.mtx.move hpc (.stay rfl), fun c hc => .inr ?_, nofun, h.fits_goto True.intro,
    fun _ => .inl rfl, fun _ => .inr ⟨p, .inr (Function.update_self ..)⟩⟩
  exact List.mem_append.mpr (h.queued_of_goto (b := .notifyThreads) hpc nofun hc).symm

theorem notifyThreads (h : SharedStateInv s) (hpc : s.pc p = .notifyThreads) :
    SharedStateInv { s.goto p .done with cv := [] } := by
  refine ⟨h.mtx.move hpc (.stay rfl), fun _ => h.queued_of_goto (b := .done) hpc nofun,
    h.entries, h.fits_goto True.intro, fun hready => ?_, fun _ => .inl rfl⟩
  exact (h.coCv hready).imp_right
    (exists_of_goto (P := (· = .notifyCo)) hpc fun hc => by cases hc)

theorem init (value : α) : SharedStateInv (.init value : SharedState α ε) := by
  refine ⟨?_, ?_, nofun, fun _ => True.intro, nofun, nofun⟩ <;>
    simp [SharedState.init, Owned, FuturePc.inside, FuturePc.queued]

theorem stepParty {isVoid : Bool} {t : SharedState α ε} (h : SharedStateInv s)
    (hs : s.stepParty isVoid p = some t) : SharedStateInv t := by
  unfold SharedState.stepParty at hs
  cases hpc : s.pc p with
  | outside r => simp [hpc] at hs
  | lock call =>
    simp only [hpc, Option.ite_none_right_eq_some, Option.some.injEq] at hs
    obtain ⟨hm, rfl⟩ := hs
    cases call <;> exact h.move hpc (.enter hm rfl) nofun True.intro nofun nofun
  | test =>
    simp only [hpc, Option.some.injEq] at hs
    subst hs
    cases hready : s.isReady with
    | true => exact h.move (m := s.mtx) hpc (.stay rfl) nofun hready nofun nofun
    | false => exact h.move (m := s.mtx) hpc (.stay rfl) nofun hready nofun nofun
  | wait =>
    simp only [hpc, Option.some.injEq] at hs
    subst hs
    cases p with
    | thread t => exact h.waitThread hpc
    | coro c => exact h.waitCoro hpc
  | release =>
    simp only [hpc, Option.some.injEq] at hs
    subst hs
    exact h.move hpc (.leave rfl rfl) id True.intro nofun nofun
  | suspend =>
    simp only [hpc, Option.some.injEq] at hs
    subst hs
    exact h.move (m := s.mtx) hpc (.stay rfl) id True.intro nofun nofun
  | suspended =>
    cases p with
    | thread t => simp [hpc] at hs
    | coro c =>
      simp only [hpc, Option.ite_none_right_eq_some, Option.some.injEq] at hs
      obtain ⟨-, rfl⟩ := hs
      exact h.resume hpc
  | blocked =>
    cases p with
    | thread t =>
      simp only [hpc, Option.ite_none_left_eq_some, Option.some.injEq] at hs
      obtain ⟨-, rfl⟩ := hs
      exact h.move (m := s.mtx) hpc (.stay rfl) nofun True.intro nofun nofun
    | coro c => simp [hpc] at hs
  | relock =>
    simp only [hpc, Option.ite_none_right_eq_some, Option.some.injEq] at hs
    obtain ⟨hm, rfl⟩ := hs
    exact h.move hpc (.enter hm rfl) nofun True.intro nofun nofun
  | leave =>
    simp only [hpc, Option.some.injEq] at hs
    subst hs
    have hready : s.isReady = true := h.fits_at hpc
    cases isVoid <;> exact h.move hpc (.leave rfl rfl) nofun hready nofun nofun
  | getValue =>
    simp only [hpc, Option.ite_none_right_eq_some, Option.some.injEq] at hs
    obtain ⟨hm, rfl⟩ := hs
    have hready : s.isReady = true := h.fits_at hpc
    exact h.move hpc (.enter hm rfl) nofun hready nofun nofun
  | read =>
    simp only [hpc, Option.some.injEq] at hs
    subst hs
    have hready : s.isReady = true := h.fits_at hpc
    refine h.move hpc (.leave rfl rfl) nofun ?_ nofun nofun
    -- the flag is set, so `getValue` has a value or an exception
    simp only [SharedState.getValue, hready, Bool.not_true, Bool.false_eq_true, ↓reduceIte]
    cases s.eptr <;> exact rfl
  | setValue value =>
    simp only [hpc, Option.some.injEq] at hs
    subst hs
    have hmoved := h.move (m := s.mtx) (b := .ready) hpc (.stay rfl) nofun True.intro nofun nofun
    exact hmoved.set
  | setException eptr =>
    simp only [hpc, Option.some.injEq] at hs
    subst hs
    have hmoved := h.move (m := s.mtx) (b := .ready) hpc (.stay rfl) nofun True.intro nofun nofun
    exact hmoved.set
  | ready =>
    simp only [hpc, Option.some.injEq] at hs
    subst hs
    exact h.ready hpc
  | notifyCo =>
    simp only [hpc, Option.some.injEq] at hs
    subst hs
    exact h.notifyCo hpc
  | notifyThreads =>
    simp only [hpc, Option.some.injEq] at hs
    subst hs
    exact h.notifyThreads hpc
  | done =>
    simp only [hpc, Option.some.injEq] at hs
    subst hs
    exact h.move hpc (.leave rfl rfl) nofun True.intro nofun nofun

theorem step {isVoid : Bool} {t : SharedState α ε} {a : FutureAction α ε} (h : SharedStateInv s)
    (hs : s.step isVoid a = some t) : SharedStateInv t := by
  cases a with
  | call p call =>
    simp only [SharedState.step] at hs
    split at hs
    next r hpc =>
      cases hs
      exact h.move (m := s.mtx) hpc (.stay rfl) nofun True.intro nofun nofun
    next => cases hs
  | step p => exact h.stepParty hs
  | spurious t =>
    simp only [SharedState.step, Option.ite_none_right_eq_some, Option.some.injEq] at hs
    obtain ⟨-, rfl⟩ := hs
    exact h.spurious

/-- The flag is set and nobody is inside: nobody waits un-notified. -/
theorem notified (h : SharedStateInv s) (hready : s.isReady = true) (hmtx : s.mtx = none)
    (p : Party) : ¬ s.Unnotified p := by
  have hout : ∀ q, (s.pc q).inside ≠ true := fun q hq => by
    have hown := (h.mtx q).mp hq
    rw [hmtx] at hown
    cases hown
  cases p with
  | thread t =>
    rintro ⟨-, ht⟩
    rcases h.cv hready with hcv | ⟨q, hq | hq⟩
    · rw [hcv] at ht
      cases ht
    · exact hout q (by rw [hq]; rfl)
    · exact hout q (by rw [hq]; rfl)
  | coro c =>
    rintro ⟨hqueued, hc⟩
    rcases h.coCv hready with hqueue | ⟨q, hq⟩
    · have hmem := h.queued c hqueued
      rw [hqueue] at hmem
      exact hc (hmem.resolve_left List.not_mem_nil)
    · exact hout q (by rw [hq]; rfl)

theorem law (h : SharedStateInv s) : FutureLaw s := by
  refine ⟨fun p r hpc => ?_, h.notified⟩
  have hfits := h.fits_at hpc
  cases r with
  | ok v => exact ⟨hfits, fun _ hc => by cases hc⟩
  | error e =>
    cases e with
    | runtimeError what => exact hfits.elim
    | exception e => exact ⟨hfits, fun _ hc => by cases hc⟩

end SharedStateInv

/-! ## Every interleaving -/

/-- Every reachable state of the shared state, under every interleaving of the atomic steps of any
number of threads and coroutines and of spurious wake-ups, meets the contract. -/
theorem sharedState_law {α ε : Type} (isVoid : Bool) (value : α) (s : SharedState α ε)
    (h : (sharedState ε isVoid value).Reachable s) : FutureLaw s := by
  have hinv : SharedStateInv s :=
    h.invariant (.init value) fun _ _ _ hinv _ hs => hinv.step hs
  exact hinv.law

/-- A thread and a coroutine wait, `setValue` comes before the coroutine is suspended, and the
thread returns the value. -/
def notifiedEarly : List (FutureAction Nat String) :=
  [.call (.thread 0) .wait, .step (.thread 0), .step (.thread 0), .step (.thread 0),
    .call (.coro ⟨0, 0⟩) .wait, .step (.coro ⟨0, 0⟩), .step (.coro ⟨0, 0⟩), .step (.coro ⟨0, 0⟩),
    .step (.coro ⟨0, 0⟩), .call (.thread 1) (.setValue 7), .step (.thread 1), .step (.thread 1),
    .step (.thread 1), .step (.thread 1), .step (.thread 1), .step (.thread 1),
    .step (.thread 0), .step (.thread 0), .step (.thread 0), .step (.thread 0), .step (.thread 0),
    .step (.thread 0)]

theorem sharedState_law_notifiedEarly :
    ∃ s, (sharedState String false 0).run (sharedState String false 0).init notifiedEarly =
        some s ∧
      FutureLaw s ∧ s.isReady = true ∧ s.mtx = none ∧ s.pc (.coro ⟨0, 0⟩) = .suspend ∧
      s.pc (.thread 0) = .outside (some (.ok (some 7))) :=
  have hrun : (sharedState String false 0).run (sharedState String false 0).init notifiedEarly =
      some _ := rfl
  ⟨_, hrun, sharedState_law false 0 _ (System.reachable_of_run hrun), rfl, rfl, rfl, rfl⟩

end Sheep
