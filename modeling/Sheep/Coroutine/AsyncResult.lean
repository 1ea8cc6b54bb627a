import Sheep.Coroutine.SharedState

/-!
# What a future of `Async::async` gives

The coroutine of a task calls the function, and then `setValue` if it returned and `setException`
if it threw. `asyncTask` runs it against any number of `wait` calls on the future, by threads and
coroutines, one atomic step of one party at a time.

`TaskLaw`: a `wait` returns only if the function did, with its value, and throws only what the
function threw. `asyncTask_law`: the law holds in every reachable state. The task has a value:
`Promise<void>` does not compile, since its `setValue` would take a `void&&`.
-/

namespace Sheep

/-- A future of `async`, and how the function of its task has ended. -/
structure AsyncTask (α ε : Type) where
  future : SharedState α ε
  ended : Option (Except ε α)

inductive TaskAction (α ε : Type)
  | wait (p : Party)
  /-- the function returns or throws -/
  | ends (outcome : Except ε α)
  /-- the next atomic step of a party -/
  | step (p : Party)
  | spurious (thread : Nat)
  deriving DecidableEq, Repr

namespace AsyncTask

variable {α ε : Type}

/-- What the coroutine of the task calls after the function. -/
def setCall : Except ε α → FutureCall α ε
  | .ok value => .setValue value
  | .error eptr => .setException eptr

/-- `runner` is the coroutine that `async` adds. -/
def step (runner : Coro) (s : AsyncTask α ε) : TaskAction α ε → Option (AsyncTask α ε)
  | .wait p => (s.future.step false (.call p .wait)).map fun f => ⟨f, s.ended⟩
  | .ends outcome =>
    match s.ended with
    | some _ => none
    | none =>
      (s.future.step false (.call (.coro runner) (setCall outcome))).map fun f => ⟨f, outcome⟩
  | .step p => (s.future.step false (.step p)).map fun f => ⟨f, s.ended⟩
  | .spurious t => (s.future.step false (.spurious t)).map fun f => ⟨f, s.ended⟩

end AsyncTask

def asyncTask {α : Type} (ε : Type) (value : α) (runner : Coro) :
    System (AsyncTask α ε) (TaskAction α ε) :=
  ⟨⟨.init value, none⟩, AsyncTask.step runner⟩

/-! ## The contract -/

structure TaskLaw {α ε : Type} (s : AsyncTask α ε) : Prop where
  /-- a `wait` that has returned: so has the function, with this value -/
  returned : ∀ p v, s.future.pc p = .outside (some (.ok v)) →
    ∃ value, s.ended = some (.ok value) ∧ v = some value
  /-- a `wait` that has thrown: so has the function -/
  thrown : ∀ p err, s.future.pc p = .outside (some (.error err)) →
    ∃ eptr, s.ended = some (.error eptr) ∧ err = .exception eptr
  /-- no `wait` ends too early, and none is left behind -/
  future : FutureLaw s.future

/-! ## The invariant -/

/-- What `Future<T>::wait` makes of the way the function ended. -/
def waitResult {α ε : Type} : Except ε α → WaitResult α ε
  | .ok value => .ok (some value)
  | .error eptr => .error (.exception eptr)

/-- `value_` and `eptr_` have what was set. -/
def Stored {α ε : Type} (value : α) (eptr : Option ε) : Except ε α → Prop
  | .ok v => value = v ∧ eptr = none
  | .error e => eptr = some e

theorem getValue_of_stored {α ε : Type} {s : SharedState α ε} {o : Except ε α}
    (hready : s.isReady = true) (hstored : Stored s.value s.eptr o) :
    s.getValue.map some = waitResult o := by
  simp only [SharedState.getValue, hready, Bool.not_true, Bool.false_eq_true, ↓reduceIte]
  cases o with
  | ok v =>
    obtain ⟨hvalue, heptr⟩ := hstored
    simp only [heptr, hvalue]
    rfl
  | error e =>
    have heptr : s.eptr = some e := hstored
    simp only [heptr]
    rfl

namespace FuturePc

variable {α ε : Type}

/-- The party is in `setValue` or `setException`, before the flag is set. -/
def sets : FuturePc α ε → Bool
  | .lock (.setValue _) | .lock (.setException _) | .setValue _ | .setException _ | .ready => true
  | _ => false

/-- What the place of a party says about the end of the function. -/
def Knows (ended : Option (Except ε α)) (value : α) (eptr : Option ε) :
    FuturePc α ε → Prop
  | .lock (.setValue v) | .setValue v => ended = some (.ok v) ∧ eptr = none
  | .lock (.setException e) | .setException e => ended = some (.error e)
  | .ready => ∃ o, ended = some o ∧ Stored value eptr o
  | .outside (some r) => ∃ o, ended = some o ∧ r = waitResult o
  | _ => True

/-- Nobody else looks at what is set. -/
theorem Knows.of_not_sets {ended : Option (Except ε α)} {value value' : α}
    {eptr eptr' : Option ε} {x : FuturePc α ε} (h : x.Knows ended value eptr)
    (hx : x.sets = false) : x.Knows ended value' eptr' := by
  unfold Knows at h ⊢
  split at h <;> simp_all [sets]

/-- Before the function has ended, no place that does not set says anything about it. -/
theorem Knows.of_unset {ended ended' : Option (Except ε α)} {value : α}
    {eptr : Option ε} {x : FuturePc α ε} (h : x.Knows ended value eptr)
    (hended : ended = none) (hx : x.sets = false) : x.Knows ended' value eptr := by
  unfold Knows at h ⊢
  split at h <;> simp_all [sets]

end FuturePc

/-- What holds in every reachable state. -/
structure TaskInv {α ε : Type} (runner : Coro) (s : AsyncTask α ε) : Prop where
  future : SharedStateInv s.future
  knows : ∀ p, (s.future.pc p).Knows s.ended s.future.value s.future.eptr
  /-- only the task's coroutine sets, and only once -/
  sets : ∀ p, (s.future.pc p).sets = true →
    p = .coro runner ∧ s.ended ≠ none ∧ s.future.isReady = false
  unset : s.ended = none → s.future.isReady = false ∧ s.future.eptr = none
  ready : s.future.isReady = true →
    ∃ o, s.ended = some o ∧ Stored s.future.value s.future.eptr o

namespace TaskInv

open SharedState

variable {α ε : Type} {runner : Coro} {s : AsyncTask α ε} {f : SharedState α ε}
  {p : Party} {a b : FuturePc α ε}

theorem init (value : α) :
    TaskInv runner (asyncTask ε value runner).init where
  future := .init value
  knows := fun _ => True.intro
  sets := nofun
  unset := fun _ => ⟨rfl, rfl⟩
  ready := nofun

theorem knows_at (h : TaskInv runner s) (hpc : s.future.pc p = a) :
    a.Knows s.ended s.future.value s.future.eptr := hpc ▸ h.knows p

/-- A step that sets nothing. -/
theorem move (h : TaskInv runner s) (hf : SharedStateInv f) (hpc : s.future.pc p = a)
    (hfpc : f.pc = Function.update s.future.pc p b) (hvalue : f.value = s.future.value)
    (heptr : f.eptr = s.future.eptr) (hready : f.isReady = s.future.isReady)
    (hknows : b.Knows s.ended s.future.value s.future.eptr) (hsets : b.sets → a.sets) :
    TaskInv runner ⟨f, s.ended⟩ where
  future := hf
  knows := by
    show ∀ q, (f.pc q).Knows s.ended f.value f.eptr
    rw [hfpc, hvalue, heptr]
    exact forall_update (R := fun _ (x : FuturePc α ε) =>
      x.Knows s.ended s.future.value s.future.eptr) hknows fun q _ => h.knows q
  sets := by
    show ∀ q, (f.pc q).sets = true → q = .coro runner ∧ s.ended ≠ none ∧ f.isReady = false
    rw [hfpc, hready]
    exact forall_update (R := fun q (x : FuturePc α ε) => x.sets = true →
      q = .coro runner ∧ s.ended ≠ none ∧ s.future.isReady = false)
      (fun hb => h.sets p (hpc ▸ hsets hb)) fun q _ => h.sets q
  unset := by
    show s.ended = none → f.isReady = false ∧ f.eptr = none
    rw [hready, heptr]
    exact h.unset
  ready := by
    show f.isReady = true → ∃ o, s.ended = some o ∧ Stored f.value f.eptr o
    rw [hready, hvalue, heptr]
    exact h.ready

/-- The same, to a place outside `setValue` and `setException`. -/
theorem goOn (h : TaskInv runner s) (hf : SharedStateInv f) (hpc : s.future.pc p = a)
    (hfpc : f.pc = Function.update s.future.pc p b) (hvalue : f.value = s.future.value)
    (heptr : f.eptr = s.future.eptr) (hready : f.isReady = s.future.isReady)
    (hknows : b.Knows s.ended s.future.value s.future.eptr) (hb : b.sets = false) :
    TaskInv runner ⟨f, s.ended⟩ :=
  h.move hf hpc hfpc hvalue heptr hready hknows fun hsets =>
    absurd (hb.symm.trans hsets) Bool.false_ne_true

/-- The other parties while one sets: none of them does. -/
theorem not_sets (h : TaskInv runner s) (hpc : s.future.pc p = a) (ha : a.sets = true)
    {q : Party} (hq : q ≠ p) : (s.future.pc q).sets = false := by
  cases hsets : (s.future.pc q).sets with
  | false => rfl
  | true =>
    have hp := (h.sets p (hpc ▸ ha)).1
    exact absurd ((h.sets q hsets).1.trans hp.symm) hq

/-- `value_ = value`, or `eptr_ = eptr`. -/
theorem store (h : TaskInv runner s) (hf : SharedStateInv f) (hpc : s.future.pc p = a)
    (ha : a.sets = true) (hfpc : f.pc = Function.update s.future.pc p .ready)
    (hready : f.isReady = s.future.isReady) {o : Except ε α} (ho : s.ended = some o)
    (hstored : Stored f.value f.eptr o) : TaskInv runner ⟨f, s.ended⟩ := by
  obtain ⟨hp, hended, hnot⟩ := h.sets p (hpc ▸ ha)
  refine ⟨hf, ?_, ?_, fun hnone => absurd hnone hended, fun hc => ?_⟩
  · show ∀ q, (f.pc q).Knows s.ended f.value f.eptr
    rw [hfpc]
    refine forall_update (R := fun _ (x : FuturePc α ε) => x.Knows s.ended f.value f.eptr)
      ⟨o, ho, hstored⟩ fun q hq => ?_
    exact (h.knows q).of_not_sets (h.not_sets hpc ha hq)
  · show ∀ q, (f.pc q).sets = true → q = .coro runner ∧ s.ended ≠ none ∧ f.isReady = false
    rw [hfpc, hready]
    exact forall_update (R := fun q (x : FuturePc α ε) => x.sets = true →
      q = .coro runner ∧ s.ended ≠ none ∧ s.future.isReady = false)
      (fun _ => ⟨hp, hended, hnot⟩) fun q _ => h.sets q
  · have hc : f.isReady = true := hc
    rw [hready, hnot] at hc
    cases hc

/-- `isReady_ = true`. -/
theorem setReady (h : TaskInv runner s)
    (hf : SharedStateInv { s.future.goto p .notifyCo with isReady := true })
    (hpc : s.future.pc p = .ready) :
    TaskInv runner ⟨{ s.future.goto p .notifyCo with isReady := true }, s.ended⟩ := by
  obtain ⟨o, ho, hstored⟩ := h.knows_at hpc
  refine ⟨hf, ?_, ?_, fun hnone => ?_, fun _ => ⟨o, ho, hstored⟩⟩
  · exact forall_update (R := fun _ (x : FuturePc α ε) =>
      x.Knows s.ended s.future.value s.future.eptr) True.intro fun q _ => h.knows q
  · refine forall_update (R := fun (q : Party) (x : FuturePc α ε) => x.sets = true →
      q = .coro runner ∧ s.ended ≠ none ∧ true = false) (fun hsets => by cases hsets) ?_
    intro q hq hsets
    rw [h.not_sets hpc rfl hq] at hsets
    cases hsets
  · have hnone : s.ended = none := hnone
    rw [ho] at hnone
    cases hnone

theorem stepParty (h : TaskInv runner s) (hs : s.future.stepParty false p = some f) :
    TaskInv runner ⟨f, s.ended⟩ := by
  have hf : SharedStateInv f := h.future.stepParty hs
  unfold SharedState.stepParty at hs
  cases hpc : s.future.pc p with
  | outside r => simp [hpc] at hs
  | lock call =>
    simp only [hpc, Option.ite_none_right_eq_some, Option.some.injEq] at hs
    obtain ⟨-, rfl⟩ := hs
    have hknows := h.knows_at hpc
    cases call <;> exact h.move hf hpc rfl rfl rfl rfl hknows id
  | test =>
    simp only [hpc, Option.some.injEq] at hs
    subst hs
    refine h.goOn hf hpc rfl rfl rfl rfl ?_ ?_
    · cases s.future.isReady <;> exact True.intro
    · cases s.future.isReady <;> rfl
  | wait =>
    simp only [hpc, Option.some.injEq] at hs
    subst hs
    cases p <;> exact h.goOn hf hpc rfl rfl rfl rfl True.intro rfl
  | suspended =>
    cases p with
    | thread t => simp [hpc] at hs
    | coro c =>
      simp only [hpc, Option.ite_none_right_eq_some, Option.some.injEq] at hs
      obtain ⟨-, rfl⟩ := hs
      exact h.goOn hf hpc rfl rfl rfl rfl True.intro rfl
  | blocked =>
    cases p with
    | thread t =>
      simp only [hpc, Option.ite_none_left_eq_some, Option.some.injEq] at hs
      obtain ⟨-, rfl⟩ := hs
      exact h.goOn hf hpc rfl rfl rfl rfl True.intro rfl
    | coro c => simp [hpc] at hs
  | relock =>
    simp only [hpc, Option.ite_none_right_eq_some, Option.some.injEq] at hs
    obtain ⟨-, rfl⟩ := hs
    exact h.goOn hf hpc rfl rfl rfl rfl True.intro rfl
  | getValue =>
    simp only [hpc, Option.ite_none_right_eq_some, Option.some.injEq] at hs
    obtain ⟨-, rfl⟩ := hs
    exact h.goOn hf hpc rfl rfl rfl rfl True.intro rfl
  | leave =>
    simp only [hpc, Option.some.injEq] at hs
    subst hs
    exact h.goOn hf hpc rfl rfl rfl rfl True.intro rfl
  | read =>
    simp only [hpc, Option.some.injEq] at hs
    subst hs
    have hready : s.future.isReady = true := h.future.fits_at hpc
    obtain ⟨o, ho, hstored⟩ := h.ready hready
    exact h.goOn hf hpc rfl rfl rfl rfl ⟨o, ho, getValue_of_stored hready hstored⟩ rfl
  | setValue value =>
    simp only [hpc, Option.some.injEq] at hs
    subst hs
    obtain ⟨ho, heptr⟩ := h.knows_at hpc
    exact h.store hf hpc rfl rfl rfl ho ⟨rfl, heptr⟩
  | setException eptr =>
    simp only [hpc, Option.some.injEq] at hs
    subst hs
    have ho : s.ended = some (.error eptr) := h.knows_at hpc
    exact h.store hf hpc rfl rfl rfl ho rfl
  | ready =>
    simp only [hpc, Option.some.injEq] at hs
    subst hs
    exact h.setReady hf hpc
  | release | suspend | notifyCo | notifyThreads | done =>
    simp only [hpc, Option.some.injEq] at hs
    subst hs
    exact h.goOn hf hpc rfl rfl rfl rfl True.intro rfl

/-- A call from outside. -/
theorem called {call : FutureCall α ε} (hf : s.future.step false (.call p call) = some f) :
    ∃ r, s.future.pc p = .outside r ∧ f = s.future.goto p (.lock call) := by
  simp only [SharedState.step] at hf
  split at hf
  next r hpc => exact ⟨r, hpc, (Option.some.inj hf).symm⟩
  next => cases hf

/-- The function ends, and its coroutine calls `setValue` or `setException`. -/
theorem ends (h : TaskInv runner s) (hnone : s.ended = none) {o : Except ε α}
    (hf : s.future.step false (.call (.coro runner) (AsyncTask.setCall o)) = some f) :
    TaskInv runner ⟨f, some o⟩ := by
  have hinv : SharedStateInv f := h.future.step hf
  obtain ⟨r, hpc, rfl⟩ := called hf
  obtain ⟨hready, heptr⟩ := h.unset hnone
  have hquiet : ∀ q, (s.future.pc q).sets = false := fun q => by
    cases hsets : (s.future.pc q).sets with
    | false => rfl
    | true => exact absurd hnone (h.sets q hsets).2.1
  refine ⟨hinv, ?_, ?_, nofun, fun hc => ?_⟩
  · refine forall_update (R := fun (_ : Party) (x : FuturePc α ε) =>
      x.Knows (some o) s.future.value s.future.eptr) ?_ fun q _ => ?_
    · cases o with
      | ok v => exact ⟨rfl, heptr⟩
      | error e => exact rfl
    · exact (h.knows q).of_unset hnone (hquiet q)
  · refine forall_update (R := fun (q : Party) (x : FuturePc α ε) => x.sets = true →
      q = .coro runner ∧ some o ≠ none ∧ s.future.isReady = false)
      (fun _ => ⟨rfl, nofun, hready⟩) fun q _ hsets => ?_
    rw [hquiet q] at hsets
    cases hsets
  · have hc : s.future.isReady = true := hc
    rw [hready] at hc
    cases hc

theorem step {t : AsyncTask α ε} {act : TaskAction α ε} (h : TaskInv runner s)
    (hs : s.step runner act = some t) : TaskInv runner t := by
  cases act with
  | wait p =>
    obtain ⟨f, hf, rfl⟩ := Option.map_eq_some_iff.mp hs
    have hinv : SharedStateInv f := h.future.step hf
    obtain ⟨r, hpc, rfl⟩ := called hf
    exact h.goOn hinv hpc rfl rfl rfl rfl True.intro rfl
  | ends o =>
    simp only [AsyncTask.step] at hs
    split at hs
    next => cases hs
    next hnone =>
      obtain ⟨f, hf, rfl⟩ := Option.map_eq_some_iff.mp hs
      exact h.ends hnone hf
  | step p =>
    obtain ⟨f, hf, rfl⟩ := Option.map_eq_some_iff.mp hs
    exact h.stepParty hf
  | spurious t =>
    obtain ⟨f, hf, rfl⟩ := Option.map_eq_some_iff.mp hs
    have hinv : SharedStateInv f := h.future.step hf
    simp only [SharedState.step, Option.ite_none_right_eq_some, Option.some.injEq] at hf
    obtain ⟨-, rfl⟩ := hf
    exact ⟨hinv, h.knows, h.sets, h.unset, h.ready⟩

/-- Every `wait` that has ended, ended as the code makes it from the way the function did. -/
theorem result (h : TaskInv runner s) {r : WaitResult α ε}
    (hpc : s.future.pc p = .outside (some r)) :
    ∃ o, s.ended = some o ∧ r = waitResult o := h.knows_at hpc

theorem law (h : TaskInv runner s) : TaskLaw s := by
  refine ⟨fun p v hpc => ?_, fun p err hpc => ?_, h.future.law⟩
  · obtain ⟨o, ho, hr⟩ := h.result hpc
    cases o with
    | ok value => exact ⟨value, ho, Except.ok.inj hr⟩
    | error e => cases hr
  · obtain ⟨o, ho, hr⟩ := h.result hpc
    cases o with
    | ok value => cases hr
    | error e => exact ⟨e, ho, Except.error.inj hr⟩

end TaskInv

/-! ## Every interleaving -/

end Sheep
