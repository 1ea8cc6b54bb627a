import Mathlib.Data.List.Basic
import Sheep.Lib.System

/-!
# `BlockQueue`

The queue of callbacks (`extends/small_packages/small_block_queue`) and its looper thread, with any
number of threads that push. `Push` holds `mtx_` for all it does, so it is one step; a callback that
the looper runs pushes with `PushWithoutLock`, inside the loop over `cbs_`.

`QueueLaw`: what has been executed is a prefix of what was pushed, and when the looper is blocked
with no notification all of it has been executed. `queueLaw_iff`: a run keeps the law if and only if
`cbs_` is empty each time the looper evaluates the predicate of `cv_.wait`. The predicate is
`cbs_.empty()`, the reverse of what there is to wait for: with a callback in the queue the looper
blocks, and it runs the callbacks only when there are none (`executed_eq_nil`).
-/

namespace Sheep

inductive LooperPc
  /-- before `Init` -/
  | notStarted
  /-- at `while(!stop_)` -/
  | test
  /-- at the lock of `mtx_` -/
  | lock
  /-- holds `mtx_` and evaluates the predicate of `cv_.wait` -/
  | predicate
  /-- blocked in `cv_.wait`; `notified`: a notification is pending -/
  | waiting (notified : Bool)
  /-- out of the wait and at the lock of `mtx_` -/
  | woken
  /-- holds `mtx_` and is at the element `i` of the loop over `cbs_` -/
  | running (i : Nat)
  | exited
  deriving DecidableEq, Repr

namespace LooperPc

/-- The looper holds `mtx_`. -/
def holds : LooperPc → Bool
  | .predicate | .running _ => true
  | _ => false

/-- `notify_one`: it reaches the looper only if it is blocked. -/
def notify : LooperPc → LooperPc
  | .waiting _ => .waiting true
  | pc => pc

end LooperPc

structure BlockQueue (Callback : Type) where
  cbs : List Callback
  stop : Bool
  looperThread : LooperPc
  /-- ghost: the callbacks pushed so far -/
  pushed : List Callback
  /-- ghost: the callbacks executed so far -/
  executed : List Callback
  deriving DecidableEq, Repr

inductive QueueAction (Callback : Type)
  /-- `Init` -/
  | init
  /-- `Push`, by any thread -/
  | push (cb : Callback)
  /-- the destructor sets `stop_` -/
  | stop
  /-- the looper thread goes on -/
  | looper
  /-- `cv_.wait` returns without a notification -/
  | spurious
  deriving DecidableEq, Repr

namespace BlockQueue

variable {Callback : Type}

def new : BlockQueue Callback := ⟨[], false, .notStarted, [], []⟩

def setLooper (s : BlockQueue Callback) (pc : LooperPc) : BlockQueue Callback :=
  { s with looperThread := pc }

def pushWithoutLock (s : BlockQueue Callback) (cb : Callback) : BlockQueue Callback :=
  { s with
    cbs := s.cbs ++ [cb]
    looperThread := s.looperThread.notify
    pushed := s.pushed ++ [cb] }

/-- The looper runs a callback, which pushes the callbacks `cbs`. -/
def execute (s : BlockQueue Callback) (cb : Callback) (cbs : List Callback) : BlockQueue Callback :=
  cbs.foldl pushWithoutLock { s with executed := s.executed ++ [cb] }

/-- One step of `looper`, when callbacks push what `pushes` says. -/
def looper (pushes : Callback → List Callback) (s : BlockQueue Callback) :
    Option (BlockQueue Callback) :=
  match s.looperThread with
  | .notStarted => none
  | .test => some (s.setLooper (if s.stop then .exited else .lock))
  | .lock => some (s.setLooper .predicate)
  | .predicate => some (s.setLooper (if s.cbs.isEmpty then .running 0 else .waiting false))
  | .waiting true => some (s.setLooper .woken)
  | .waiting false => none
  | .woken => some (s.setLooper .predicate)
  | .running i =>
    match s.cbs[i]? with
    | some cb => some ((s.execute cb (pushes cb)).setLooper (.running (i + 1)))
    | none => some (s.setLooper .test)
  | .exited => none

def step (pushes : Callback → List Callback) (s : BlockQueue Callback) :
    QueueAction Callback → Option (BlockQueue Callback)
  | .init => some (if s.looperThread = .notStarted then s.setLooper .test else s)
  | .push cb => if s.looperThread.holds then none else some (s.pushWithoutLock cb)
  | .stop => some { s with stop := true }
  | .looper => s.looper pushes
  | .spurious => if s.looperThread = .waiting false then some (s.setLooper .woken) else none

def system (pushes : Callback → List Callback) :
    System (BlockQueue Callback) (QueueAction Callback) := ⟨new, step pushes⟩

/-- What has been executed is a prefix of what was pushed, and the looper is blocked with no
notification pending only when all of it has been executed. -/
structure QueueLaw (s : BlockQueue Callback) : Prop where
  inOrder : s.executed <+: s.pushed
  blocked : s.looperThread = .waiting false → s.executed = s.pushed

/-- If the step evaluates the predicate of `cv_.wait`, then `cbs_` is empty. -/
def FindsEmpty (s : BlockQueue Callback) (a : QueueAction Callback) : Prop :=
  a = .looper → s.looperThread = .predicate → s.cbs = []

/-! ## What the looper does -/

/-- Nothing is taken out of `cbs_` and nothing is executed: the loop over `cbs_` is entered only
with an empty queue. -/
structure Idle (s : BlockQueue Callback) : Prop where
  executed : s.executed = []
  pushed : s.cbs = s.pushed
  running : ∀ i, s.looperThread = .running i → s.cbs = []

theorem idle_new : (new : BlockQueue Callback).Idle := ⟨rfl, rfl, fun _ _ => rfl⟩

theorem Idle.setLooper {s : BlockQueue Callback} (h : s.Idle) {pc : LooperPc}
    (hpc : ∀ i, pc = .running i → s.cbs = []) : (s.setLooper pc).Idle :=
  ⟨h.executed, h.pushed, hpc⟩

theorem Idle.push {s : BlockQueue Callback} (h : s.Idle) (hfree : s.looperThread.holds = false)
    (cb : Callback) : (s.pushWithoutLock cb).Idle := by
  refine ⟨h.executed, ?_, fun i hi => ?_⟩
  · show s.cbs ++ [cb] = s.pushed ++ [cb]
    rw [h.pushed]
  · replace hi : s.looperThread.notify = .running i := hi
    cases hpc : s.looperThread with
    | running => rw [hpc] at hfree; cases hfree
    | notStarted | test | lock | predicate | waiting | woken | exited =>
      rw [hpc] at hi
      cases hi

theorem Idle.looper {pushes : Callback → List Callback} {s t : BlockQueue Callback} (h : s.Idle)
    (ht : s.looper pushes = some t) : t.Idle := by
  unfold BlockQueue.looper at ht
  split at ht
  · cases ht
  · cases ht
    exact h.setLooper fun i hi => by split at hi <;> cases hi
  · cases ht
    exact h.setLooper fun _ hi => by cases hi
  · cases ht
    refine h.setLooper fun i hi => ?_
    split at hi
    · next hempty => exact List.isEmpty_iff.mp hempty
    · cases hi
  · cases ht
    exact h.setLooper fun _ hi => by cases hi
  · cases ht
  · cases ht
    exact h.setLooper fun _ hi => by cases hi
  · next i hpc =>
    rw [h.running i hpc] at ht
    cases ht
    exact h.setLooper fun _ hi => by cases hi
  · cases ht

theorem Idle.step {pushes : Callback → List Callback} {s t : BlockQueue Callback}
    {a : QueueAction Callback} (h : s.Idle) (ht : s.step pushes a = some t) : t.Idle := by
  cases a with
  | init =>
    cases ht
    split
    · exact h.setLooper fun _ hi => by cases hi
    · exact h
  | push cb =>
    simp only [BlockQueue.step] at ht
    split at ht
    · cases ht
    · next hfree => cases ht; exact h.push (by simpa using hfree) cb
  | stop => cases ht; exact ⟨h.executed, h.pushed, h.running⟩
  | looper => exact h.looper ht
  | spurious =>
    simp only [BlockQueue.step] at ht
    split at ht
    · cases ht; exact h.setLooper fun _ hi => by cases hi
    · cases ht

theorem idle_of_reachable {pushes : Callback → List Callback} {s : BlockQueue Callback}
    (h : (system pushes).Reachable s) : s.Idle :=
  h.invariant idle_new fun _ _ _ hs _ ht => hs.step ht

/-- The looper never executes a callback. -/
theorem executed_eq_nil {pushes : Callback → List Callback} {s : BlockQueue Callback}
    (h : (system pushes).Reachable s) : s.executed = [] :=
  (idle_of_reachable h).executed

/-! ## The law -/

theorem notify_ne_waiting (pc : LooperPc) : pc.notify ≠ .waiting false := by
  cases pc <;> simp [LooperPc.notify]

/-- After a step that does not find a callback where it evaluates the predicate, the looper is
blocked only if it was before, and nothing was pushed. -/
theorem FindsEmpty.blocked {pushes : Callback → List Callback} {s t : BlockQueue Callback}
    {a : QueueAction Callback} (h : s.FindsEmpty a) (ht : s.step pushes a = some t)
    (hblocked : t.looperThread = .waiting false) :
    s.looperThread = .waiting false ∧ t.pushed = s.pushed ∧ t.executed = s.executed := by
  cases a with
  | init =>
    cases ht
    split at hblocked
    · cases hblocked
    · next hstarted => rw [if_neg hstarted]; exact ⟨hblocked, rfl, rfl⟩
  | push cb =>
    simp only [BlockQueue.step] at ht
    split at ht
    · cases ht
    · cases ht; exact absurd hblocked (notify_ne_waiting _)
  | stop => cases ht; exact ⟨hblocked, rfl, rfl⟩
  | looper =>
    simp only [BlockQueue.step, BlockQueue.looper] at ht
    split at ht
    · cases ht
    · cases ht
      simp only [setLooper] at hblocked
      split at hblocked <;> cases hblocked
    · cases ht; cases hblocked
    · next hpc =>
      -- the predicate is true, and `cv_.wait` returns at once
      rw [h rfl hpc] at ht
      cases ht
      cases hblocked
    · cases ht; cases hblocked
    · cases ht
    · cases ht; cases hblocked
    · split at ht <;> cases ht <;> cases hblocked
    · cases ht
  | spurious =>
    simp only [BlockQueue.step] at ht
    split at ht
    · cases ht; cases hblocked
    · cases ht

/-- One step keeps the law exactly if it does not find a callback where it evaluates the
predicate. -/
theorem queueLaw_step {pushes : Callback → List Callback} {s t : BlockQueue Callback}
    {a : QueueAction Callback} (hidle : s.Idle) (hlaw : s.QueueLaw)
    (ht : s.step pushes a = some t) : t.QueueLaw ↔ s.FindsEmpty a := by
  have hidle' := hidle.step ht
  constructor
  · rintro hlaw' rfl hpc
    by_contra hne
    have hempty : s.cbs.isEmpty = false := by simpa using hne
    simp only [BlockQueue.step, BlockQueue.looper, hpc, hempty] at ht
    cases ht
    have hpushed := hlaw'.blocked rfl
    rw [hidle'.executed, ← hidle'.pushed] at hpushed
    exact hne hpushed.symm
  · intro hfinds
    refine ⟨?_, fun hblocked => ?_⟩
    · rw [hidle'.executed]
      exact List.nil_prefix
    · obtain ⟨hwas, hpushed, hexecuted⟩ := hfinds.blocked ht hblocked
      rw [hpushed, hexecuted]
      exact hlaw.blocked hwas

/-- A run keeps the law in all its states if and only if `cbs_` is empty each time the looper
evaluates the predicate. -/
theorem queueLaw_iff (pushes : Callback → List Callback) (as : List (QueueAction Callback))
    (hrun : ((system pushes).run new as).isSome) :
    (system pushes).AllStates QueueLaw new as ↔ (system pushes).AllSteps FindsEmpty new as :=
  System.allStates_iff_allSteps (L := fun _ => True) ⟨List.nil_prefix, fun _ => rfl⟩ idle_new
    (fun _ _ _ hs ht => hs.step ht) (fun _ _ _ hidle hlaw _ ht => queueLaw_step hidle hlaw ht)
    (fun _ _ => True.intro) hrun

/-- A callback is pushed before the looper comes to the predicate, and one after it has blocked. -/
def pushTwice : List (QueueAction Nat) :=
  [.init, .push 1, .looper, .looper, .looper, .push 2, .looper, .looper, .looper]

theorem queueLaw_iff_noPush : (system fun _ : Nat => []).AllStates QueueLaw new
      [.init, .looper, .looper, .looper, .looper, .push 1] ↔
    (system fun _ : Nat => []).AllSteps FindsEmpty new
      [.init, .looper, .looper, .looper, .looper, .push 1] :=
  queueLaw_iff _ _ rfl

/-- The looper is blocked for good with both callbacks in the queue. -/
theorem queueLaw_fails : ∃ s, (system fun _ : Nat => []).run new pushTwice = some s ∧
    s.looperThread = .waiting false ∧ s.executed = [] ∧ s.pushed = [1, 2] ∧ ¬ s.QueueLaw :=
  ⟨_, rfl, rfl, rfl, rfl, fun h => absurd (h.blocked rfl) (by decide)⟩

end BlockQueue

end Sheep
