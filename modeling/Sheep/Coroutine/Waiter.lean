import Mathlib.Data.List.Basic

/-!
# Waiters of coroutines

The queue of `CoroutineWaiter` objects behind `CoConditionVariable` and `CoMutex`, and the
notifying half of `ConditionVariable`, which tries the coroutines first and the threads after.

`std::queue::push` copies. The queue holds one object, the waiting coroutine keeps another, and
`isCanceled` is set on the one that the coroutine keeps.
-/

namespace Sheep

/-- A coroutine: the scheduler it runs on and its slot there. -/
structure Coro where
  sched : Nat
  info : Nat
  deriving DecidableEq, Repr

structure CoroutineWaiter where
  /-- `currentCoroScheduler()`, null on a plain thread -/
  sched : Option Nat
  /-- `currentCoro()` -/
  info : Nat
  isCanceled : Bool
  /-- ghost: the number of the call that built the object -/
  call : Nat
  deriving DecidableEq, Repr

/-- How a waiter blocks its coroutine. -/
inductive Blocking
  | suspend
  | sleep (ms : Int)
  deriving DecidableEq, Repr

namespace CoroutineWaiter

/-- The coroutine given to `resume`. -/
def wakeup (w : CoroutineWaiter) : Option Coro := w.sched.map fun sched => ⟨sched, w.info⟩

/-- The first half of `wait`, up to the point where the coroutine is switched out. -/
def wait (w : CoroutineWaiter) (milliseconds : Int) : Except String Blocking :=
  match w.sched with
  | none => .error "CoroutineCondition::wait() must be called in coroutine"
  | some _ => .ok (if milliseconds = -1 then .suspend else .sleep milliseconds)

/-- The second half of `wait`, after `lock.lock()`. -/
def cancel (w : CoroutineWaiter) : CoroutineWaiter := { w with isCanceled := true }

end CoroutineWaiter

structure NotifyResult where
  /-- the objects whose `wakeup` was called, in that order -/
  taken : List CoroutineWaiter
  waiters : List CoroutineWaiter
  notifyCount : Nat
  deriving DecidableEq, Repr

namespace NotifyResult

def resumed (r : NotifyResult) : List Coro := r.taken.filterMap (·.wakeup)

/-- The object that the call with this number built was woken. -/
def takes (r : NotifyResult) (call : Nat) : Bool := r.taken.any (·.call = call)

end NotifyResult

/-- The loop of `notify_nolock`. -/
def notifyNolock (isAll : Bool) : List CoroutineWaiter → NotifyResult
  | [] => ⟨[], [], 0⟩
  | front :: rest =>
    if front.isCanceled then notifyNolock isAll rest
    else if isAll then
      let r := notifyNolock isAll rest
      { r with taken := front :: r.taken, notifyCount := r.notifyCount + 1 }
    else ⟨[front], rest, 1⟩

theorem notifyNolock_one {ws : List CoroutineWaiter} (h : ∀ w ∈ ws, w.isCanceled = false) :
    notifyNolock false ws = ⟨ws.take 1, ws.drop 1, (ws.take 1).length⟩ := by
  cases ws with
  | nil => rfl
  | cons w ws => simp [notifyNolock, h w List.mem_cons_self]

theorem notifyNolock_all {ws : List CoroutineWaiter} (h : ∀ w ∈ ws, w.isCanceled = false) :
    notifyNolock true ws = ⟨ws, [], ws.length⟩ := by
  induction ws with
  | nil => rfl
  | cons w ws ih =>
    have hw : w.isCanceled = false := h w List.mem_cons_self
    have ih' := ih fun v hv => h v (List.mem_cons_of_mem w hv)
    simp [notifyNolock, hw, ih']

/-- `CoConditionVariable`. -/
structure CoConditionVariable where
  waiters : List CoroutineWaiter
  deriving DecidableEq, Repr

namespace CoConditionVariable

/-- `wait` up to the point where the coroutine is switched out: the queue gets a copy of
`waiter`. -/
def wait (cv : CoConditionVariable) (waiter : CoroutineWaiter) (milliseconds : Int) :
    CoConditionVariable × Except String Blocking :=
  (⟨cv.waiters ++ [waiter]⟩, waiter.wait milliseconds)

def notifyOne (cv : CoConditionVariable) : NotifyResult := notifyNolock false cv.waiters

def notifyAll (cv : CoConditionVariable) : NotifyResult := notifyNolock true cv.waiters

end CoConditionVariable

/-- What `ConditionVariable::notify_one` does: it notifies the coroutines, and, when that resumed
nobody, `cv_`. -/
def ConditionVariable.notifyOne (coCv : CoConditionVariable) : NotifyResult × Bool :=
  let r := coCv.notifyOne
  (r, r.notifyCount == 0)

end Sheep
