import Sheep.Net.TcpConnection

/-!
# `Timer`

A one-shot timer (`net/common/timer/timer.cpp`): `AsyncWait` hands a callback to an `Asyncer`, the
loop runs it and it sets up an event of the `TimerPoller`, and that event calls the handler.

A method returns the timer and the calls of the handler that it makes on the way, in their order.
`done_` is set before the handler is called, so that a handler that cancels the timer again changes
nothing.
-/

namespace Sheep

/-- An event of the `TimerPoller`: its `fd_` is the time it is due. -/
structure TimerEvent where
  fd : Int64
  readNotify : Bool
  deriving DecidableEq, Repr

structure Timer where
  handler : Option Handler
  /-- its callback has the handler -/
  asyncer : Option Asyncer
  /-- the delay that the callback of the asyncer has captured -/
  ms : UInt64
  event : Option TimerEvent
  done : Bool
  used : Bool
  deriving DecidableEq, Repr

/-- A call of a timer's handler, with its `errMsg`. -/
abbrev TimerCall := Handler × String

namespace Timer

/-- The constructor leaves `done_` as it is. It is looked at once there is a handler. -/
def new : Timer := ⟨none, none, 0, none, false, false⟩

/-- `asyncer_->Cancel()`, and the error path of the asyncer's callback. -/
def cancelAsyncer (t : Timer) : Timer × List TimerCall :=
  match t.asyncer with
  | some ⟨some h, _, false⟩ =>
    if t.done then ({ t with asyncer := some ⟨some h, false, true⟩ }, [])
    else ({ t with asyncer := some ⟨some h, false, true⟩, done := true },
      [(h, "Asyncer Canceled")])
  | some ⟨some h, _, true⟩ => ({ t with asyncer := some ⟨some h, false, true⟩ }, [])
  | _ => (t, [])

/-- `cancel`, once the asyncer is canceled. -/
def cancelEvent (t : Timer) : Timer × List TimerCall :=
  match t.event with
  | none => (t, [])
  | some e =>
    match t.done, t.handler with
    | false, some h =>
      ({ t with event := some { e with readNotify := false }, done := true },
        [(h, "Timer Canceled")])
    | _, _ => ({ t with event := some { e with readNotify := false } }, [])

def cancel (t : Timer) : Timer × List TimerCall :=
  (t.cancelAsyncer.1.cancelEvent.1, t.cancelAsyncer.2 ++ t.cancelAsyncer.1.cancelEvent.2)

def asyncWait (ms : UInt64) (h : Handler) (t : Timer) : Timer × List TimerCall :=
  if t.used then (t, [(h, "Timer can't reuse")])
  else
    match cancel { t with used := true, done := false } with
    | (t, calls) =>
      ({ t with handler := some h, asyncer := some ⟨some h, true, false⟩, ms := ms }, calls)

/-- The loop dispatches the asyncer's event: its callback sets up the timer's event. -/
def deliver (now : UInt64) (t : Timer) : Option Timer :=
  match t.asyncer with
  | some ⟨some h, true, false⟩ =>
    some { t with
      asyncer := some ⟨some h, false, true⟩
      event := some ⟨(now + t.ms).toInt64, true⟩ }
  | some ⟨some h, true, true⟩ => some { t with asyncer := some ⟨some h, false, true⟩ }
  | _ => none

/-- The poller has found the timer's event due at `now`, and the loop dispatches it. An empty
`handler_` would throw. -/
def expire (now : UInt64) (t : Timer) : Option (Timer × List TimerCall) :=
  match t.event with
  | some ⟨fd, true⟩ =>
    if fd ≤ now.toInt64 then
      if t.done then some ({ t with event := some ⟨fd, false⟩ }, [])
      else t.handler.map fun h =>
        ({ t with event := some ⟨fd, false⟩, done := true }, [(h, "")])
    else none
  | _ => none

/-- The destructor. The callbacks of the asyncer and the event find the timer gone. -/
def destroy (t : Timer) : List TimerCall :=
  match t.done, t.handler with
  | false, some h => [(h, "Timer Canceled")]
  | _, _ => []

/-- The handler has not been called, and the loop has the asyncer or the event still to dispatch. -/
structure Armed (t : Timer) (h : Handler) : Prop where
  notDone : t.done = false
  handler : t.handler = some h
  awaited : t.asyncer = some ⟨some h, true, false⟩ ∧ t.event = none ∨
    (∃ e, t.asyncer = some ⟨some h, false, true⟩ ∧ t.event = some e ∧ e.readNotify = true)

/-- The loop has nothing of the timer to dispatch any more. -/
structure Spent (t : Timer) : Prop where
  asyncer : ∀ a, t.asyncer = some a → a.readNotify = false
  event : ∀ e, t.event = some e → e.readNotify = false

variable {t t' : Timer} {h : Handler} {ms now : UInt64} {calls : List TimerCall}

theorem asyncWait_armed (ms : UInt64) (h : Handler) :
    (new.asyncWait ms h).1.Armed h ∧ (new.asyncWait ms h).2 = [] :=
  ⟨⟨rfl, rfl, .inl ⟨rfl, rfl⟩⟩, rfl⟩

/-- The delivery of the asyncer keeps the timer armed. -/
theorem Armed.deliver (ht : t.Armed h) (hd : t.deliver now = some t') : t'.Armed h := by
  rcases ht.awaited with ⟨hasyncer, -⟩ | ⟨e, hasyncer, -, -⟩
  · simp only [Timer.deliver, hasyncer, Option.some.injEq] at hd
    subst hd
    exact ⟨ht.notDone, ht.handler, .inr ⟨_, rfl, rfl, rfl⟩⟩
  · simp [Timer.deliver, hasyncer] at hd

/-- An armed timer that expires calls its handler, without an error. -/
theorem Armed.expire (ht : t.Armed h) (hx : t.expire now = some (t', calls)) :
    calls = [(h, "")] ∧ t'.Spent := by
  rcases ht.awaited with ⟨-, hevent⟩ | ⟨⟨fd, readNotify⟩, hasyncer, hevent, hnotify⟩
  · simp [Timer.expire, hevent] at hx
  · simp only at hnotify
    subst hnotify
    simp only [Timer.expire, hevent, ht.notDone, ht.handler, Bool.false_eq_true, if_false,
      Option.map_some] at hx
    split at hx
    next =>
      cases hx
      refine ⟨rfl, fun a ha => ?_, fun e he => ?_⟩
      · obtain rfl := Option.some.inj (hasyncer.symm.trans ha)
        rfl
      · cases he
        rfl
    next => cases hx

/-- The event of an armed timer is dispatched when its time has come. -/
theorem Armed.expire_isSome {e : TimerEvent} (ht : t.Armed h) (he : t.event = some e)
    (hdue : e.fd ≤ now.toInt64) : (t.expire now).isSome := by
  rcases ht.awaited with ⟨-, hnone⟩ | ⟨e', -, he', hnotify⟩
  · exact absurd (he.symm.trans hnone) nofun
  · obtain rfl : e = e' := Option.some.inj (he.symm.trans he')
    obtain ⟨fd, readNotify⟩ := e
    simp only at hnotify hdue
    subst hnotify
    simp [Timer.expire, he, hdue, ht.notDone, ht.handler]

/-- `Cancel` leaves nothing to dispatch. -/
theorem Armed.cancel (ht : t.Armed h) : t.cancel.1.Spent ∧ t.cancel.1.done = true := by
  unfold Timer.cancel cancelAsyncer
  rcases ht.awaited with ⟨hasyncer, hevent⟩ | ⟨e, hasyncer, hevent, -⟩
  · simp only [hasyncer, ht.notDone, cancelEvent, hevent, Bool.false_eq_true, if_false, and_true]
    refine ⟨fun a ha => ?_, nofun⟩
    cases ha
    rfl
  · simp only [hasyncer, cancelEvent, hevent, ht.notDone, ht.handler, and_true]
    refine ⟨fun a ha => ?_, fun e he => ?_⟩
    · cases ha
      rfl
    · cases he
      rfl

theorem Spent.cancelAsyncer (ht : t.Spent) : t.cancelAsyncer.1.Spent := by
  unfold Timer.cancelAsyncer
  split
  next =>
    split
    all_goals
      refine ⟨fun a ha => ?_, ht.event⟩
      cases ha
      rfl
  next =>
    refine ⟨fun a ha => ?_, ht.event⟩
    cases ha
    rfl
  next => exact ht

theorem Spent.cancelEvent (ht : t.Spent) : t.cancelEvent.1.Spent := by
  unfold Timer.cancelEvent
  split
  next => exact ht
  next =>
    split
    all_goals
      refine ⟨ht.asyncer, fun e he => ?_⟩
      cases he
      rfl

theorem Spent.cancel (ht : t.Spent) : t.cancel.1.Spent := ht.cancelAsyncer.cancelEvent

theorem Spent.deliver_none (ht : t.Spent) : t.deliver now = none := by
  unfold Timer.deliver
  split
  next ha => exact absurd (ht.asyncer _ ha) nofun
  next ha => exact absurd (ht.asyncer _ ha) nofun
  next => rfl

theorem Spent.expire_none (ht : t.Spent) : t.expire now = none := by
  unfold Timer.expire
  split
  next he => exact absurd (ht.event _ he) nofun
  next => rfl

theorem Spent.not_armed (ht : t.Spent) : ¬ t.Armed h := by
  intro harmed
  rcases harmed.awaited with ⟨ha, -⟩ | ⟨e, -, he, hnotify⟩
  · exact absurd (ht.asyncer _ ha) nofun
  · exact absurd ((ht.event e he).symm.trans hnotify) nofun

/-- `Cancel` calls the handler with an error only. -/
theorem cancel_calls (t : Timer) : ∀ call ∈ t.cancel.2, call.2 ≠ "" := by
  intro call hcall
  rcases List.mem_append.mp hcall with hcall | hcall
  · unfold cancelAsyncer at hcall
    split at hcall
    next =>
      split at hcall
      next => cases hcall
      next =>
        obtain rfl := List.mem_singleton.mp hcall
        show "Asyncer Canceled" ≠ ""
        decide
    next => cases hcall
    next => cases hcall
  · unfold cancelEvent at hcall
    split at hcall
    next => cases hcall
    next =>
      split at hcall
      next =>
        obtain rfl := List.mem_singleton.mp hcall
        show "Timer Canceled" ≠ ""
        decide
      next => cases hcall

/-- The destructor calls the handler with an error only. -/
theorem destroy_calls (t : Timer) : ∀ call ∈ t.destroy, call.2 ≠ "" := by
  intro call hcall
  unfold destroy at hcall
  split at hcall
  next =>
    obtain rfl := List.mem_singleton.mp hcall
    show "Timer Canceled" ≠ ""
    decide
  next => cases hcall

end Timer

end Sheep
