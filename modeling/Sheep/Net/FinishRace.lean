import Sheep.Lib.System
import Sheep.Net.TcpConnection

/-!
# `Finish` against a delivery

`finishRace h errMsg` is a connection on which one `AsyncWrite(h)` waits for the loop, the loop
thread with the event callback of its asyncer, and another thread that calls `Finish(errMsg)`. A
step is one read or write of shared state, so a run is one interleaving of the two threads.

`RaceLaw`: when both have completed, `h` has been called exactly once, and `event_` was not used
after `Finish` had set it to null. `raceLaw_iff`: a complete run keeps the law exactly when
`Finish` does not take `lock_` between the delivery's test of `done_` and the delivery's own
`lock_`, and the delivery does not find `done_` unset while `Finish` has `lock_`. The asyncer's
`done_` is set outside of `lock_`, and in that window `Finish` finds neither an asyncer to cancel
nor a handler to call.
-/

namespace Sheep

/-- The next step of the asyncer's event callback, from `Event::Do` on. -/
inductive DeliverPc
  /-- `readAble_ && readNotify_` -/
  | poll
  /-- `event_->DisableReadNotify()` -/
  | disable
  /-- `if (!done_)` -/
  | check
  /-- `done_ = true` -/
  | setDone
  /-- the handler given to `AsyncDo` takes `lock_` -/
  | lock
  /-- `userWriteHandler_ = handler` -/
  | store
  /-- `event_->SetWriteEvent` -/
  | setWriteEvent
  /-- `event_->EnableWriteNotify()`, and `lock_` is released -/
  | enable
  | done
  deriving DecidableEq, Repr

/-- The next step of `Finish`. -/
inductive FinishPc
  | lock
  /-- `if (finished_)` and `finished_ = true` -/
  | test
  /-- `asyncer_->Cancel()`: `event_->DisableReadNotify()` -/
  | disable
  /-- `asyncer_->Cancel()`: `if (!done_)` -/
  | check
  /-- `asyncer_->Cancel()`: `done_ = true` -/
  | setDone
  /-- `asyncer_->Cancel()`: `handler_("Asyncer Canceled")` -/
  | callCanceled
  /-- `if (!writeDone_ && userWriteHandler_)` and `writeDone_ = true` -/
  | write
  /-- `userWriteHandler_("Finished")` -/
  | callWrite
  /-- `event_ = nullptr` -/
  | drop
  /-- `finishHandler_`, and `lock_` is released -/
  | callFinish
  | done
  deriving DecidableEq, Repr

inductive RaceThread
  | deliver
  | finish
  deriving DecidableEq, Repr

structure Race where
  conn : TcpConnection
  /-- `lock_` -/
  lock : Option RaceThread
  deliverPc : DeliverPc
  finishPc : FinishPc
  /-- ghost: the handler calls, the latest first -/
  calls : List Call
  /-- ghost: the delivered handler has used `event_` after it was set to null -/
  usedNull : Bool
  deriving DecidableEq, Repr

namespace Race

variable (h : Handler) (errMsg : String)

/-- The connection once `AsyncWrite(h)` has returned. -/
def written : TcpConnection :=
  { TcpConnection.connected with asyncer := some ⟨some h, true, false⟩ }

theorem asyncWrite_connected :
    TcpConnection.connected.asyncWrite h = some (written h).return_ := rfl

def init : Race := ⟨written h, none, .poll, .lock, [], false⟩

/-- `done_` of the asyncer. -/
def asyncerDone (s : Race) : Bool := s.conn.asyncer.any (·.done)

def disableAsyncer (s : Race) : Race :=
  { s with conn := { s.conn with
      asyncer := s.conn.asyncer.map fun a => { a with readNotify := false } } }

def setAsyncerDone (s : Race) : Race :=
  { s with conn := { s.conn with asyncer := s.conn.asyncer.map fun a => { a with done := true } } }

def stepDeliver (s : Race) : Option Race :=
  match s.deliverPc with
  | .poll =>
    if s.conn.asyncer.any (·.readNotify) then some { s with deliverPc := .disable }
    else some { s with deliverPc := .done }
  | .disable => some { s.disableAsyncer with deliverPc := .check }
  | .check => some { s with deliverPc := if s.asyncerDone then .done else .setDone }
  | .setDone => some { s.setAsyncerDone with deliverPc := .lock }
  | .lock =>
    if s.lock = none then some { s with lock := some .deliver, deliverPc := .store } else none
  | .store => some { s with
      conn := { s.conn with userWriteHandler := s.conn.asyncer.bind (·.handler) }
      deliverPc := .setWriteEvent }
  | .setWriteEvent => some { s with
      usedNull := s.usedNull || s.conn.event.isNone, deliverPc := .enable }
  | .enable => some { s with
      conn := { s.conn with event := s.conn.event.map fun e => { e with writeNotify := true } }
      lock := none
      deliverPc := .done }
  | .done => none

def stepFinish (s : Race) : Option Race :=
  match s.finishPc with
  | .lock => if s.lock = none then some { s with lock := some .finish, finishPc := .test } else none
  | .test =>
    if s.conn.finished then some { s with lock := none, finishPc := .done }
    else some { s with conn := { s.conn with finished := true }, finishPc := .disable }
  | .disable => some { s.disableAsyncer with finishPc := .check }
  | .check => some { s with finishPc := if s.asyncerDone then .write else .setDone }
  | .setDone => some { s.setAsyncerDone with finishPc := .callCanceled }
  | .callCanceled => (s.conn.asyncer.bind (·.handler)).map fun h =>
      { s with calls := .write h "Asyncer Canceled" :: s.calls, finishPc := .write }
  | .write =>
    if !s.conn.writeDone && s.conn.userWriteHandler.isSome then
      some { s with conn := { s.conn with writeDone := true }, finishPc := .callWrite }
    else some { s with finishPc := .drop }
  | .callWrite => s.conn.userWriteHandler.map fun h =>
      { s with calls := .write h "Finished" :: s.calls, finishPc := .drop }
  | .drop => some { s with conn := { s.conn with event := none }, finishPc := .callFinish }
  | .callFinish => some { s with
      calls := .finish errMsg :: s.calls, lock := none, finishPc := .done }
  | .done => none

def step (s : Race) : RaceThread → Option Race
  | .deliver => s.stepDeliver
  | .finish => s.stepFinish errMsg

def writeCalls (s : Race) : Nat :=
  s.calls.countP fun | .write k _ => k = h | _ => false

end Race

/-- The two threads on a connection with one `AsyncWrite(h)`. -/
def finishRace (h : Handler) (errMsg : String) : System Race RaceThread :=
  ⟨.init h, Race.step errMsg⟩

/-- The contract, once both threads have completed. -/
structure RaceLaw (h : Handler) (s : Race) : Prop where
  once : s.writeCalls h = 1
  eventLive : s.usedNull = false

/-- The condition on a step: the hand-over from `done_` to `lock_` is not interrupted. -/
def HandedOver (s : Race) : RaceThread → Prop
  | .deliver => s.deliverPc = .check → s.asyncerDone = false → s.finishPc = .lock
  | .finish => s.finishPc = .lock → s.deliverPc ≠ .setDone ∧ s.deliverPc ≠ .lock

instance : ∀ s a, Decidable (HandedOver s a)
  | s, .deliver => inferInstanceAs (Decidable
      (s.deliverPc = .check → s.asyncerDone = false → s.finishPc = .lock))
  | s, .finish => inferInstanceAs (Decidable
      (s.finishPc = .lock → s.deliverPc ≠ .setDone ∧ s.deliverPc ≠ .lock))

/-! ## The invariant -/

/-- The delivery holds `lock_`. -/
def DeliverPc.locked : DeliverPc → Bool
  | .store | .setWriteEvent | .enable => true
  | _ => false

/-- The delivery has not taken the handler from the asyncer, or has finished. -/
def DeliverPc.outside : DeliverPc → Bool
  | .poll | .disable | .check | .done => true
  | _ => false

/-- `Finish` holds `lock_`. -/
def FinishPc.locked : FinishPc → Bool
  | .lock | .done => false
  | _ => true

/-- `Finish` has not yet come past `Cancel`. -/
def FinishPc.early : FinishPc → Bool
  | .lock | .test | .disable | .check => true
  | _ => false

/-- What holds in every state. -/
structure RaceBase (h : Handler) (s : Race) : Prop where
  handler : s.conn.asyncer.bind (·.handler) = some h
  deliverLock : s.deliverPc.locked = true → s.lock = some .deliver
  finishLock : s.finishPc.locked = true → s.lock = some .finish
  finished : s.conn.finished = true → s.finishPc ≠ .lock ∧ s.finishPc ≠ .test
  event : s.conn.event = none ↔ s.finishPc = .callFinish ∨ s.finishPc = .done

/-- Who has to see to it that the handler is called. -/
inductive HandlerOwner
  | asyncer
  | delivery
  | connection
  /-- `Finish`, through the asyncer -/
  | canceled
  /-- `Finish`, through `userWriteHandler_` -/
  | finishing
  /-- it has been called -/
  | nobody

/-- Where the two threads are while the handler is with an owner. -/
def HandlerOwner.Has (h : Handler) (s : Race) : HandlerOwner → Prop
  | .asyncer => s.asyncerDone = false ∧ s.writeCalls h = 0 ∧ s.conn.userWriteHandler = none ∧
      s.conn.writeDone = false ∧ s.deliverPc.outside = true ∧
      (s.finishPc.early = true ∨ s.finishPc = .setDone)
  | .delivery => s.writeCalls h = 0 ∧ s.conn.writeDone = false ∧ s.finishPc = .lock ∧
      (s.deliverPc = .setDone ∨
        (s.asyncerDone = true ∧ (s.deliverPc = .lock ∨ s.deliverPc = .store)))
  | .connection => s.asyncerDone = true ∧ s.writeCalls h = 0 ∧
      s.conn.userWriteHandler = some h ∧ s.conn.writeDone = false ∧
      (s.deliverPc = .setWriteEvent ∨ s.deliverPc = .enable ∨ s.deliverPc = .done) ∧
      (s.finishPc.early = true ∨ s.finishPc = .write)
  | .canceled => s.asyncerDone = true ∧ s.writeCalls h = 0 ∧ s.conn.userWriteHandler = none ∧
      s.deliverPc.outside = true ∧ s.finishPc = .callCanceled
  | .finishing => s.asyncerDone = true ∧ s.writeCalls h = 0 ∧
      s.conn.userWriteHandler = some h ∧ s.deliverPc = .done ∧ s.finishPc = .callWrite
  | .nobody => s.asyncerDone = true ∧ s.writeCalls h = 1 ∧ s.deliverPc.outside = true ∧
      ((s.finishPc = .write ∧ s.conn.userWriteHandler = none) ∨ s.finishPc = .drop ∨
        s.finishPc = .callFinish ∨ s.finishPc = .done)

/-- The states before an interrupted hand-over: the handler has an owner. -/
structure RaceOwned (h : Handler) (s : Race) : Prop extends RaceBase h s where
  eventLive : s.usedNull = false
  owner : ∃ o : HandlerOwner, o.Has h s

/-- The states after an interrupted hand-over: the delivery uses `event_` when `Finish` is done. -/
structure RaceInterrupted (h : Handler) (s : Race) : Prop extends RaceBase h s where
  started : s.finishPc ≠ .lock
  late : s.deliverPc = .setDone ∨ s.deliverPc = .lock ∨
    ((s.deliverPc = .store ∨ s.deliverPc = .setWriteEvent) ∧ s.finishPc = .done) ∨
    ((s.deliverPc = .enable ∨ s.deliverPc = .done) ∧ s.usedNull = true)

namespace Race

variable {h : Handler} {errMsg : String} {s t : Race}

@[simp] theorem disableAsyncer_done (s : Race) : s.disableAsyncer.asyncerDone = s.asyncerDone := by
  unfold disableAsyncer asyncerDone
  cases s.conn.asyncer <;> rfl

@[simp] theorem disableAsyncer_handler (s : Race) :
    s.disableAsyncer.conn.asyncer.bind (·.handler) = s.conn.asyncer.bind (·.handler) := by
  unfold disableAsyncer
  cases s.conn.asyncer <;> rfl

@[simp] theorem setAsyncerDone_handler (s : Race) :
    s.setAsyncerDone.conn.asyncer.bind (·.handler) = s.conn.asyncer.bind (·.handler) := by
  unfold setAsyncerDone
  cases s.conn.asyncer <;> rfl

theorem setAsyncerDone_done (hh : s.conn.asyncer.bind (·.handler) = some h) :
    s.setAsyncerDone.asyncerDone = true := by
  unfold setAsyncerDone asyncerDone
  cases ha : s.conn.asyncer with
  | none => simp [ha] at hh
  | some a => rfl

/-- `Finish` leaves the delivery where it is. -/
theorem stepFinish_frame (hstep : s.stepFinish errMsg = some t) :
    t.deliverPc = s.deliverPc ∧ t.usedNull = s.usedNull ∧ t.finishPc ≠ .lock ∧
      s.finishPc ≠ .done := by
  unfold stepFinish at hstep
  split at hstep
  all_goals rename_i hpc; rw [hpc]
  · split at hstep <;> cases hstep
    exact ⟨rfl, rfl, nofun, nofun⟩
  · split at hstep <;> cases hstep <;> exact ⟨rfl, rfl, nofun, nofun⟩
  · cases hstep; exact ⟨rfl, rfl, nofun, nofun⟩
  · cases hstep
    refine ⟨rfl, rfl, ?_, nofun⟩
    cases s.asyncerDone <;> exact nofun
  · cases hstep; exact ⟨rfl, rfl, nofun, nofun⟩
  · obtain ⟨k, -, rfl⟩ := Option.map_eq_some_iff.mp hstep
    exact ⟨rfl, rfl, nofun, nofun⟩
  · split at hstep <;> cases hstep <;> exact ⟨rfl, rfl, nofun, nofun⟩
  · obtain ⟨k, -, rfl⟩ := Option.map_eq_some_iff.mp hstep
    exact ⟨rfl, rfl, nofun, nofun⟩
  · cases hstep; exact ⟨rfl, rfl, nofun, nofun⟩
  · cases hstep; exact ⟨rfl, rfl, nofun, nofun⟩
  · cases hstep

theorem writeCalls_write (s : Race) (e : String) (pc : FinishPc) :
    writeCalls h { s with calls := .write h e :: s.calls, finishPc := pc } =
      s.writeCalls h + 1 := by
  simp [writeCalls]

theorem writeCalls_finish (s : Race) (e : String) (lock : Option RaceThread) (pc : FinishPc) :
    writeCalls h { s with calls := .finish e :: s.calls, lock := lock, finishPc := pc } =
      s.writeCalls h := by
  simp [writeCalls]

end Race

namespace RaceBase

open Race

variable {h : Handler} {errMsg : String} {s t : Race}

/-- A step of the delivery keeps what does not concern it. -/
theorem ofDeliver (hs : RaceBase h s) (hhandler : t.conn.asyncer.bind (·.handler) = some h)
    (hlock : t.deliverPc.locked = true → t.lock = some .deliver)
    (hother : s.lock = some .finish → t.lock = some .finish)
    (hpc : t.finishPc = s.finishPc) (hfin : t.conn.finished = s.conn.finished)
    (hevent : t.conn.event = none ↔ s.conn.event = none) : RaceBase h t :=
  ⟨hhandler, hlock, fun h' => hother (hs.finishLock (hpc ▸ h')),
    by rw [hfin, hpc]; exact hs.finished, by rw [hevent, hpc]; exact hs.event⟩

theorem deliver (hs : RaceBase h s) (hstep : s.stepDeliver = some t) : RaceBase h t := by
  unfold stepDeliver at hstep
  split at hstep
  next =>
    split at hstep <;> cases hstep
    all_goals exact hs.ofDeliver hs.handler nofun id rfl rfl .rfl
  next =>
    cases hstep
    exact hs.ofDeliver ((disableAsyncer_handler s).trans hs.handler) nofun id rfl rfl .rfl
  next =>
    cases hstep
    refine hs.ofDeliver hs.handler (fun hl => ?_) id rfl rfl .rfl
    revert hl
    cases s.asyncerDone <;> exact nofun
  next =>
    cases hstep
    exact hs.ofDeliver ((setAsyncerDone_handler s).trans hs.handler) nofun id rfl rfl .rfl
  next =>
    split at hstep
    next hfree =>
      cases hstep
      exact hs.ofDeliver hs.handler (fun _ => rfl) (fun hl => absurd (hfree.symm.trans hl) nofun)
        rfl rfl .rfl
    next => cases hstep
  next hpc =>
    cases hstep
    exact hs.ofDeliver hs.handler (fun _ => hs.deliverLock (by rw [hpc]; rfl)) id rfl rfl .rfl
  next hpc =>
    cases hstep
    exact hs.ofDeliver hs.handler (fun _ => hs.deliverLock (by rw [hpc]; rfl)) id rfl rfl .rfl
  next hpc =>
    cases hstep
    have hlock := hs.deliverLock (by rw [hpc]; rfl)
    exact hs.ofDeliver hs.handler nofun (fun hl => absurd (hlock.symm.trans hl) nofun) rfl rfl
      (by simp)
  next => cases hstep

/-- A step of `Finish` keeps what does not concern it. -/
theorem ofFinish (hs : RaceBase h s) (hhandler : t.conn.asyncer.bind (·.handler) = some h)
    (hlock : t.finishPc.locked = true → t.lock = some .finish)
    (hother : s.lock = some .deliver → t.lock = some .deliver)
    (hpc : t.deliverPc = s.deliverPc)
    (hfin : t.conn.finished = true → t.finishPc ≠ .lock ∧ t.finishPc ≠ .test)
    (hevent : t.conn.event = none ↔ t.finishPc = .callFinish ∨ t.finishPc = .done) :
    RaceBase h t :=
  ⟨hhandler, fun h' => hother (hs.deliverLock (hpc ▸ h')), hlock, hfin, hevent⟩

/-- A step of `Finish` that leaves the lock with it. -/
theorem ofFinishLocked (hs : RaceBase h s) (hlocked : s.finishPc.locked = true)
    (hhandler : t.conn.asyncer.bind (·.handler) = some h) (hlock : t.lock = s.lock)
    (hpc : t.deliverPc = s.deliverPc) (hfin : t.finishPc ≠ .lock ∧ t.finishPc ≠ .test)
    (hevent : t.conn.event = none ↔ t.finishPc = .callFinish ∨ t.finishPc = .done) :
    RaceBase h t :=
  hs.ofFinish hhandler (fun _ => hlock.trans (hs.finishLock hlocked)) hlock.trans hpc
    (fun _ => hfin) hevent

theorem finish (hs : RaceBase h s) (hstep : s.stepFinish errMsg = some t) : RaceBase h t := by
  have hevent := hs.event
  unfold stepFinish at hstep
  split at hstep
  all_goals
    rename_i hpc
    simp only [hpc, reduceCtorEq, or_self, iff_false, or_true, true_or, iff_true] at hevent
  · split at hstep
    next hfree =>
      cases hstep
      have hfin : s.conn.finished ≠ true := fun hc => (hs.finished hc).1 hpc
      exact hs.ofFinish hs.handler (fun _ => rfl) (fun hl => absurd (hfree.symm.trans hl) nofun) rfl
        (fun hc => absurd hc hfin) (by simpa using hevent)
    next => cases hstep
  · split at hstep
    next hc => exact absurd hpc (hs.finished hc).2
    next =>
      cases hstep
      exact hs.ofFinishLocked (by rw [hpc]; rfl) hs.handler rfl rfl ⟨nofun, nofun⟩
        (by simpa using hevent)
  · cases hstep
    exact hs.ofFinishLocked (by rw [hpc]; rfl) ((disableAsyncer_handler s).trans hs.handler) rfl rfl
      ⟨nofun, nofun⟩ (by simpa [disableAsyncer] using hevent)
  · cases hstep
    refine hs.ofFinishLocked (by rw [hpc]; rfl) hs.handler rfl rfl ?_ ?_
    · cases s.asyncerDone <;> exact ⟨nofun, nofun⟩
    · cases s.asyncerDone <;> simpa using hevent
  · cases hstep
    exact hs.ofFinishLocked (by rw [hpc]; rfl) ((setAsyncerDone_handler s).trans hs.handler) rfl rfl
      ⟨nofun, nofun⟩ (by simpa [setAsyncerDone] using hevent)
  · obtain ⟨k, -, rfl⟩ := Option.map_eq_some_iff.mp hstep
    exact hs.ofFinishLocked (by rw [hpc]; rfl) hs.handler rfl rfl ⟨nofun, nofun⟩
      (by simpa using hevent)
  · split at hstep <;> cases hstep
    all_goals
      exact hs.ofFinishLocked (by rw [hpc]; rfl) hs.handler rfl rfl ⟨nofun, nofun⟩
        (by simpa using hevent)
  · obtain ⟨k, -, rfl⟩ := Option.map_eq_some_iff.mp hstep
    exact hs.ofFinishLocked (by rw [hpc]; rfl) hs.handler rfl rfl ⟨nofun, nofun⟩
      (by simpa using hevent)
  · cases hstep
    exact hs.ofFinishLocked (by rw [hpc]; rfl) hs.handler rfl rfl ⟨nofun, nofun⟩ (by simp)
  · have hlock := hs.finishLock (by rw [hpc]; rfl)
    cases hstep
    exact hs.ofFinish hs.handler nofun (fun hl => absurd (hlock.symm.trans hl) nofun) rfl
      (fun _ => ⟨nofun, nofun⟩) (by simpa using hevent)
  · cases hstep

end RaceBase

namespace RaceOwned

open Race

variable {h : Handler} {errMsg : String} {s t : Race}

theorem init : RaceOwned h (finishRace h errMsg).init where
  handler := rfl
  deliverLock := nofun
  finishLock := nofun
  finished := nofun
  event := ⟨nofun, fun hc => by rcases hc with hc | hc <;> cases hc⟩
  eventLive := rfl
  owner := ⟨.asyncer, rfl, rfl, rfl, rfl, rfl, .inl rfl⟩

/-- While the delivery is not inside of its handler, only the asyncer's flags change. -/
theorem stays (hs : RaceOwned h s) (hbase : RaceBase h t) (hlive : t.usedNull = s.usedNull)
    (hdone : t.asyncerDone = s.asyncerDone) (hcalls : t.calls = s.calls)
    (hwrite : t.conn.userWriteHandler = s.conn.userWriteHandler)
    (hwriteDone : t.conn.writeDone = s.conn.writeDone) (hfinish : t.finishPc = s.finishPc)
    (hfrom : s.deliverPc.outside = true) (hto : t.deliverPc.outside = true)
    (hpc : s.deliverPc = .done → t.deliverPc = .done) : RaceOwned h t := by
  obtain ⟨o, ho⟩ := hs.owner
  have hcount : t.writeCalls h = s.writeCalls h := by unfold writeCalls; rw [hcalls]
  refine ⟨hbase, hlive.trans hs.eventLive, o, ?_⟩
  cases o with
  | asyncer =>
    obtain ⟨h1, h2, h3, h4, -, h6⟩ := ho
    exact ⟨hdone.trans h1, hcount.trans h2, hwrite.trans h3, hwriteDone.trans h4, hto, hfinish ▸ h6⟩
  | delivery =>
    obtain ⟨-, -, -, h4⟩ := ho
    rcases h4 with h4 | ⟨-, h4 | h4⟩ <;> simp [h4, DeliverPc.outside] at hfrom
  | connection =>
    obtain ⟨h1, h2, h3, h4, h5, h6⟩ := ho
    refine ⟨hdone.trans h1, hcount.trans h2, hwrite.trans h3, hwriteDone.trans h4, ?_, hfinish ▸ h6⟩
    rcases h5 with h5 | h5 | h5
    · simp [h5, DeliverPc.outside] at hfrom
    · simp [h5, DeliverPc.outside] at hfrom
    · exact .inr (.inr (hpc h5))
  | canceled =>
    obtain ⟨h1, h2, h3, -, h5⟩ := ho
    exact ⟨hdone.trans h1, hcount.trans h2, hwrite.trans h3, hto, hfinish.trans h5⟩
  | finishing =>
    obtain ⟨h1, h2, h3, h4, h5⟩ := ho
    exact ⟨hdone.trans h1, hcount.trans h2, hwrite.trans h3, hpc h4, hfinish.trans h5⟩
  | nobody =>
    obtain ⟨h1, h2, -, h4⟩ := ho
    exact ⟨hdone.trans h1, hcount.trans h2, hto, by rwa [hfinish, hwrite]⟩

/-- A step of the delivery that does not find `done_` unset while `Finish` runs. -/
theorem deliver (hs : RaceOwned h s) (hG : HandedOver s .deliver) (hstep : s.stepDeliver = some t) :
    RaceOwned h t := by
  have hbase := hs.toRaceBase.deliver hstep
  obtain ⟨o, ho⟩ := hs.owner
  unfold stepDeliver at hstep
  split at hstep
  next hpc =>
    split at hstep <;> cases hstep
    all_goals
      exact hs.stays hbase rfl rfl rfl rfl rfl rfl (by rw [hpc]; rfl) rfl
        fun hd => absurd (hpc.symm.trans hd) nofun
  next hpc =>
    cases hstep
    exact hs.stays hbase rfl (disableAsyncer_done s) rfl rfl rfl rfl (by rw [hpc]; rfl) rfl
      fun hd => absurd (hpc.symm.trans hd) nofun
  next hpc =>
    cases hstep
    cases hdone : s.asyncerDone with
    | true =>
      rw [hdone] at hbase
      exact hs.stays hbase rfl rfl rfl rfl rfl rfl (by rw [hpc]; rfl) rfl
        fun hd => absurd (hpc.symm.trans hd) nofun
    | false =>
      -- the delivery takes the handler over, and `Finish` has not begun
      rw [hdone] at hbase
      have hlock := hG hpc hdone
      refine ⟨hbase, hs.eventLive, .delivery, ?_⟩
      cases o with
      | asyncer => exact ⟨ho.2.1, ho.2.2.2.1, hlock, .inl rfl⟩
      | delivery | connection | canceled | finishing | nobody =>
        simp [HandlerOwner.Has, hdone, hpc] at ho
  next hpc =>
    cases hstep
    cases o with
    | delivery =>
      exact ⟨hbase, hs.eventLive, .delivery, ho.1, ho.2.1, ho.2.2.1,
        .inr ⟨setAsyncerDone_done hs.handler, .inl rfl⟩⟩
    | asyncer | connection | canceled | finishing | nobody =>
      simp [HandlerOwner.Has, hpc, DeliverPc.outside] at ho
  next hpc =>
    split at hstep
    next =>
      cases hstep
      cases o with
      | delivery =>
        obtain ⟨h1, h2, h3, h4 | ⟨hdone, -⟩⟩ := ho
        · exact absurd (hpc.symm.trans h4) nofun
        · exact ⟨hbase, hs.eventLive, .delivery, h1, h2, h3, .inr ⟨hdone, .inr rfl⟩⟩
      | asyncer | connection | canceled | finishing | nobody =>
        simp [HandlerOwner.Has, hpc, DeliverPc.outside] at ho
    next => cases hstep
  next hpc =>
    cases hstep
    cases o with
    | delivery =>
      obtain ⟨h1, h2, h3, h4 | ⟨hdone, -⟩⟩ := ho
      · exact absurd (hpc.symm.trans h4) nofun
      · exact ⟨hbase, hs.eventLive, .connection, hdone, h1, hs.handler, h2, .inl rfl,
          .inl (by show s.finishPc.early = true; rw [h3]; rfl)⟩
    | asyncer | connection | canceled | finishing | nobody =>
      simp [HandlerOwner.Has, hpc, DeliverPc.outside] at ho
  next hpc =>
    cases hstep
    cases o with
    | connection =>
      obtain ⟨h1, h2, h3, h4, -, h6⟩ := ho
      have hevent : s.conn.event ≠ none := fun hc => by
        rcases hs.event.mp hc with hf | hf <;> simp [hf, FinishPc.early] at h6
      refine ⟨hbase, ?_, .connection, h1, h2, h3, h4, .inr (.inl rfl), h6⟩
      show (s.usedNull || s.conn.event.isNone) = false
      rw [hs.eventLive, Bool.false_or, Option.isNone_eq_false_iff]
      exact Option.isSome_iff_ne_none.mpr hevent
    | asyncer | delivery | canceled | finishing | nobody =>
      simp [HandlerOwner.Has, hpc, DeliverPc.outside] at ho
  next hpc =>
    cases hstep
    cases o with
    | connection =>
      obtain ⟨h1, h2, h3, h4, -, h6⟩ := ho
      exact ⟨hbase, hs.eventLive, .connection, h1, h2, h3, h4, .inr (.inr rfl), h6⟩
    | asyncer | delivery | canceled | finishing | nobody =>
      simp [HandlerOwner.Has, hpc, DeliverPc.outside] at ho
  next => cases hstep

/-- A step of `Finish` on its way to `Cancel`: the handler stays with the asyncer, or with the
connection if the asyncer has run it. -/
theorem approaches (hs : RaceOwned h s) (hbase : RaceBase h t) (hlive : t.usedNull = s.usedNull)
    (hdone : t.asyncerDone = s.asyncerDone) (hcalls : t.calls = s.calls)
    (hwrite : t.conn.userWriteHandler = s.conn.userWriteHandler)
    (hwriteDone : t.conn.writeDone = s.conn.writeDone) (hdeliver : t.deliverPc = s.deliverPc)
    (hfrom : s.finishPc.early = true) (hdelivery : ¬ HandlerOwner.delivery.Has h s)
    (hasyncer : s.asyncerDone = false → t.finishPc.early = true ∨ t.finishPc = .setDone)
    (hconn : s.asyncerDone = true → t.finishPc.early = true ∨ t.finishPc = .write) :
    RaceOwned h t := by
  obtain ⟨o, ho⟩ := hs.owner
  have hcount : t.writeCalls h = s.writeCalls h := by unfold writeCalls; rw [hcalls]
  cases o with
  | asyncer =>
    obtain ⟨h1, h2, h3, h4, h5, -⟩ := ho
    exact ⟨hbase, hlive.trans hs.eventLive, .asyncer, hdone.trans h1, hcount.trans h2,
      hwrite.trans h3, hwriteDone.trans h4, hdeliver ▸ h5, hasyncer h1⟩
  | delivery => exact absurd ho hdelivery
  | connection =>
    obtain ⟨h1, h2, h3, h4, h5, -⟩ := ho
    exact ⟨hbase, hlive.trans hs.eventLive, .connection, hdone.trans h1, hcount.trans h2,
      hwrite.trans h3, hwriteDone.trans h4, hdeliver ▸ h5, hconn h1⟩
  | canceled =>
    obtain ⟨-, -, -, -, h5⟩ := ho
    simp [h5, FinishPc.early] at hfrom
  | finishing =>
    obtain ⟨-, -, -, -, h5⟩ := ho
    simp [h5, FinishPc.early] at hfrom
  | nobody =>
    obtain ⟨-, -, -, h4⟩ := ho
    rcases h4 with ⟨h4, -⟩ | h4 | h4 | h4 <;> simp [h4, FinishPc.early] at hfrom

/-- A step of `Finish` that does not take `lock_` from under a delivery. -/
theorem finish (hs : RaceOwned h s) (hG : HandedOver s .finish)
    (hstep : s.stepFinish errMsg = some t) : RaceOwned h t := by
  have hbase := hs.toRaceBase.finish hstep
  obtain ⟨o, ho⟩ := hs.owner
  unfold stepFinish at hstep
  split at hstep
  next hpc =>
    split at hstep
    next hfree =>
      cases hstep
      refine hs.approaches hbase rfl rfl rfl rfl rfl rfl (by rw [hpc]; rfl) ?_ (fun _ => .inl rfl)
        fun _ => .inl rfl
      rintro ⟨-, -, -, h4 | ⟨-, h4 | h4⟩⟩
      · exact absurd h4 (hG hpc).1
      · exact absurd h4 (hG hpc).2
      · have hlock := hs.deliverLock (by rw [h4]; rfl)
        exact absurd (hfree.symm.trans hlock) nofun
    next => cases hstep
  next hpc =>
    split at hstep
    next hc => exact absurd hpc (hs.finished hc).2
    next =>
      cases hstep
      exact hs.approaches hbase rfl rfl rfl rfl rfl rfl (by rw [hpc]; rfl)
        (by simp [HandlerOwner.Has, hpc]) (fun _ => .inl rfl) fun _ => .inl rfl
  next hpc =>
    cases hstep
    exact hs.approaches hbase rfl (disableAsyncer_done s) rfl rfl rfl rfl (by rw [hpc]; rfl)
      (by simp [HandlerOwner.Has, hpc]) (fun _ => .inl rfl) fun _ => .inl rfl
  next hpc =>
    cases hstep
    refine hs.approaches hbase rfl rfl rfl rfl rfl rfl (by rw [hpc]; rfl)
      (by simp [HandlerOwner.Has, hpc]) (fun hdone => .inr ?_) fun hdone => .inr (if_pos hdone)
    exact if_neg (Bool.eq_false_iff.mp hdone)
  next hpc =>
    cases hstep
    cases o with
    | asyncer =>
      obtain ⟨-, h2, h3, -, h5, -⟩ := ho
      exact ⟨hbase, hs.eventLive, .canceled, setAsyncerDone_done hs.handler, h2, h3, h5, rfl⟩
    | delivery | connection | canceled | finishing | nobody =>
      simp [HandlerOwner.Has, hpc, FinishPc.early] at ho
  next hpc =>
    obtain ⟨k, hk, rfl⟩ := Option.map_eq_some_iff.mp hstep
    obtain rfl : h = k := Option.some.inj (hs.handler.symm.trans hk)
    cases o with
    | canceled =>
      obtain ⟨h1, h2, h3, h4, -⟩ := ho
      refine ⟨hbase, hs.eventLive, .nobody, h1, ?_, h4, .inl ⟨rfl, h3⟩⟩
      rw [writeCalls_write, h2]
    | asyncer | delivery | connection | finishing | nobody =>
      simp [HandlerOwner.Has, hpc, FinishPc.early] at ho
  next hpc =>
    cases o with
    | connection =>
      obtain ⟨h1, h2, h3, h4, h5, -⟩ := ho
      have hlock := hs.finishLock (by rw [hpc]; rfl)
      -- `Finish` holds `lock_`, so the delivery is over
      have hd : s.deliverPc = .done := by
        rcases h5 with h5 | h5 | h5
        · exact absurd ((hs.deliverLock (by rw [h5]; rfl)).symm.trans hlock) nofun
        · exact absurd ((hs.deliverLock (by rw [h5]; rfl)).symm.trans hlock) nofun
        · exact h5
      rw [h3, h4] at hstep
      cases hstep
      exact ⟨hbase, hs.eventLive, .finishing, h1, h2, h3, hd, rfl⟩
    | nobody =>
      obtain ⟨h1, h2, h3, h4⟩ := ho
      have hnone : s.conn.userWriteHandler = none := by
        rcases h4 with h4 | h4 | h4 | h4
        · exact h4.2
        all_goals exact absurd (hpc.symm.trans h4) nofun
      rw [hnone] at hstep
      simp only [Option.isSome_none, Bool.and_false, if_neg Bool.false_ne_true] at hstep
      cases hstep
      exact ⟨hbase, hs.eventLive, .nobody, h1, h2, h3, .inr (.inl rfl)⟩
    | asyncer | delivery | canceled | finishing =>
      simp [HandlerOwner.Has, hpc, FinishPc.early] at ho
  next hpc =>
    obtain ⟨k, hk, rfl⟩ := Option.map_eq_some_iff.mp hstep
    cases o with
    | finishing =>
      obtain ⟨h1, h2, h3, h4, -⟩ := ho
      obtain rfl : h = k := Option.some.inj (h3.symm.trans hk)
      have hout : s.deliverPc.outside = true := by rw [h4]; rfl
      refine ⟨hbase, hs.eventLive, .nobody, h1, ?_, hout, .inr (.inl rfl)⟩
      rw [writeCalls_write, h2]
    | asyncer | delivery | connection | canceled | nobody =>
      simp [HandlerOwner.Has, hpc, FinishPc.early] at ho
  next hpc =>
    cases hstep
    cases o with
    | nobody =>
      obtain ⟨h1, h2, h3, -⟩ := ho
      exact ⟨hbase, hs.eventLive, .nobody, h1, h2, h3, .inr (.inr (.inl rfl))⟩
    | asyncer | delivery | connection | canceled | finishing =>
      simp [HandlerOwner.Has, hpc, FinishPc.early] at ho
  next hpc =>
    cases hstep
    cases o with
    | nobody =>
      obtain ⟨h1, h2, h3, -⟩ := ho
      refine ⟨hbase, hs.eventLive, .nobody, h1, ?_, h3, .inr (.inr (.inr rfl))⟩
      rw [writeCalls_finish, h2]
    | asyncer | delivery | connection | canceled | finishing =>
      simp [HandlerOwner.Has, hpc, FinishPc.early] at ho
  next => cases hstep

end RaceOwned

namespace RaceInterrupted

open Race

variable {h : Handler} {errMsg : String} {s t : Race}

/-- A step that interrupts the hand-over. -/
theorem ofOwned {a : RaceThread} (hs : RaceOwned h s) (hG : ¬ HandedOver s a)
    (hstep : s.step errMsg a = some t) : RaceInterrupted h t := by
  cases a with
  | deliver =>
    have hbase := hs.toRaceBase.deliver hstep
    simp only [HandedOver, Classical.not_imp] at hG
    obtain ⟨hpc, hdone, hlock⟩ := hG
    simp only [Race.step, stepDeliver, hpc, hdone, if_neg Bool.false_ne_true] at hstep
    cases hstep
    exact ⟨hbase, hlock, .inl rfl⟩
  | finish =>
    have hbase := hs.toRaceBase.finish hstep
    simp only [HandedOver, Classical.not_imp, not_and_or, not_not] at hG
    obtain ⟨hpc, hlate⟩ := hG
    simp only [Race.step, stepFinish, hpc] at hstep
    split at hstep
    next =>
      cases hstep
      exact ⟨hbase, nofun, hlate.imp_right .inl⟩
    next => cases hstep

/-- From then on the delivery runs into the null `event_`. -/
theorem step {a : RaceThread} (hs : RaceInterrupted h s) (hstep : s.step errMsg a = some t) :
    RaceInterrupted h t := by
  have hlate := hs.late
  cases a with
  | deliver =>
    have hbase := hs.toRaceBase.deliver hstep
    simp only [Race.step, stepDeliver] at hstep
    split at hstep
    all_goals
      rename_i hpc
      simp only [hpc, reduceCtorEq, false_or, or_false, false_and, true_and] at hlate
    · cases hstep
      exact ⟨hbase, hs.started, .inr (.inl rfl)⟩
    · split at hstep
      next hfree =>
        cases hstep
        refine ⟨hbase, hs.started, .inr (.inr (.inl ⟨.inl rfl, ?_⟩))⟩
        show s.finishPc = .done
        have hopen : s.finishPc.locked = false := by
          cases hl : s.finishPc.locked with
          | false => rfl
          | true => exact absurd (hfree.symm.trans (hs.finishLock hl)) nofun
        have hstarted := hs.started
        cases hf : s.finishPc with
        | done => rfl
        | lock => exact absurd hf hstarted
        | test | disable | check | setDone | callCanceled | write | callWrite | drop | callFinish =>
          rw [hf] at hopen
          cases hopen
      next => cases hstep
    · cases hstep
      exact ⟨hbase, hs.started, .inr (.inr (.inl ⟨.inr rfl, hlate⟩))⟩
    · cases hstep
      have hnull := hs.event.mpr (.inr hlate)
      refine ⟨hbase, hs.started, .inr (.inr (.inr ⟨.inl rfl, ?_⟩))⟩
      simp [hnull]
    · cases hstep
      exact ⟨hbase, hs.started, .inr (.inr (.inr ⟨.inr rfl, hlate⟩))⟩
    · cases hstep
  | finish =>
    have hbase := hs.toRaceBase.finish hstep
    obtain ⟨hd, hu, hf, hnd⟩ := stepFinish_frame hstep
    refine ⟨hbase, hf, ?_⟩
    rw [hd, hu]
    exact hlate.imp_right (.imp_right (.imp_left fun hc => absurd hc.2 hnd))

end RaceInterrupted

/-! ## The law -/

/-- The contract of `Finish` against a delivery: a complete run calls the handler exactly once, and
does not use the null `event_`, if and only if the hand-over is not interrupted. -/
theorem raceLaw_iff {h : Handler} {errMsg : String} {s : Race} {as : List RaceThread}
    (hrun : (finishRace h errMsg).run (finishRace h errMsg).init as = some s)
    (hdeliver : s.deliverPc = .done) (hfinish : s.finishPc = .done) :
    RaceLaw h s ↔ (finishRace h errMsg).AllSteps HandedOver (finishRace h errMsg).init as := by
  have hkeep : ∀ s a t, RaceOwned h s → HandedOver s a → (finishRace h errMsg).step s a = some t →
      RaceOwned h t := by
    intro s a t hs hG hstep
    cases a with
    | deliver => exact hs.deliver hG hstep
    | finish => exact hs.finish hG hstep
  obtain ⟨hall, hnot⟩ := System.run_split (P := RaceOwned h) (Q := RaceInterrupted h)
    RaceOwned.init hkeep
    (fun _ _ _ hs hG hstep => RaceInterrupted.ofOwned hs hG hstep)
    (fun _ _ _ hs hstep => hs.step hstep) hrun
  constructor
  · intro hlaw
    refine Decidable.byContradiction fun hc => ?_
    rcases (hnot hc).late with hl | hl | ⟨hl | hl, -⟩ | ⟨-, hused⟩
    · exact absurd (hdeliver.symm.trans hl) nofun
    · exact absurd (hdeliver.symm.trans hl) nofun
    · exact absurd (hdeliver.symm.trans hl) nofun
    · exact absurd (hdeliver.symm.trans hl) nofun
    · exact absurd (hlaw.eventLive.symm.trans hused) nofun
  · intro hsteps
    obtain ⟨o, ho⟩ := (hall hsteps).owner
    refine ⟨?_, (hall hsteps).eventLive⟩
    cases o with
    | nobody => exact ho.2.1
    | asyncer | delivery | connection | canceled | finishing =>
      simp [HandlerOwner.Has, hdeliver, hfinish, FinishPc.early] at ho

/-- The delivery first, then `Finish`: the handler is called from `userWriteHandler_`. -/
theorem raceLaw_deliver_first :
    ∃ s, (finishRace 5 "closed").run (finishRace 5 "closed").init
        (List.replicate 8 .deliver ++ List.replicate 8 .finish) = some s ∧
      (RaceLaw 5 s ↔ (finishRace 5 "closed").AllSteps HandedOver (finishRace 5 "closed").init
        (List.replicate 8 .deliver ++ List.replicate 8 .finish)) := by
  have h : ((finishRace 5 "closed").run (finishRace 5 "closed").init
      (List.replicate 8 .deliver ++ List.replicate 8 .finish)).map
      (fun s => (s.deliverPc, s.finishPc)) = some (.done, .done) := by
    decide +kernel
  obtain ⟨s, hs, hpcs⟩ := Option.map_eq_some_iff.mp h
  obtain ⟨hdeliver, hfinish⟩ := Prod.mk.injEq .. ▸ hpcs
  exact ⟨s, hs, raceLaw_iff hs hdeliver hfinish⟩

/-- `Finish` takes `lock_` right after the delivery has set `done_`: the handler is never called,
and the delivery uses the null `event_`. -/
theorem delivery_overtaken :
    ∃ s, (finishRace 5 "closed").run (finishRace 5 "closed").init
        (List.replicate 4 .deliver ++ List.replicate 7 .finish ++ List.replicate 4 .deliver) =
          some s ∧
      s.deliverPc = .done ∧ s.finishPc = .done ∧ s.writeCalls 5 = 0 ∧ s.usedNull = true ∧
      ¬ RaceLaw 5 s := by
  have h : ((finishRace 5 "closed").run (finishRace 5 "closed").init
      (List.replicate 4 .deliver ++ List.replicate 7 .finish ++ List.replicate 4 .deliver)).map
      (fun s => (s.deliverPc, s.finishPc, s.writeCalls 5, s.usedNull)) =
        some (.done, .done, 0, true) := by
    decide +kernel
  obtain ⟨s, hs, hghost⟩ := Option.map_eq_some_iff.mp h
  obtain ⟨hdeliver, hrest⟩ := Prod.mk.injEq .. ▸ hghost
  obtain ⟨hfinish, hrest⟩ := Prod.mk.injEq .. ▸ hrest
  obtain ⟨hcalls, hused⟩ := Prod.mk.injEq .. ▸ hrest
  exact ⟨s, hs, hdeliver, hfinish, hcalls, hused,
    fun hlaw => absurd (hlaw.eventLive.symm.trans hused) nofun⟩

end Sheep
