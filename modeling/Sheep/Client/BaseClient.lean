import Sheep.Lib.System
import Sheep.Net.Timer

/-!
# `BaseClient`

One request of a client (`small_client/base_client.h`): `doReq` starts it on a connection that it
got from the pool, and the callbacks that it gives to the connection and to its timer carry it on.
`Derived` has the two functions that a derived class overrides.

A `BaseClient` may be used for one request after the other. `Finish` sets `finished_` for the first
of them and nothing clears it, so `doReq` starts from what the earlier requests have left.

`request` is what happens after `doReq`: the loop dispatches the events of the connection and of
the timer in any order, and the owner destroys the client at any time once `onDone_` has been
called. A callback that calls a method which calls another callback leaves frames behind, as in
`TcpConnection`; `onDone_` is user code and ends when it pleases, so it is a frame as well.
-/

namespace Sheep

/-- The virtual functions: they use the buffers of the connection. `none` is an exception. -/
structure Derived (σ : Type) where
  /-- `errMsg` and the write buffer after it -/
  reqPush : σ → Buffer → Option (String × Buffer × σ)
  /-- `errMsg`, `finish` and the read buffer after it. The caller has left `finish` uninitialised:
  it comes with what its memory holds. -/
  respPop : σ → Bool → Buffer → Option (String × Bool × Buffer × σ)

/-- The members of a client that has no request running, as its earlier requests have left them.
One that got a connection has run `Finish`; one that got none has changed nothing. -/
structure BaseClient where
  timer : Option Timer
  finished : Bool
  unused : finished = false → timer = none

def BaseClient.new : BaseClient := ⟨none, false, fun _ => rfl⟩

/-- What is left to do when the handler called last has returned. -/
inductive RequestFrame
  /-- the rest of a method of the connection -/
  | conn (f : Frame)
  /-- `onDone_(*this, errMsg)` runs; then `Finish` goes on to the pool -/
  | onDone (errMsg : String)
  deriving DecidableEq, Repr

def RequestFrame.onDone? : RequestFrame → Option String
  | .conn _ => none
  | .onDone errMsg => some errMsg

/-- The names of the callbacks. -/
def writeCallback : Handler := 0

def readCallback : Handler := 1

def timerCallback : Handler := 2

structure RequestRun (σ : Type) where
  /-- of `client_` -/
  conn : TcpConnection
  timer : Option Timer
  finished : Bool
  /-- the members of the derived class -/
  derived : σ
  /-- what the memory of the local variable `finish` holds -/
  finish : Bool
  frames : List RequestFrame
  /-- the owner has not destroyed the client -/
  alive : Bool
  /-- ghost: the errors that `onDone_` was called with, the latest first -/
  dones : List String
  /-- ghost: the errors that `ClientPool::Insert` was called with -/
  inserts : List String
  /-- ghost: a callback has used the client after `onDone_` had returned -/
  again : Bool

inductive RequestAction
  /-- the loop runs the asyncer of `AsyncWrite` -/
  | deliver
  | readable (r : SysRead)
  | writable (r : SysResult)
  /-- the loop runs the asyncer of the timer -/
  | timerDeliver (now : UInt64)
  | expire (now : UInt64)
  /-- the handler called last returns -/
  | resume
  | destroy
  /-- something is written to the memory where `finish` will be -/
  | stack (finish : Bool)
  deriving DecidableEq, Repr

namespace RequestRun

variable {σ : Type} (D : Derived σ)

/-- A callback uses the client that it has captured. -/
def uses (s : RequestRun σ) : RequestRun σ := { s with again := s.again || !s.inserts.isEmpty }

/-- `Finish`, up to the call of `onDone_`. -/
def callDone (errMsg : String) (s : RequestRun σ) : RequestRun σ :=
  if s.finished then s
  else { s with
    finished := true
    frames := .onDone errMsg :: s.frames
    dones := errMsg :: s.dones }

/-- The callback of the timer: `weakTimer` names it only while the client has it. -/
def onTimer (s : RequestRun σ) (call : TimerCall) : RequestRun σ :=
  if s.timer.isNone then s
  else if call.2 ≠ "" then s
  else s.uses.callDone "timeout"

def cancelTimer (s : RequestRun σ) : RequestRun σ :=
  match s.timer with
  | none => s
  | some t => t.cancel.2.foldl onTimer { s with timer := some t.cancel.1 }

/-- The callback of `AsyncReadAny`. -/
def onRead (argErrMsg : String) (s : RequestRun σ) : Option (RequestRun σ) :=
  if argErrMsg ≠ "" then some (s.uses.cancelTimer.callDone argErrMsg)
  else
    (D.respPop s.derived s.finish s.conn.readBuffer).map fun (errMsg, finish, b, derived) =>
      let s := { s.uses.cancelTimer with
        conn := { s.conn with readBuffer := b }
        derived := derived }
      if errMsg ≠ "" then s.callDone errMsg
      else if finish then s.callDone ""
      else s

/-- The callback of `AsyncWrite`. `AsyncReadAny` may call the read callback at once. -/
def onWrite (errMsg : String) (s : RequestRun σ) : Option (RequestRun σ) :=
  if errMsg ≠ "" then some (s.uses.callDone errMsg)
  else
    match s.conn.asyncReadAny readCallback with
    | ⟨conn, none⟩ => some { s.uses with conn := conn }
    | ⟨conn, some (.read _ argErrMsg, f)⟩ =>
      { s.uses with conn := conn, frames := .conn f :: s.frames }.onRead D argErrMsg
    | ⟨_, some _⟩ => none

/-- Control leaves a method of the connection, to a handler or back to the caller. The finish
handler belongs to the pool. -/
def leave (s : RequestRun σ) (o : Outcome) : Option (RequestRun σ) :=
  match o.pending with
  | none => some { s with conn := o.conn }
  | some (call, f) =>
    let s := { s with conn := o.conn, frames := .conn f :: s.frames }
    match call with
    | .read _ errMsg => s.onRead D errMsg
    | .write _ errMsg => s.onWrite D errMsg
    | .finish _ => some s

/-- `clientPool->Insert(client, errMsg)`, with `Client::Reset`. -/
def insert (errMsg : String) (s : RequestRun σ) : Option (RequestRun σ) :=
  if errMsg ≠ "" then
    { s with inserts := errMsg :: s.inserts }.leave D (s.conn.finish errMsg)
  else some { s with inserts := errMsg :: s.inserts, conn := s.conn.reset }

/-- The timer of `doReq`. That of an earlier request is destroyed. -/
def startTimer (timeoutMs : UInt64) (s : RequestRun σ) : RequestRun σ :=
  if timeoutMs ≠ 0 then
    let s := (s.timer.elim [] Timer.destroy).foldl onTimer { s with timer := none }
    (Timer.new.asyncWait timeoutMs timerCallback).2.foldl onTimer
      { s with timer := some (Timer.new.asyncWait timeoutMs timerCallback).1 }
  else s

/-- `doReq`, once the pool has given the client the connection. -/
def doReq (client : BaseClient) (timeoutMs : UInt64) (conn : TcpConnection) (derived : σ)
    (finish : Bool) : Option (RequestRun σ) :=
  (D.reqPush derived conn.writeBuffer).bind fun (errMsg, b, derived) =>
    let s : RequestRun σ := {
      conn := { conn with writeBuffer := b }
      timer := client.timer
      finished := client.finished
      derived := derived
      finish := finish
      frames := []
      alive := true
      dones := []
      inserts := []
      again := false }
    if errMsg ≠ "" then some (s.callDone errMsg)
    else (s.conn.asyncWrite writeCallback).bind ((s.startTimer timeoutMs).leave D)

/-- The owner destroys the client, and with it the timer. -/
def destroy (s : RequestRun σ) : RequestRun σ :=
  (s.timer.elim [] Timer.destroy).foldl onTimer { s with timer := none, alive := false }

/-- The loop is not re-entered: it dispatches events when no handler runs. -/
def step (s : RequestRun σ) : RequestAction → Option (RequestRun σ)
  | .deliver => if s.frames = [] then s.conn.deliver.bind (s.leave D) else none
  | .readable r =>
    if s.frames = [] ∧ s.conn.event.any (·.readNotify) then
      (s.conn.readHandler r).bind (s.leave D)
    else none
  | .writable r =>
    if s.frames = [] ∧ s.conn.writeNotify then
      (s.conn.writeHandler r).bind fun (o, _) => s.leave D o
    else none
  | .timerDeliver now =>
    if s.frames = [] then
      (s.timer.bind (Timer.deliver now)).map fun t => { s with timer := some t }
    else none
  | .expire now =>
    if s.frames = [] then
      (s.timer.bind (Timer.expire now)).map fun (t, calls) =>
        calls.foldl onTimer { s with timer := some t }
    else none
  | .resume =>
    match s.frames with
    | [] => none
    | .conn f :: fs => (f.resume s.conn).bind ({ s with frames := fs }.leave D)
    | .onDone errMsg :: fs => { s with frames := fs }.insert D errMsg
  | .destroy => if s.alive ∧ s.dones ≠ [] then some s.destroy else none
  | .stack finish => some { s with finish := finish }

end RequestRun

/-- What comes after `doReq`. -/
def request {σ : Type} (D : Derived σ) (s : RequestRun σ) : System (RequestRun σ) RequestAction :=
  ⟨s, RequestRun.step D⟩

end Sheep
