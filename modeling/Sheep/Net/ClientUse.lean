import Sheep.Net.CoClient
import Sheep.Net.FinishOnce

/-!
# A `Client` that is used again

`client.h`: a client "can be reuse to reconnect". `ClientUse` is one `Client` over all the calls of
`AsyncConnect` that are made on it, from any thread and from inside its handlers. The calls are
counted, and what a call makes (an asyncer, a connector, a connection) goes by its number.

`AsyncConnect` lets the connection and the connector of the call before go, and its asyncer too,
which calls the handler of an attempt that the loop has not begun from its destructor: the handler
runs inside `AsyncConnect`, which has the new asyncer in `asyncer_` and has not called its `AsyncDo`
yet. The loop sets `done_` of an asyncer before its function has the lock of the client. Each
connection is a run of `TcpConnection` in any environment.

`ReuseLaw`: every attempt is answered once, by the connected or the disconnected handler, a
connection that the user was told of has one end, no attempt is forgotten, and nothing calls a
client that has been destroyed. `Reuses` is the condition on a step that this takes.
-/

namespace Sheep

/-! ## The model -/

/-- What `asyncer_` points to. -/
inductive ClientAsyncer
  /-- `AsyncDo` has not been called -/
  | unused
  /-- the loop has still to run it -/
  | waiting (attempt : Nat)
  /-- done, or a null pointer -/
  | done
  deriving DecidableEq, Repr

def ClientAsyncer.isWaiting : ClientAsyncer → Bool
  | .waiting _ => true
  | .unused | .done => false

/-- A handler that runs inside `AsyncConnect`. -/
inductive ConnectFrame
  /-- called by the destructor of the asyncer before; `AsyncDo` of the attempt follows -/
  | canceled (attempt : Nat)
  /-- called by `AsyncDo` of a used asyncer -/
  | reuse
  deriving DecidableEq, Repr

def ConnectFrame.attempt? : ConnectFrame → Option Nat
  | .canceled n => some n
  | .reuse => none

structure ClientUse where
  addr : String
  port : Int
  /-- `connectedHandler_` is set -/
  connectedHandler : Bool
  disconnectedHandler : Bool
  connectCalled : Bool
  connector : Option Connector
  asyncer : ClientAsyncer
  /-- `connection_`: the attempt that has made it -/
  current : Option Nat
  /-- the attempt whose function the loop runs; it waits for `lock_` -/
  delivering : Option Nat
  /-- the handlers that run inside `AsyncConnect`, the innermost first -/
  frames : List ConnectFrame
  /-- ghost: the innermost of them has called `AsyncConnect` -/
  asked : Bool
  /-- the number of calls of `AsyncConnect` -/
  attempts : Nat
  /-- the connections there are -/
  connection : Nat → Option TcpRun
  destroyed : Bool
  /-- ghost: the handlers that have been called, with the attempt -/
  log : List (Nat × ClientCall)
  /-- ghost: a destroyed client or handler has been used -/
  fault : Bool

inductive ReuseAction
  | setConnectedHandler
  | setDisconnectedHandler
  /-- `held`: somebody else has a `shared_ptr` to the connection -/
  | asyncConnect (held : Bool)
  /-- the innermost handler inside `AsyncConnect` returns -/
  | returned
  /-- the loop sets `done_` of the asyncer and calls its function -/
  | deliver
  /-- the function has `lock_`, with what the system calls of `Connector::Connect` return -/
  | run (calls : ConnectCalls)
  /-- the write event of the connector, and what `getsockopt` says -/
  | writable (error : Option String) (held : Bool)
  /-- a step of a connection -/
  | connection (attempt : Nat) (a : TcpAction)
  | destroy (held : Bool)
  deriving DecidableEq, Repr

namespace ClientUse

def new (addr : String) (port : Int) : ClientUse where
  addr := addr
  port := port
  connectedHandler := false
  disconnectedHandler := false
  connectCalled := false
  connector := none
  asyncer := .done
  current := none
  delivering := none
  frames := []
  asked := false
  attempts := 0
  connection := fun _ => none
  destroyed := false
  log := []
  fault := false

/-- A handler of the user is called. -/
def call (s : ClientUse) (attempt : Nat) (c : ClientCall) : ClientUse :=
  { s with log := s.log ++ [(attempt, c)], fault := s.fault || s.destroyed }

/-- Nobody else has the connection of the attempt: neither a user nor a method that runs. -/
def onlyOwner (s : ClientUse) (held : Bool) (attempt : Nat) : Bool :=
  !held && (s.connection attempt).all (·.frames.isEmpty)

/-- `connection_` lets its connection go. -/
def letGo (s : ClientUse) (held : Bool) : ClientUse :=
  match s.current with
  | none => s
  | some n =>
    { s with
      current := none
      connection := if s.onlyOwner held n then Function.update s.connection n none
        else s.connection }

/-- `asyncer_->AsyncDo`. -/
def asyncDo (s : ClientUse) (attempt : Nat) : ClientUse :=
  match s.asyncer with
  | .unused => { s with asyncer := .waiting attempt, asked := true }
  | .waiting _ | .done =>
    { s with frames := .reuse :: s.frames, asked := false }.call attempt
      (.disconnected "Asyncer can't reuse")

/-- `AsyncConnect`, up to the handler that the destructor of the old asyncer calls. -/
def asyncConnect (s : ClientUse) (held : Bool) : ClientUse :=
  if !s.disconnectedHandler || !s.connectedHandler then s
  else
    let t := { s.letGo held with
      connectCalled := true
      connector := some .new
      asyncer := .unused
      attempts := s.attempts + 1 }
    match s.asyncer with
    | .waiting old =>
      { t with frames := .canceled s.attempts :: s.frames, asked := false }.call old
        (.disconnected "Asyncer Canceled")
    | .unused | .done => t.asyncDo s.attempts

/-- The rest of `AsyncConnect`. -/
def returned (s : ClientUse) : Option ClientUse :=
  match s.frames with
  | [] => none
  | .canceled n :: frames =>
    if s.destroyed then some { s with frames := frames, fault := true }
    else some ({ s with frames := frames }.asyncDo n)
  | .reuse :: frames => some { s with frames := frames, asked := true }

/-- The function of the asyncer. -/
def run (s : ClientUse) (attempt : Nat) (calls : ConnectCalls) : ClientUse :=
  match s.connector with
  | none => { s with delivering := none, fault := true }
  | some connector =>
    match { connector with newConnectionHandler := true, connectFailedHandler := true }.connect
      calls with
    | (errMsg, connector) =>
      let t := { s with delivering := none, connector := some connector }
      if errMsg ≠ "" then t.call attempt (.disconnected errMsg) else t

/-- The loop has the write event of the connector to watch. -/
def connecting (s : ClientUse) : Bool := s.connector.any (·.event == some true)

/-- The attempt that `connector_` belongs to. -/
def newest (s : ClientUse) : Nat := s.attempts - 1

/-- The write event of the connector, and `newConnectionHandler`. -/
def writable (s : ClientUse) (error : Option String) (held : Bool) : ClientUse :=
  match s.connector with
  | none => s
  | some connector =>
    match connector.writeHandler s.addr s.port error with
    | (connector, .connectFailed errMsg) =>
      { s with connector := some connector }.call s.newest (.disconnected errMsg)
    | (connector, .newConnection) =>
      let t := { s with connector := some connector }.letGo held
      { t with
        current := some s.newest
        connection := Function.update t.connection s.newest (some .init) }.call s.newest
          (.connected (Client.initConnected true))

/-- A connection of the client goes on, and its finish handler calls the disconnected handler. -/
def setConnection (s : ClientUse) (attempt : Nat) (r r' : TcpRun) : ClientUse :=
  (r'.ends.drop r.ends.length).foldl (fun t errMsg => t.call attempt (.disconnected errMsg))
    { s with connection := Function.update s.connection attempt (some r') }

/-- `~Client`: the handlers go before the asyncer, whose destructor may call one. -/
def destroy (s : ClientUse) (held : Bool) : ClientUse :=
  { s.letGo held with
    destroyed := true
    asyncer := .done
    connector := none
    fault := s.fault || s.asyncer.isWaiting }

def step (s : ClientUse) : ReuseAction → Option ClientUse
  -- `LOG(FATAL)` once `AsyncConnect` has been called
  | .setConnectedHandler =>
    if s.destroyed ∨ s.connectCalled then none else some { s with connectedHandler := true }
  | .setDisconnectedHandler =>
    if s.destroyed ∨ s.connectCalled then none else some { s with disconnectedHandler := true }
  | .asyncConnect held => if s.destroyed then none else some (s.asyncConnect held)
  | .returned => s.returned
  | .deliver =>
    match s.asyncer, s.delivering with
    | .waiting n, none => some { s with asyncer := .done, delivering := some n }
    | _, _ => none
  | .run calls =>
    if s.frames.isEmpty then s.delivering.map fun n => s.run n calls else none
  | .writable error held => if s.connecting then some (s.writable error held) else none
  | .connection n a =>
    (s.connection n).bind fun r => (r.step a).map fun r' => s.setConnection n r r'
  | .destroy held => if s.destroyed then none else some (s.destroy held)

/-- A client and all that is done with it. -/
def system (addr : String) (port : Int) : System ClientUse ReuseAction := ⟨new addr port, step⟩

/-! ## The law -/

/-- The handlers that have been called for an attempt. -/
def answers (s : ClientUse) (n : Nat) : List ClientCall :=
  s.log.filterMap fun p => if p.1 = n then some p.2 else none

/-- The user has been told of the connection, and of no end. -/
def Opened (s : ClientUse) (n : Nat) : Prop := s.answers n = [.connected ""]

/-- The user has been told that the attempt has failed, or of a connection and its end. -/
def Over (s : ClientUse) (n : Nat) : Prop :=
  ∃ errMsg, s.answers n = [.disconnected errMsg] ∨
    s.answers n = [.connected "", .disconnected errMsg]

/-- Something is left that will answer the attempt. -/
def UnderWay (s : ClientUse) (n : Nat) : Prop :=
  .canceled n ∈ s.frames ∨ s.asyncer = .waiting n ∨ s.delivering = some n ∨
    s.connecting = true ∧ n + 1 = s.attempts

/-- The contract of a client that is used again and again. -/
structure ReuseLaw (s : ClientUse) : Prop where
  /-- an attempt is answered once, and an end follows a connection once -/
  answers : ∀ n, s.answers n = [] ∨ s.Opened n ∨ s.Over n
  /-- when an attempt begins, those before it are over -/
  earlier : ∀ n, n + 1 < s.attempts → .canceled n ∉ s.frames → s.Over n
  /-- no attempt is forgotten -/
  underWay : s.destroyed = false → ∀ n < s.attempts, s.answers n = [] → s.UnderWay n
  /-- `GetTcpConnection` has the connection that the user has been told of -/
  current : s.destroyed = false → ∀ n, s.Opened n →
    s.current = some n ∧ (s.connection n).isSome
  /-- `finished_` says whether `Finish` has begun, and it comes to its end once -/
  finish : ∀ n r, s.connection n = some r → r.finishing + r.ends.length = r.conn.finished.toNat
  /-- nothing is left that would call a destroyed client -/
  gone : s.destroyed = true → s.frames = [] ∧ s.delivering = none ∧
    ∀ n r, s.connection n = some r → r.ends.length = 1
  fault : s.fault = false

/-- The user has been told of the end of the connection in `connection_`. -/
def closed (s : ClientUse) : Bool :=
  s.current.all fun n => (s.connection n).all fun r => r.ends.length == 1

/-- The condition on a step. -/
def Reuses (s : ClientUse) : ReuseAction → Prop
  | .asyncConnect _ => s.delivering = none ∧ s.connecting = false ∧ s.closed
  | .connection n .reset => ∀ r ∈ s.connection n, r.conn.finished = false
  | .destroy held =>
    s.asyncer.isWaiting = false ∧ s.delivering = none ∧ s.frames = [] ∧
      (s.closed ∨ ∀ n ∈ s.current, s.onlyOwner held n)
  | _ => True

instance Reuses.decidable (s : ClientUse) : ∀ a, Decidable (s.Reuses a)
  | .asyncConnect _ => inferInstanceAs
      (Decidable (s.delivering = none ∧ s.connecting = false ∧ s.closed))
  | .connection n .reset => inferInstanceAs
      (Decidable (∀ r ∈ s.connection n, r.conn.finished = false))
  | .destroy held => inferInstanceAs (Decidable (s.asyncer.isWaiting = false ∧
      s.delivering = none ∧ s.frames = [] ∧ (s.closed ∨ ∀ n ∈ s.current, s.onlyOwner held n)))
  | .connection _ (.push _) | .connection _ (.popHead _) | .connection _ (.asyncRead ..)
  | .connection _ (.asyncReadAny _) | .connection _ (.asyncWrite _) | .connection _ (.finish _)
  | .connection _ .deliver | .connection _ (.readable _) | .connection _ (.writable _)
  | .connection _ .resume | .setConnectedHandler | .setDisconnectedHandler | .returned | .deliver
  | .run _ | .writable .. => isTrue True.intro

end ClientUse

end Sheep
