import Sheep.Coroutine.OneCoro
import Sheep.Net.TcpConnection

/-!
# `CoClient`

`CoClient::Connect` (`net/client/co_client.cpp`): a coroutine `c` starts `Client::AsyncConnect` and
suspends until the client calls one of the two handlers. The outcome comes through the asyncer of
the client, `Connector::Connect`, the write event of the connector, and `CheckConnect`.

`ConnectLaw`: once the attempt has ended the coroutine is awake, and `Connect` returns the
connection exactly if the attempt has succeeded. `connectLaw_iff`: a run keeps it if and only if
`errMsg` is empty when `Connect` is called and no call of the attempt fails. The connected handler
resumes the coroutine. The disconnected handler, which every failure leads to, does nothing.
-/

namespace Sheep

/-! ## `Socket` -/

inductive SysConnect
  | connected
  | inProgress
  | error (strerror : String)
  deriving DecidableEq, Repr

namespace Socket

/-- `SetNoblock`: what `F_SETFL` returns is not looked at. -/
def setNoblock (getfl : Option String) : String :=
  (getfl.map (formatErrMsg "fctnl F_GETFL")).getD ""

def setNoDelay (setsockopt : Option String) : String :=
  (setsockopt.map (formatErrMsg "setsockopt TCP_NODELAY")).getD ""

def connect : SysConnect → String
  | .connected | .inProgress => ""
  | .error e => formatErrMsg "connect" e

def checkConnect (addr : String) (port : Int) (error : Option String) : String :=
  let option := if addr ≠ "" then addr ++ ":" ++ toString port ++ " connected"
    else "getsockopt SO_ERROR"
  (error.map (formatErrMsg option)).getD ""

end Socket

/-! ## `Connector` -/

/-- What the system calls of `Connector::Connect` return. -/
structure ConnectCalls where
  getfl : Option String
  setsockopt : Option String
  connect : SysConnect
  deriving DecidableEq, Repr

/-- One of them fails. -/
def ConnectCalls.fails (calls : ConnectCalls) : Bool :=
  calls.getfl.isSome || calls.setsockopt.isSome ||
    match calls.connect with
    | .error _ => true
    | .connected | .inProgress => false

structure Connector where
  /-- `newConnectionHandler_` is set -/
  newConnectionHandler : Bool
  connectFailedHandler : Bool
  /-- the write notification of `event_` -/
  event : Option Bool
  deriving DecidableEq, Repr

inductive ConnectorCall
  | newConnection
  | connectFailed (errMsg : String)
  deriving DecidableEq, Repr

namespace Connector

def new : Connector := ⟨false, false, none⟩

def connect (calls : ConnectCalls) (c : Connector) : String × Connector :=
  if !c.newConnectionHandler || !c.connectFailedHandler then
    ("invalid new connection or connect failed handler", c)
  else if Socket.setNoblock calls.getfl ≠ "" then (Socket.setNoblock calls.getfl, c)
  else if Socket.setNoDelay calls.setsockopt ≠ "" then (Socket.setNoDelay calls.setsockopt, c)
  else if Socket.connect calls.connect ≠ "" then (Socket.connect calls.connect, c)
  else ("", { c with event := some true })

/-- The write event. The new connection takes `event_` over. -/
def writeHandler (addr : String) (port : Int) (error : Option String) (c : Connector) :
    Connector × ConnectorCall :=
  let errMsg := Socket.checkConnect addr port error
  if errMsg ≠ "" then ({ c with event := some false }, .connectFailed errMsg)
  else ({ c with event := none }, .newConnection)

end Connector

/-! ## `Client` -/

structure Client where
  addr : String
  port : Int
  connectCalled : Bool
  /-- `connectedHandler_` is set -/
  connectedHandler : Bool
  disconnectedHandler : Bool
  connector : Option Connector
  /-- the loop has the asyncer still to run -/
  asyncer : Bool
  connection : Option TcpConnection
  deriving DecidableEq, Repr

/-- A handler of the user is called. -/
inductive ClientCall
  | connected (errMsg : String)
  | disconnected (errMsg : String)
  deriving DecidableEq, Repr

namespace Client

def new (addr : String) (port : Int) : Client :=
  ⟨addr, port, false, false, false, none, false, none⟩

/-- `none` is `LOG(FATAL)`. -/
def setConnectedHandler (c : Client) : Option Client :=
  if c.connectCalled then none else some { c with connectedHandler := true }

def setDisconnectedHandler (c : Client) : Option Client :=
  if c.connectCalled then none else some { c with disconnectedHandler := true }

/-- `AsyncConnect`, for the first time. -/
def asyncConnect (errMsg : String) (c : Client) : String × Client :=
  if !c.disconnectedHandler || !c.connectedHandler then
    ("invalid connected or disconnected handler", c)
  else
    (errMsg, { c with
      connection := none, connectCalled := true, connector := some .new, asyncer := true })

/-- `InitConnected`. -/
def initConnected (finishHandler : Bool) : String :=
  if finishHandler then "" else "invalid finish handler"

def newConnectionHandler (c : Client) : Client × ClientCall :=
  let c := { c with connection := some .connected }
  if initConnected true ≠ "" then (c, .disconnected (initConnected true))
  else (c, .connected (initConnected true))

/-- The callback of the asyncer. -/
def onAsyncer (argErrMsg : String) (calls : ConnectCalls) (c : Client) :
    Client × Option ClientCall :=
  let c := { c with asyncer := false }
  if argErrMsg ≠ "" then (c, some (.disconnected argErrMsg))
  else
    match c.connector with
    | none => (c, none)
    | some connector =>
      match { connector with newConnectionHandler := true, connectFailedHandler := true }.connect
        calls with
      | (errMsg, connector) =>
        ({ c with connector := some connector },
          if errMsg ≠ "" then some (.disconnected errMsg) else none)

/-- The write event of the connector. -/
def onWritable (error : Option String) (c : Client) : Client × Option ClientCall :=
  match c.connector with
  | none => (c, none)
  | some connector =>
    match connector.writeHandler c.addr c.port error with
    | (connector, .connectFailed errMsg) =>
      ({ c with connector := some connector }, some (.disconnected errMsg))
    | (connector, .newConnection) =>
      ({ c with connector := some connector }.newConnectionHandler.1,
        some { c with connector := some connector }.newConnectionHandler.2)

/-- The loop has the write event to watch. -/
def connecting (c : Client) : Bool := c.connector.any (·.event == some true)

end Client

/-! ## `CoClient` -/

inductive ConnectResult
  /-- `errMsg`, and the connection of the `CoTcpConnection` -/
  | returned (errMsg : String) (connection : Option TcpConnection)
  /-- `*connection_` of a null pointer -/
  | nullConnection
  deriving DecidableEq, Repr

inductive ConnectPhase
  | idle
  /-- before `suspend()` -/
  | called
  | suspended
  /-- with the outcome of the attempt when it returned -/
  | returned (r : ConnectResult) (outcome : Option Bool)
  deriving DecidableEq, Repr

structure CoClientRun where
  sched : Scheduler
  client : Client
  errMsg : String
  phase : ConnectPhase
  /-- ghost: the attempt has ended, and whether it has succeeded -/
  outcome : Option Bool

inductive CoClientAction
  /-- a step of the scheduler or of another coroutine, or `yield` -/
  | sched (a : SchedulerAction)
  /-- `Connect`, up to `suspend()` -/
  | connect
  | suspend
  /-- the rest of `Connect` -/
  | return_
  /-- the loop runs the asyncer -/
  | deliver (calls : ConnectCalls)
  /-- the write event of the connector, and what `getsockopt` says -/
  | writable (error : Option String)
  deriving DecidableEq, Repr

namespace CoClientRun

/-- `addCoroutine` has taken the slot `c`, and the function has made a `CoClient`. `errMsg` is what
it will pass to `Connect`. -/
def init (coroNum c : Nat) (addr : String) (port : Int) (errMsg : String) : CoClientRun where
  sched := ((Scheduler.init coroNum).moveToYield c).setStatus c .ready
  client := .new addr port
  errMsg := errMsg
  phase := .idle
  outcome := none

/-- `Connect` is not running. -/
def outside (s : CoClientRun) : Bool :=
  match s.phase with
  | .idle | .returned .. => true
  | .called | .suspended => false

/-- What the scheduler's other work may be: the coroutine itself waits in `Connect` only, and the
others do not resume it. -/
def canSchedule (c : Nat) (s : CoClientRun) : SchedulerAction → Prop
  | .clock _ | .addCoroutine | .next => True
  | .resume d => d ≠ c
  | .yield => s.sched.currentCoro = some c → s.outside
  | .suspend | .sleep _ | .finish => s.sched.currentCoro ≠ some c

instance (c : Nat) (s : CoClientRun) : DecidablePred (s.canSchedule c)
  | .clock _ | .addCoroutine | .next => isTrue True.intro
  | .resume d => inferInstanceAs (Decidable (d ≠ c))
  | .yield => inferInstanceAs (Decidable (s.sched.currentCoro = some c → s.outside))
  | .suspend | .sleep _ | .finish => inferInstanceAs (Decidable (s.sched.currentCoro ≠ some c))

/-- `run` is at `loop_->runOnce()`. -/
def runsOnce (s : CoClientRun) : Prop := s.sched.currentCoro = none ∧ s.sched.pc = .wakeUpSleep

instance (s : CoClientRun) : Decidable s.runsOnce :=
  inferInstanceAs (Decidable (s.sched.currentCoro = none ∧ s.sched.pc = .wakeUpSleep))

/-- The handlers of `Connect`. -/
def handle (c : Nat) (s : CoClientRun) : Option ClientCall → CoClientRun
  | some (.connected _) =>
    { s with sched := { s.sched with resumeQueue := s.sched.resumeQueue ++ [c] } }
  | some (.disconnected _) | none => s

/-- `Connect`, up to `suspend()`. -/
def connect (s : CoClientRun) : Option CoClientRun :=
  s.client.setConnectedHandler.bind fun client =>
    client.setDisconnectedHandler.map fun client =>
      match client.asyncConnect s.errMsg with
      | (errMsg, client) =>
        { s with
          client := client
          errMsg := errMsg
          phase :=
            if errMsg ≠ "" then .returned (.returned errMsg none) s.outcome else .called }

/-- The rest of `Connect`. -/
def return_ (s : CoClientRun) : CoClientRun :=
  { s with
    phase := .returned
      (s.client.connection.elim .nullConnection fun conn => .returned s.errMsg (some conn))
      s.outcome }

def step (c : Nat) (s : CoClientRun) : CoClientAction → Option CoClientRun
  | .sched a =>
    if s.canSchedule c a then (s.sched.step a).map fun sched => { s with sched := sched }
    else none
  | .connect => if s.sched.currentCoro = some c ∧ s.phase = .idle then s.connect else none
  | .suspend =>
    if s.sched.currentCoro = some c ∧ s.phase = .called then
      some { s with sched := s.sched.suspend c .suspended, phase := .suspended }
    else none
  | .return_ =>
    if s.sched.currentCoro = some c ∧ s.phase = .suspended then some s.return_ else none
  | .deliver calls =>
    if s.runsOnce ∧ s.client.asyncer then
      some ({ s with
        client := (s.client.onAsyncer "" calls).1
        outcome := if calls.fails then some false else s.outcome }.handle c
          (s.client.onAsyncer "" calls).2)
    else none
  | .writable error =>
    if s.runsOnce ∧ s.client.connecting then
      some ({ s with
        client := (s.client.onWritable error).1
        outcome := some error.isNone }.handle c (s.client.onWritable error).2)
    else none

end CoClientRun

/-- A coroutine that connects. -/
def coClient (coroNum c : Nat) (addr : String) (port : Int) (errMsg : String) :
    System CoClientRun CoClientAction :=
  ⟨.init coroNum c addr port errMsg, CoClientRun.step c⟩

/-- The contract of `Connect`. -/
structure ConnectLaw (c : Nat) (s : CoClientRun) : Prop where
  /-- the end of the attempt wakes the coroutine -/
  resumed : s.outcome ≠ none → s.phase = .suspended → Awake c s.sched
  returned : ∀ r outcome, s.phase = .returned r outcome →
    outcome = some true ∧ (∃ conn, r = .returned "" (some conn)) ∨
    outcome = some false ∧ ∃ errMsg, errMsg ≠ "" ∧ r = .returned errMsg none

/-- The condition on a step: `Connect` is called with an empty `errMsg`, and no call of the attempt
fails. -/
def Succeeds (s : CoClientRun) : CoClientAction → Prop
  | .connect => s.errMsg = ""
  | .deliver calls => calls.fails = false
  | .writable error => error = none
  | .sched _ | .suspend | .return_ => True

instance (s : CoClientRun) : DecidablePred (Succeeds s)
  | .connect => inferInstanceAs (Decidable (s.errMsg = ""))
  | .deliver calls => inferInstanceAs (Decidable (calls.fails = false))
  | .writable error => inferInstanceAs (Decidable (error = none))
  | .sched _ | .suspend | .return_ => isTrue True.intro

/-! ## The calls of the attempt -/

theorem Socket.formatErrMsg_ne (option result : String) :
    Socket.formatErrMsg option result ≠ "" := by
  simp [Socket.formatErrMsg]

/-- `Connector::Connect` with its handlers: the write event is on if no call fails. -/
theorem Connector.connect_cases (calls : ConnectCalls) :
    (calls.fails = false ∧
      (Connector.mk true true none).connect calls = ("", ⟨true, true, some true⟩)) ∨
    (calls.fails = true ∧ ∃ errMsg, errMsg ≠ "" ∧
      (Connector.mk true true none).connect calls = (errMsg, ⟨true, true, none⟩)) := by
  obtain ⟨getfl, setsockopt, connect⟩ := calls
  have hne := Socket.formatErrMsg_ne
  cases getfl with
  | some e =>
    exact .inr ⟨rfl, _, hne "fctnl F_GETFL" e,
      by simp [Connector.connect, Socket.setNoblock, hne]⟩
  | none =>
    cases setsockopt with
    | some e =>
      exact .inr ⟨rfl, _, hne "setsockopt TCP_NODELAY" e,
        by simp [Connector.connect, Socket.setNoblock, Socket.setNoDelay, hne]⟩
    | none =>
      cases connect with
      | error e =>
        exact .inr ⟨rfl, _, hne "connect" e,
          by simp [Connector.connect, Socket.setNoblock, Socket.setNoDelay, Socket.connect, hne]⟩
      | connected | inProgress => exact .inl ⟨rfl, rfl⟩

namespace CoClientRun

variable {c : Nat} {s t : CoClientRun} {a : CoClientAction}

/-- The client after `AsyncConnect`. -/
def Pending (client : Client) : Prop :=
  ∃ addr port, client = ⟨addr, port, true, true, true, some .new, true, none⟩

/-- The client after `Connector::Connect`. -/
def Connecting (client : Client) : Prop :=
  ∃ addr port, client = ⟨addr, port, true, true, true, some ⟨true, true, some true⟩, false, none⟩

/-- `Connect` has returned without an outcome. -/
def refuses : ConnectPhase → Bool
  | .returned _ none => true
  | .idle | .called | .suspended | .returned _ (some _) => false

/-- The loop has nothing of the attempt left. -/
def Ended (client : Client) : Prop := client.asyncer = false ∧ client.connecting = false

theorem onAsyncer_cases {client : Client} (h : Pending client) (calls : ConnectCalls) :
    (calls.fails = false ∧ (client.onAsyncer "" calls).2 = none ∧
      Connecting (client.onAsyncer "" calls).1) ∨
    (calls.fails = true ∧ (∃ errMsg, (client.onAsyncer "" calls).2 = some (.disconnected errMsg)) ∧
      Ended (client.onAsyncer "" calls).1) := by
  obtain ⟨addr, port, rfl⟩ := h
  rcases Connector.connect_cases calls with ⟨hfails, heq⟩ | ⟨hfails, errMsg, hne, heq⟩
  · refine .inl ⟨hfails, ?_, addr, port, ?_⟩ <;> simp [Client.onAsyncer, Connector.new, heq]
  · refine .inr ⟨hfails, ⟨errMsg, ?_⟩, ?_⟩ <;>
      simp [Client.onAsyncer, Connector.new, heq, hne, Ended, Client.connecting]

theorem onWritable_cases {client : Client} (h : Connecting client) (error : Option String) :
    (error = none ∧ (∃ errMsg, (client.onWritable error).2 = some (.connected errMsg)) ∧
      Ended (client.onWritable error).1 ∧ (client.onWritable error).1.connection.isSome) ∨
    (error ≠ none ∧ (∃ errMsg, (client.onWritable error).2 = some (.disconnected errMsg)) ∧
      Ended (client.onWritable error).1) := by
  obtain ⟨addr, port, rfl⟩ := h
  cases error with
  | none => exact .inl ⟨rfl, ⟨"", rfl⟩, ⟨rfl, rfl⟩, rfl⟩
  | some e =>
    have hne : Socket.checkConnect addr port (some e) ≠ "" := Socket.formatErrMsg_ne _ e
    refine .inr ⟨nofun, ⟨Socket.checkConnect addr port (some e), ?_⟩, ?_⟩ <;>
      simp [Client.onWritable, Connector.writeHandler, hne, Ended, Client.connecting]

/-- The stages of a run that keeps the law, and the two that a run can leave it to. -/
inductive Stage (c : Nat) (s : CoClientRun) : Prop
  | idle (hphase : s.phase = .idle) (hclient : ∃ addr port, s.client = .new addr port)
      (houtcome : s.outcome = none) (hqueue : c ∉ s.sched.resumeQueue)
      (hrest : s.sched.currentCoro = some c → c ∉ s.sched.pc.rest)
  | called (hphase : s.phase = .called) (hclient : Pending s.client) (herr : s.errMsg = "")
      (houtcome : s.outcome = none) (hqueue : c ∉ s.sched.resumeQueue)
      (hcurrent : s.sched.currentCoro = some c) (hrest : c ∉ s.sched.pc.rest)
  | waiting (hphase : s.phase = .suspended) (hclient : Pending s.client ∨ Connecting s.client)
      (herr : s.errMsg = "") (houtcome : s.outcome = none) (hasleep : Asleep c s.sched)
  | woken (hphase : s.phase = .suspended) (hended : Ended s.client) (herr : s.errMsg = "")
      (houtcome : s.outcome = some true) (hconn : s.client.connection.isSome)
      (hawake : Awake c s.sched)
  | returned (conn : TcpConnection)
      (hphase : s.phase = .returned (.returned "" (some conn)) (some true))
      (hended : Ended s.client) (houtcome : s.outcome = some true)
  | failed (hphase : s.phase = .suspended) (hended : Ended s.client)
      (houtcome : s.outcome = some false) (hasleep : Asleep c s.sched)
  /-- `Connect` has found `errMsg` set. -/
  | refused (errMsg : String) (hphase : s.phase = .returned (.returned errMsg none) none)

structure Good (c : Nat) (s : CoClientRun) : Prop where
  one : OneCoro c s.sched
  stage : Stage c s

theorem good_init (coroNum : Nat) (addr : String) (port : Int) (errMsg : String) :
    (init coroNum c addr port errMsg).Good c where
  one := ⟨.nil, .nil, List.nodup_singleton c, by simp [init, Scheduler.setStatus,
    Scheduler.moveToYield, Scheduler.unlink], nofun⟩
  stage := .idle rfl ⟨addr, port, rfl⟩ rfl nofun nofun

/-- The law holds in every stage but the last two. -/
theorem Good.law_iff (h : s.Good c) :
    ConnectLaw c s ↔ s.outcome ≠ some false ∧ refuses s.phase = false := by
  cases h.stage with
  | idle hphase _ houtcome | called hphase _ _ houtcome | waiting hphase _ _ houtcome =>
    refine iff_of_true ⟨fun hc => absurd houtcome hc, fun r _ hr => ?_⟩ ?_
    · cases hphase.symm.trans hr
    · rw [houtcome, hphase]
      exact ⟨nofun, rfl⟩
  | woken hphase _ _ houtcome _ hawake =>
    refine iff_of_true ⟨fun _ _ => hawake, fun r _ hr => ?_⟩ ?_
    · cases hphase.symm.trans hr
    · rw [houtcome, hphase]
      exact ⟨nofun, rfl⟩
  | returned conn hphase _ houtcome =>
    refine iff_of_true ⟨fun _ hc => ?_, fun r _ hr => ?_⟩ ?_
    · cases hphase.symm.trans hc
    · cases hphase.symm.trans hr
      exact .inl ⟨rfl, conn, rfl⟩
    · rw [houtcome, hphase]
      exact ⟨nofun, rfl⟩
  | failed hphase _ houtcome hasleep =>
    refine iff_of_false (fun hlaw => ?_) fun hc => hc.1 houtcome
    exact hasleep.not_awake (hlaw.resumed (by rw [houtcome]; exact nofun) hphase)
  | refused errMsg hphase =>
    refine iff_of_false (fun hlaw => ?_) fun hc => ?_
    · rcases hlaw.returned _ _ hphase with ⟨hc, -⟩ | ⟨hc, -⟩ <;> cases hc
    · rw [hphase] at hc
      cases hc.2

/-- A step of the scheduler or of another coroutine. -/
theorem Good.sched (h : s.Good c) {b : SchedulerAction} {sched : Scheduler}
    (hcan : s.canSchedule c b) (hb : s.sched.step b = some sched) :
    Good c { s with sched := sched } := by
  have hleave : b = .suspend ∨ (∃ ms, b = .sleep ms) ∨ b = .finish →
      s.sched.currentCoro ≠ some c := by
    rintro (rfl | ⟨ms, rfl⟩ | rfl) <;> exact hcan
  obtain ⟨hone, hseen⟩ := h.one.step hleave (by rintro rfl; exact hcan rfl) hb
  refine ⟨hone, ?_⟩
  cases h.stage with
  | idle hphase hclient houtcome hqueue hrest =>
    refine .idle hphase hclient houtcome ?_ ?_
    · cases hseen with
      | elsewhere he => exact fun hc => hqueue (he.queue.mp hc)
      | drained _ _ hnil => rw [hnil]; exact nofun
      | turned _ _ hsame | switched _ _ hsame | yielded _ _ _ hsame => rw [hsame]; exact hqueue
    · cases hseen with
      | elsewhere he => exact fun hc hr => hrest (he.current.mp hc) (he.rest.mp hr)
      | drained _ hnone | turned _ hnone | yielded _ _ hnone =>
        exact fun hc => absurd (hnone.symm.trans hc) nofun
      | switched _ _ _ _ _ hnot => exact fun _ => hnot
  | called hphase hclient herr houtcome hqueue hcurrent hrest =>
    cases hseen with
    | elsewhere he =>
      exact .called hphase hclient herr houtcome (fun hc => hqueue (he.queue.mp hc))
        (he.current.mpr hcurrent) fun hc => hrest (he.rest.mp hc)
    | drained hnone | turned hnone | switched hnone => cases hnone.symm.trans hcurrent
    | yielded hyield =>
      subst hyield
      have hout := hcan hcurrent
      rw [outside, hphase] at hout
      cases hout
  | waiting hphase hclient herr houtcome hasleep =>
    exact .waiting hphase hclient herr houtcome (hasleep.step hseen)
  | woken hphase hended herr houtcome hconn hawake =>
    refine .woken hphase hended herr houtcome hconn (hawake.step ?_ hb)
    rintro (rfl | hb) hcurrent
    · have hout := hcan hcurrent
      rw [outside, hphase] at hout
      cases hout
    · exact hleave hb hcurrent
  | returned conn hphase hended houtcome => exact .returned conn hphase hended houtcome
  | failed hphase hended houtcome hasleep =>
    exact .failed hphase hended houtcome (hasleep.step hseen)
  | refused errMsg hphase => exact .refused errMsg hphase

/-- `Connect`, up to `suspend()`: it goes on if `errMsg` is empty. -/
theorem Good.connect (h : s.Good c) (hcurrent : s.sched.currentCoro = some c)
    (hphase : s.phase = .idle) (ht : s.connect = some t) :
    t.Good c ∧ (ConnectLaw c t ↔ s.errMsg = "") := by
  cases h.stage with
  | idle _ hclient houtcome hqueue hrest =>
    obtain ⟨addr, port, hclient⟩ := hclient
    obtain ⟨hsched, hclient', herrMsg, houtcome', hphase'⟩ :
        t.sched = s.sched ∧ t.client = ⟨addr, port, true, true, true, some .new, true, none⟩ ∧
        t.errMsg = s.errMsg ∧ t.outcome = s.outcome ∧
        t.phase = if s.errMsg ≠ "" then .returned (.returned s.errMsg none) s.outcome
          else .called := by
      rw [CoClientRun.connect, hclient] at ht
      cases ht
      exact ⟨rfl, rfl, rfl, rfl, rfl⟩
    rcases eq_or_ne s.errMsg "" with herr | herr
    · rw [if_neg (not_not_intro herr)] at hphase'
      have hgood : t.Good c :=
        ⟨hsched ▸ h.one, .called hphase' ⟨addr, port, hclient'⟩ (herrMsg.trans herr)
          (houtcome'.trans houtcome) (hsched ▸ hqueue) (hsched ▸ hcurrent)
          (hsched ▸ hrest hcurrent)⟩
      refine ⟨hgood, iff_of_true (hgood.law_iff.mpr ?_) herr⟩
      rw [houtcome', houtcome, hphase']
      exact ⟨nofun, rfl⟩
    · rw [if_pos herr, houtcome] at hphase'
      have hgood : t.Good c := ⟨hsched ▸ h.one, .refused s.errMsg hphase'⟩
      refine ⟨hgood, iff_of_false (fun hlaw => ?_) herr⟩
      have hrefuses := (hgood.law_iff.mp hlaw).2
      rw [hphase'] at hrefuses
      cases hrefuses
  | called hc | waiting hc | woken hc | failed hc | returned _ hc | refused _ hc =>
    cases hc.symm.trans hphase

theorem Good.suspend (h : s.Good c) (hphase : s.phase = .called) :
    Good c { s with sched := s.sched.suspend c .suspended, phase := .suspended } := by
  have hone : OneCoro c (s.sched.suspend c .suspended) :=
    ⟨h.one.rest_nodup, h.one.resume_nodup.filter _, h.one.yield_nodup.filter _,
      fun hc => h.one.not_free (List.mem_of_mem_filter hc), h.one.not_sleeping⟩
  cases h.stage with
  | called _ hclient herr houtcome hqueue _ hrest =>
    refine ⟨hone, .waiting rfl (.inl hclient) herr houtcome ⟨nofun, hqueue, ?_, ?_, hrest⟩⟩
    · show c ∉ s.sched.resumeList.filter (· ≠ c)
      simp
    · show c ∉ s.sched.yieldList.filter (· ≠ c)
      simp
  | idle hc | waiting hc | woken hc | failed hc | returned _ hc | refused _ hc =>
    cases hc.symm.trans hphase

/-- The rest of `Connect`: only the connected handler has woken the coroutine. -/
theorem Good.return_ (h : s.Good c) (hcurrent : s.sched.currentCoro = some c)
    (hphase : s.phase = .suspended) : s.return_.Good c ∧ ConnectLaw c s.return_ := by
  cases h.stage with
  | woken _ hended herr houtcome hconn =>
    obtain ⟨conn, hconn⟩ := Option.isSome_iff_exists.mp hconn
    have hreturned : s.return_.phase = .returned (.returned "" (some conn)) (some true) := by
      simp [CoClientRun.return_, hconn, herr, houtcome]
    have hgood : s.return_.Good c := ⟨h.one, .returned conn hreturned hended houtcome⟩
    refine ⟨hgood, hgood.law_iff.mpr ⟨?_, by rw [hreturned]; rfl⟩⟩
    show s.outcome ≠ some false
    rw [houtcome]
    exact nofun
  | waiting _ _ _ _ hasleep | failed _ _ _ hasleep => exact absurd hcurrent hasleep.current
  | idle hc | called hc | returned _ hc | refused _ hc => cases hc.symm.trans hphase

theorem handle_phase (call : Option ClientCall) : (s.handle c call).phase = s.phase := by
  cases call with
  | none => rfl
  | some call => cases call <;> rfl

theorem OneCoro.handle (h : OneCoro c s.sched) (call : Option ClientCall) :
    OneCoro c (s.handle c call).sched := by
  cases call with
  | none => exact h
  | some call =>
    cases call with
    | disconnected => exact h
    | connected =>
      exact ⟨h.rest_nodup, h.resume_nodup, h.yield_nodup, h.not_free, h.not_sleeping⟩

/-- After a refusal the law does not hold, and a step that keeps the phase is nothing to it. -/
theorem Good.stays_refused {P : Prop} {errMsg : String} (h : s.Good c)
    (hphase : s.phase = .returned (.returned errMsg none) none) (hone : OneCoro c t.sched)
    (ht : t.phase = s.phase) : t.Good c ∧ (ConnectLaw c s → (ConnectLaw c t ↔ P)) := by
  refine ⟨⟨hone, .refused errMsg (ht.trans hphase)⟩, fun hlaw => ?_⟩
  have hrefuses := (h.law_iff.mp hlaw).2
  rw [hphase] at hrefuses
  cases hrefuses

/-- The loop runs the asyncer. A failure leaves the coroutine asleep. -/
theorem Good.deliver (h : s.Good c) {calls : ConnectCalls} (hruns : s.runsOnce)
    (hasyncer : s.client.asyncer = true)
    (ht : t = { s with
        client := (s.client.onAsyncer "" calls).1
        outcome := if calls.fails then some false else s.outcome }.handle c
          (s.client.onAsyncer "" calls).2) :
    t.Good c ∧ (ConnectLaw c s → (ConnectLaw c t ↔ calls.fails = false)) := by
  have hone : OneCoro c t.sched := by
    rw [ht]
    refine OneCoro.handle ?_ _
    exact h.one
  cases h.stage with
  | waiting hphase hclient herr houtcome hasleep =>
    rcases hclient with hclient | ⟨_, _, hclient⟩
    · rcases onAsyncer_cases hclient calls with ⟨hok, hcall, hclient⟩ | ⟨hfail, ⟨e, hcall⟩, hended⟩
      · rw [hcall, hok] at ht
        subst ht
        have hgood : Good c _ := ⟨hone, .waiting hphase (.inr hclient) herr houtcome hasleep⟩
        refine ⟨hgood, fun _ => iff_of_true (hgood.law_iff.mpr ?_) hok⟩
        show s.outcome ≠ some false ∧ refuses s.phase = false
        rw [houtcome, hphase]
        exact ⟨nofun, rfl⟩
      · rw [hcall, hfail] at ht
        subst ht
        have hgood : Good c _ := ⟨hone, .failed hphase hended rfl hasleep⟩
        exact ⟨hgood, fun _ => iff_of_false (fun hlaw => (hgood.law_iff.mp hlaw).1 rfl)
          (by rw [hfail]; decide)⟩
    · rw [hclient] at hasyncer
      cases hasyncer
  | refused errMsg hphase =>
    exact h.stays_refused hphase hone (by rw [ht, handle_phase])
  | idle _ hclient =>
    obtain ⟨_, _, hclient⟩ := hclient
    rw [hclient] at hasyncer
    cases hasyncer
  | called _ _ _ _ _ hcurrent => cases hruns.1.symm.trans hcurrent
  | woken _ hended | returned _ _ hended | failed _ hended => cases hended.1.symm.trans hasyncer

/-- The write event of the connector: the connected handler wakes the coroutine. -/
theorem Good.writable (h : s.Good c) {error : Option String} (hruns : s.runsOnce)
    (hconnecting : s.client.connecting = true)
    (ht : t = { s with
        client := (s.client.onWritable error).1
        outcome := some error.isNone }.handle c (s.client.onWritable error).2) :
    t.Good c ∧ (ConnectLaw c s → (ConnectLaw c t ↔ error = none)) := by
  have hone : OneCoro c t.sched := by
    rw [ht]
    refine OneCoro.handle ?_ _
    exact h.one
  cases h.stage with
  | waiting hphase hclient herr houtcome hasleep =>
    rcases hclient with ⟨_, _, hclient⟩ | hclient
    · rw [hclient] at hconnecting
      cases hconnecting
    · rcases onWritable_cases hclient error with
        ⟨rfl, ⟨e, hcall⟩, hended, hconn⟩ | ⟨hne, ⟨e, hcall⟩, hended⟩
      · rw [hcall] at ht
        subst ht
        have hgood : Good c _ := ⟨hone, .woken hphase hended herr rfl hconn
          (.inr (.inl (List.mem_append_right _ List.mem_cons_self)))⟩
        refine ⟨hgood, fun _ => iff_of_true (hgood.law_iff.mpr ⟨nofun, ?_⟩) rfl⟩
        show refuses s.phase = false
        rw [hphase]
        rfl
      · have hfalse : error.isNone = false :=
          Option.isNone_eq_false_iff.mpr (Option.isSome_iff_ne_none.mpr hne)
        rw [hcall, hfalse] at ht
        subst ht
        have hgood : Good c _ := ⟨hone, .failed hphase hended rfl hasleep⟩
        exact ⟨hgood, fun _ => iff_of_false (fun hlaw => (hgood.law_iff.mp hlaw).1 rfl) hne⟩
  | refused errMsg hphase =>
    exact h.stays_refused hphase hone (by rw [ht, handle_phase])
  | idle _ hclient =>
    obtain ⟨_, _, hclient⟩ := hclient
    rw [hclient] at hconnecting
    cases hconnecting
  | called _ _ _ _ _ hcurrent => cases hruns.1.symm.trans hcurrent
  | woken _ hended | returned _ _ hended | failed _ hended => cases hended.2.symm.trans hconnecting

/-- The stages are kept, and a step leaves the law exactly when a call fails. -/
theorem Good.step (h : s.Good c) (ht : s.step c a = some t) :
    t.Good c ∧ (ConnectLaw c s → (ConnectLaw c t ↔ Succeeds s a)) := by
  cases a with
  | sched b =>
    obtain ⟨hcan, ht⟩ := Option.ite_none_right_eq_some.mp ht
    obtain ⟨sched, hb, rfl⟩ := Option.map_eq_some_iff.mp ht
    have hgood := h.sched hcan hb
    exact ⟨hgood, fun hlaw => iff_of_true (hgood.law_iff.mpr (h.law_iff.mp hlaw)) True.intro⟩
  | connect =>
    obtain ⟨⟨hcurrent, hphase⟩, ht⟩ := Option.ite_none_right_eq_some.mp ht
    obtain ⟨hgood, hiff⟩ := h.connect hcurrent hphase ht
    exact ⟨hgood, fun _ => hiff⟩
  | suspend =>
    obtain ⟨⟨-, hphase⟩, ht⟩ := Option.ite_none_right_eq_some.mp ht
    cases ht
    have hgood := h.suspend hphase
    exact ⟨hgood, fun hlaw => iff_of_true
      (hgood.law_iff.mpr ⟨(h.law_iff.mp hlaw).1, rfl⟩) True.intro⟩
  | return_ =>
    obtain ⟨⟨hcurrent, hphase⟩, ht⟩ := Option.ite_none_right_eq_some.mp ht
    cases ht
    obtain ⟨hgood, hlaw⟩ := h.return_ hcurrent hphase
    exact ⟨hgood, fun _ => iff_of_true hlaw True.intro⟩
  | deliver calls =>
    obtain ⟨⟨hruns, hasyncer⟩, ht⟩ := Option.ite_none_right_eq_some.mp ht
    exact h.deliver hruns hasyncer (Option.some.inj ht).symm
  | writable error =>
    obtain ⟨⟨hruns, hconnecting⟩, ht⟩ := Option.ite_none_right_eq_some.mp ht
    exact h.writable hruns hconnecting (Option.some.inj ht).symm

/-- The attempt has failed while the coroutine waits for it. -/
structure Failed (c : Nat) (s : CoClientRun) : Prop where
  good : s.Good c
  phase : s.phase = .suspended
  outcome : s.outcome = some false

theorem Failed.asleep (h : s.Failed c) : Asleep c s.sched ∧ Ended s.client := by
  cases h.good.stage with
  | failed _ hended _ hasleep => exact ⟨hasleep, hended⟩
  | idle hc | called hc | returned _ hc | refused _ hc => cases hc.symm.trans h.phase
  | waiting _ _ _ hc | woken _ _ _ hc => cases hc.symm.trans h.outcome

/-- Nothing of the client is left that would resume the coroutine. -/
theorem Failed.step (h : s.Failed c) (ht : s.step c a = some t) : t.Failed c := by
  obtain ⟨hasleep, hended⟩ := h.asleep
  have hgood := (h.good.step ht).1
  cases a with
  | sched b =>
    obtain ⟨-, ht⟩ := Option.ite_none_right_eq_some.mp ht
    obtain ⟨sched, -, rfl⟩ := Option.map_eq_some_iff.mp ht
    exact ⟨hgood, h.phase, h.outcome⟩
  | connect =>
    obtain ⟨⟨hcurrent, -⟩, -⟩ := Option.ite_none_right_eq_some.mp ht
    exact absurd hcurrent hasleep.current
  | suspend =>
    obtain ⟨⟨hcurrent, -⟩, -⟩ := Option.ite_none_right_eq_some.mp ht
    exact absurd hcurrent hasleep.current
  | return_ =>
    obtain ⟨⟨hcurrent, -⟩, -⟩ := Option.ite_none_right_eq_some.mp ht
    exact absurd hcurrent hasleep.current
  | deliver calls =>
    obtain ⟨⟨-, hasyncer⟩, -⟩ := Option.ite_none_right_eq_some.mp ht
    cases hended.1.symm.trans hasyncer
  | writable error =>
    obtain ⟨⟨-, hconnecting⟩, -⟩ := Option.ite_none_right_eq_some.mp ht
    cases hended.2.symm.trans hconnecting

end CoClientRun

/-- The contract of `Connect` holds in every state of a run if and only if `errMsg` is empty when
it is called and no call of the attempt fails. -/
theorem connectLaw_iff {coroNum c : Nat} {addr : String} {port : Int} {errMsg : String}
    {as : List CoClientAction}
    (hrun : ((coClient coroNum c addr port errMsg).run
      (coClient coroNum c addr port errMsg).init as).isSome) :
    (coClient coroNum c addr port errMsg).AllStates (ConnectLaw c)
        (coClient coroNum c addr port errMsg).init as ↔
      (coClient coroNum c addr port errMsg).AllSteps Succeeds
        (coClient coroNum c addr port errMsg).init as := by
  have hinit := CoClientRun.good_init (c := c) coroNum addr port errMsg
  refine System.allStates_iff_allSteps (I := CoClientRun.Good c) (L := fun _ => True)
    (hinit.law_iff.mpr ⟨nofun, rfl⟩) hinit ?_ ?_ (fun _ _ => True.intro) hrun
  · exact fun s a t hgood hs => (hgood.step hs).1
  · exact fun s a t hgood hlaw _ hs => (hgood.step hs).2 hlaw

/-- A connection that is established after `connect` has returned `EINPROGRESS`. -/
def connectSucceeds : List CoClientAction :=
  [.sched .next, .sched .next, .sched .next, .sched .next, .connect, .suspend, .sched .next,
    .deliver ⟨none, none, .inProgress⟩, .writable none, .sched .next, .sched .next, .sched .next,
    .return_]

theorem connectLaw_connectSucceeds :
    (coClient 1 0 "127.0.0.1" 8000 "").AllStates (ConnectLaw 0)
      (coClient 1 0 "127.0.0.1" 8000 "").init connectSucceeds :=
  (connectLaw_iff (by decide)).mpr (by decide)

/-- `connect` is refused at once. -/
def connectRefused : List CoClientAction :=
  [.sched .next, .sched .next, .sched .next, .sched .next, .connect, .suspend, .sched .next,
    .deliver ⟨none, none, .error "Connection refused"⟩]

/-- The attempt has ended, and the coroutine sleeps for ever. -/
theorem connectRefused_sleeps :
    ∃ s, (coClient 1 0 "127.0.0.1" 8000 "").Reachable s ∧ s.outcome = some false ∧
      s.phase = .suspended ∧ ¬ ConnectLaw 0 s ∧
      ∀ as t, (coClient 1 0 "127.0.0.1" 8000 "").run s as = some t → Asleep 0 t.sched := by
  have hlast : ((coClient 1 0 "127.0.0.1" 8000 "").run (coClient 1 0 "127.0.0.1" 8000 "").init
      connectRefused).map (fun s => (s.outcome, s.phase)) = some (some false, .suspended) := rfl
  obtain ⟨s, hrun, hs⟩ := Option.map_eq_some_iff.mp hlast
  obtain ⟨houtcome, hphase⟩ := Prod.mk.inj hs
  have hgood : s.Good 0 := System.run_invariant
    (CoClientRun.good_init 1 "127.0.0.1" 8000 "") (fun _ _ _ h ht => (h.step ht).1) hrun
  have hfailed : s.Failed 0 := ⟨hgood, hphase, houtcome⟩
  refine ⟨s, System.reachable_of_run hrun, houtcome, hphase, fun hlaw => ?_, fun as t ht => ?_⟩
  · exact hfailed.asleep.1.not_awake (hlaw.resumed (by rw [houtcome]; exact nofun) hphase)
  · exact (System.run_invariant hfailed (fun _ _ _ h ht => h.step ht) ht).asleep.1

end Sheep
