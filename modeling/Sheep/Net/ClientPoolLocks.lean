import Sheep.Lib.LockProgram
import Sheep.Net.ClientPool

/-!
# The locks of `ClientPool` and `TcpConnection`

A user thread that gives a client back with an error, and the loop thread that handles the events
of the client's connection, instruction by instruction. `ClientPool::Insert` takes the lock of the
pool and then, in `Finish`, the lock of the connection; an event handler takes the lock of the
connection and then, when it ends in `Finish`, the lock of the pool in the disconnected handler.
User handlers run on both threads and may call the connection and the pool again.

A method that a handler of the connection calls on the same connection takes a lock that its
thread holds already, which never waits: `readHandler` and `writeHandler` have the `Finish` they
end in as part of their body.

`insert_no_deadlock`: no run deadlocks in which the two threads do not cross, that is, in which
neither comes to take its second lock while the other does.
-/

namespace Sheep

/-- The two threads. -/
inductive PoolThread
  | user
  | loop
  deriving DecidableEq, Repr

/-- `ClientPool::lock_` and the `lock_` of the client's `TcpConnection`. -/
inductive PoolLock
  | pool
  | conn
  deriving DecidableEq, Repr

/-- A method of the connection. -/
inductive ConnMethod
  | readHandler (r : SysRead)
  | writeHandler (r : SysResult)
  | deliver
  | finish (errMsg : String)
  | asyncRead (expectSize : UInt64) (h : Handler)
  | asyncReadAny (h : Handler)
  | asyncWrite (h : Handler)
  | push (buf : List UInt8)
  | popHead (len : UInt64)
  /-- a method goes on, the user handler that it called has returned -/
  | resume (f : Frame)
  deriving DecidableEq, Repr

/-- What runs between taking and releasing locks. -/
inductive PoolBody
  | method (m : ConnMethod)
  /-- `Client::Reset("")` and `clients_.insert(client)` -/
  | reset
  | initClient
  /-- the end of the disconnected handler -/
  | erase
  deriving DecidableEq, Repr

abbrev PoolCode := List (LockInstr PoolLock PoolBody)

/-- What a user handler calls. -/
inductive HandlerCall
  | insert (errMsg : String)
  | asyncRead (expectSize : UInt64) (h : Handler)
  | asyncReadAny (h : Handler)
  | asyncWrite (h : Handler)
  | push (buf : List UInt8)
  | popHead (len : UInt64)
  deriving DecidableEq, Repr

/-- An event on the socket or on the asyncer of the connection. -/
inductive LoopEvent
  | readable (r : SysRead)
  | writable (r : SysResult)
  | asyncer
  deriving DecidableEq, Repr

/-! ## The code of the methods -/

namespace PoolCode

/-- A method of the connection that takes its lock. -/
def locked (m : ConnMethod) : PoolCode := uniqueGuard .conn [.run (.method m)]

def initClient : PoolCode := uniqueGuard .pool [.run .initClient]

/-- The disconnected handler: its own guard comes after `initClient`. -/
def disconnected (errMsg : String) : PoolCode :=
  if errMsg = "" then [] else initClient ++ uniqueGuard .pool [.run .erase]

/-- `Insert`, with `Client::Reset`. -/
def insert (errMsg : String) : PoolCode :=
  uniqueGuard .pool (if errMsg ≠ "" then locked (.finish errMsg) else [.run .reset])

/-- `AsyncRead` and `AsyncReadAny` take no lock. -/
def handlerCall : HandlerCall → PoolCode
  | .insert errMsg => insert errMsg
  | .asyncRead n h => [.run (.method (.asyncRead n h))]
  | .asyncReadAny h => [.run (.method (.asyncReadAny h))]
  | .asyncWrite h => locked (.asyncWrite h)
  | .push buf => locked (.push buf)
  | .popHead len => locked (.popHead len)

/-- The handler that a method of the connection calls. `choice` is what a user handler does. -/
def call (choice : List HandlerCall) : Call → PoolCode
  | .finish errMsg => disconnected errMsg
  | .read _ _ | .write _ _ => choice.flatMap handlerCall

/-- What is still to do when control leaves a method of the connection. -/
def pending (choice : List HandlerCall) : Option (Call × Frame) → PoolCode
  | none => []
  | some (h, frame) => call choice h ++ [.run (.method (.resume frame))]

def event : LoopEvent → PoolCode
  | .readable r => locked (.readHandler r)
  | .writable r => locked (.writeHandler r)
  | .asyncer => locked .deliver

end PoolCode

/-! ## The bodies -/

def ConnMethod.exec (conn : TcpConnection) : ConnMethod → Option Outcome
  | .readHandler r => conn.readHandler r
  | .writeHandler r => (conn.writeHandler r).map (·.1)
  | .deliver => conn.deliver
  | .finish errMsg => some (conn.finish errMsg)
  | .asyncRead n h => some (conn.asyncRead n h)
  | .asyncReadAny h => some (conn.asyncReadAny h)
  | .asyncWrite h => conn.asyncWrite h
  | .push buf => (conn.writeBufferPush buf).map (·.return_)
  | .popHead len => (conn.readBufferPopHead len).map fun (_, _, conn') => conn'.return_
  | .resume f => f.resume conn

/-- A body, in the pool whose client is `c`. -/
def PoolBody.exec (c : ClientId) : Bodies PoolLock PoolBody ClientPool (List HandlerCall)
  | .method m, choice, s => do
    let conn ← s.connection c
    let o ← m.exec conn
    return (s.setConnection c o.conn, PoolCode.pending choice o.pending)
  | .reset, _, s => (s.insert c "").map (·, [])
  | .initClient, _, s => some (s.initClient, [])
  | .erase, _, s =>
    some ({ s with clients := s.clients.erase c, allClients := s.allClients.erase c }, [])

/-! ## The two threads -/

abbrev PoolThreads := LockState PoolThread PoolLock PoolBody ClientPool

inductive PoolThreadsAction
  /-- the next instruction of a thread; a user handler that it calls does `choice` -/
  | step (t : PoolThread) (choice : List HandlerCall)
  /-- the user thread calls `Insert` with an error -/
  | insert (errMsg : String)
  /-- the loop thread handles an event -/
  | event (e : LoopEvent)
  deriving DecidableEq, Repr

def PoolThreads.act (c : ClientId) (s : PoolThreads) : PoolThreadsAction → Option PoolThreads
  | .step t choice => s.step (PoolBody.exec c) t choice
  | .insert errMsg => if errMsg ≠ "" then s.start .user (PoolCode.insert errMsg) else none
  | .event e => s.start .loop (PoolCode.event e)

/-- Both threads are idle, and no lock is held. -/
def poolThreads (s : ClientPool) (c : ClientId) : System PoolThreads PoolThreadsAction :=
  ⟨⟨fun _ => none, fun _ => [], s⟩, PoolThreads.act c⟩

/-- The loop thread holds the connection and has still to take the lock of the pool. -/
def PoolThreads.LoopInside (s : PoolThreads) : Prop := s.Holds .loop .conn ∧ s.Needs .loop .pool

/-- The user thread holds the pool and has still to take the lock of the connection. -/
def PoolThreads.UserInside (s : PoolThreads) : Prop := s.Holds .user .pool ∧ s.Needs .user .conn

/-- The next step of the user thread takes the lock of the pool, which it does not hold. -/
def PoolThreads.UserEnters (s : PoolThreads) : Prop :=
  (s.code .user).head? = some (.lock .pool) ∧ ¬ s.Holds .user .pool

/-- The user handler gives the client back. -/
def HandlerCall.Inserts : HandlerCall → Prop
  | .insert _ => True
  | _ => False

/-- The handler takes the lock of the pool: the disconnected handler on an error, a user handler
that gives the client back. -/
def Call.EntersPool (choice : List HandlerCall) : Call → Prop
  | .finish errMsg => errMsg ≠ ""
  | .read _ _ | .write _ _ => ∃ h ∈ choice, h.Inserts

/-- The method of the connection that the loop thread is before. -/
def PoolThreads.loopMethod (s : PoolThreads) : Option ConnMethod :=
  match s.code .loop with
  | .run (.method m) :: _ => some m
  | _ => none

/-- The next step of the loop thread comes to a handler that takes the lock of the pool. -/
def PoolThreads.LoopEnters (c : ClientId) (choice : List HandlerCall) (s : PoolThreads) : Prop :=
  ∃ m ∈ s.loopMethod, ∃ conn ∈ s.shared.connection c, ∃ o ∈ m.exec conn, ∃ p ∈ o.pending,
    p.1.EntersPool choice

/-- The two threads do not cross. -/
def NoCrossing (c : ClientId) (s : PoolThreads) : PoolThreadsAction → Prop
  | .step .user _ => s.UserEnters → ¬ s.LoopInside
  | .step .loop choice => s.LoopEnters c choice → ¬ s.UserInside
  | .insert _ | .event _ => True

instance : ∀ h : HandlerCall, Decidable h.Inserts
  | .insert _ => isTrue True.intro
  | .asyncRead .. | .asyncReadAny _ | .asyncWrite _ | .push _ | .popHead _ => isFalse id

instance (choice : List HandlerCall) : ∀ h : Call, Decidable (h.EntersPool choice)
  | .finish errMsg => inferInstanceAs (Decidable (errMsg ≠ ""))
  | .read .. | .write .. => inferInstanceAs (Decidable (∃ h ∈ choice, h.Inserts))

instance (c : ClientId) (choice : List HandlerCall) (s : PoolThreads) :
    Decidable (s.LoopEnters c choice) :=
  inferInstanceAs (Decidable (∃ m ∈ s.loopMethod, ∃ conn ∈ s.shared.connection c,
    ∃ o ∈ m.exec conn, ∃ p ∈ o.pending, p.1.EntersPool choice))

instance (c : ClientId) (s : PoolThreads) : ∀ a, Decidable (NoCrossing c s a)
  | .step .user _ => inferInstanceAs (Decidable
      ((s.code .user).head? = some (.lock .pool) ∧ ¬ s.Holds .user .pool →
        ¬ (s.Holds .loop .conn ∧ s.Needs .loop .pool)))
  | .step .loop choice => inferInstanceAs (Decidable
      (s.LoopEnters c choice → ¬ (s.Holds .user .pool ∧ s.Needs .user .conn)))
  | .insert _ | .event _ => isTrue True.intro

/-! ## The code is nested -/

theorem PoolCode.locked_nested (m : ConnMethod) : Nested (PoolCode.locked m) := by
  have h := Nested.guard (B := PoolBody) PoolLock.conn (.run (.method m) .nil) .nil
  simpa [PoolCode.locked] using h

theorem PoolCode.insert_nested (errMsg : String) : Nested (PoolCode.insert errMsg) := by
  have hbody : Nested
      (if errMsg ≠ "" then PoolCode.locked (.finish errMsg) else [.run .reset]) := by
    split
    · exact PoolCode.locked_nested _
    · exact .run _ .nil
  have h := Nested.guard PoolLock.pool hbody .nil
  simpa only [PoolCode.insert, List.append_nil] using h

theorem PoolCode.disconnected_nested (errMsg : String) : Nested (PoolCode.disconnected errMsg) := by
  have herase := Nested.guard (B := PoolBody) PoolLock.pool (.run .erase .nil) .nil
  rw [List.append_nil] at herase
  unfold PoolCode.disconnected
  split
  · exact .nil
  · exact .guard .pool (.run _ .nil) herase

theorem PoolCode.handlerCall_nested (h : HandlerCall) : Nested (PoolCode.handlerCall h) := by
  cases h with
  | insert errMsg => exact PoolCode.insert_nested errMsg
  | asyncRead | asyncReadAny => exact .run _ .nil
  | asyncWrite | push | popHead => exact PoolCode.locked_nested _

theorem PoolCode.pending_nested (choice : List HandlerCall) (p : Option (Call × Frame)) :
    Nested (PoolCode.pending choice p) := by
  cases p with
  | none => exact .nil
  | some p =>
    obtain ⟨h, f⟩ := p
    have hcall : Nested (PoolCode.call choice h) := by
      cases h with
      | finish errMsg => exact PoolCode.disconnected_nested errMsg
      | read | write =>
        simp only [PoolCode.call]
        induction choice with
        | nil => exact .nil
        | cons h choice ih => exact (PoolCode.handlerCall_nested h).append ih
    exact hcall.append (.run _ .nil)

theorem PoolBody.exec_nested {c : ClientId} {choice : List HandlerCall} (body : PoolBody)
    (s s' : ClientPool) (code : PoolCode) (h : body.exec c choice s = some (s', code)) :
    Nested code := by
  cases body with
  | method m =>
    simp only [PoolBody.exec, Option.bind_eq_bind, Option.bind_eq_some_iff, Option.pure_def] at h
    obtain ⟨conn, -, o, -, ho⟩ := h
    cases ho
    exact PoolCode.pending_nested choice o.pending
  | reset =>
    obtain ⟨s'', -, heq⟩ := Option.map_eq_some_iff.mp h
    cases heq
    exact .nil
  | initClient | erase =>
    cases h
    exact .nil

/-! ## Where the loop thread comes to the lock of the pool -/

theorem PoolCode.lock_mem_pending {choice : List HandlerCall} {p : Option (Call × Frame)}
    (h : .lock .pool ∈ PoolCode.pending choice p) :
    ∃ call f, p = some (call, f) ∧ call.EntersPool choice := by
  cases p with
  | none => cases h
  | some p =>
    obtain ⟨call, f⟩ := p
    refine ⟨call, f, rfl, ?_⟩
    simp only [PoolCode.pending, List.mem_append, List.mem_singleton, reduceCtorEq, or_false] at h
    cases call with
    | finish errMsg =>
      simp only [PoolCode.call, PoolCode.disconnected] at h
      split at h
      · cases h
      · assumption
    | read | write =>
      simp only [PoolCode.call, List.mem_flatMap] at h
      obtain ⟨hc, hmem, hlock⟩ := h
      cases hc with
      | insert errMsg => exact ⟨_, hmem, True.intro⟩
      | asyncRead | asyncReadAny | asyncWrite | push | popHead =>
        simp [PoolCode.handlerCall, PoolCode.locked, uniqueGuard] at hlock

theorem PoolThreads.loopEnters {c : ClientId} {choice : List HandlerCall} {s : PoolThreads}
    {body : PoolBody} {k code : PoolCode} {s' : ClientPool}
    (hcode : s.code .loop = .run body :: k)
    (hexec : body.exec c choice s.shared = some (s', code)) (hlock : .lock .pool ∈ code) :
    s.LoopEnters c choice := by
  cases body with
  | method m =>
    simp only [PoolBody.exec, Option.bind_eq_bind, Option.bind_eq_some_iff,
      Option.pure_def] at hexec
    obtain ⟨conn, hconn, o, ho, heq⟩ := hexec
    cases heq
    obtain ⟨call, f, hpending, henters⟩ := PoolCode.lock_mem_pending hlock
    have hm : s.loopMethod = some m := by simp only [PoolThreads.loopMethod, hcode]
    exact ⟨m, hm, conn, hconn, o, ho, (call, f), hpending, henters⟩
  | reset =>
    obtain ⟨s'', -, heq⟩ := Option.map_eq_some_iff.mp hexec
    cases heq
    cases hlock
  | initClient | erase =>
    cases hexec
    cases hlock

/-! ## Every run -/

/-- The user thread's programs are enclosed by the lock of the pool, the loop thread's by that of
the connection, and the two do not cross. -/
abbrev PoolThreads.Inv (s : PoolThreads) : Prop := TwoLocks s .user .loop .pool .conn

namespace PoolThreads.Inv

variable {c : ClientId} {s s' : PoolThreads}

theorem insert {errMsg : String} (h : s.Inv) (he : errMsg ≠ "")
    (hs : s.start .user (PoolCode.insert errMsg) = some s') : s'.Inv := by
  simp only [PoolCode.insert, he, ne_eq, not_false_eq_true, ↓reduceIte] at hs
  refine h.start_first nofun (PoolCode.locked_nested _).scope ?_ hs
  simp [PoolCode.locked, uniqueGuard, Inside]

theorem event {e : LoopEvent} (h : s.Inv) (hs : s.start .loop (PoolCode.event e) = some s') :
    s'.Inv := by
  cases e with
  | readable | writable | asyncer =>
    refine h.start_second nofun ?_ (by simp) hs
    exact (Nested.run _ .nil).scope

theorem act {a : PoolThreadsAction} (h : s.Inv) (ha : NoCrossing c s a)
    (hs : s.act c a = some s') : s'.Inv := by
  cases a with
  | step t choice =>
    cases t with
    | user =>
      exact h.step_first nofun PoolBody.exec_nested (fun htakes hfree => ha ⟨htakes, hfree⟩) hs
    | loop =>
      refine h.step_second nofun PoolBody.exec_nested ?_ hs
      intro body k σ code hcode hexec hlock
      exact ha (loopEnters hcode hexec hlock)
  | insert errMsg =>
    simp only [PoolThreads.act, Option.ite_none_right_eq_some] at hs
    exact h.insert hs.1 hs.2
  | event e => exact h.event hs

theorem init (p : ClientPool) (c : ClientId) : PoolThreads.Inv (poolThreads p c).init :=
  ⟨.inl ⟨rfl, .inl rfl⟩, .inl ⟨rfl, .inl rfl⟩, True.intro, fun _ => nofun, nofun⟩

end PoolThreads.Inv

/-- In every state of a run in which the two threads do not cross, the user thread does not hold the
lock of the pool and wait for that of the connection while the loop thread holds the latter and
waits for the former. -/
theorem insert_no_deadlock (p : ClientPool) (c : ClientId) (s : PoolThreads)
    (h : (poolThreads p c).ReachableVia (NoCrossing c) s) :
    ¬ s.Deadlocked .user .loop .pool .conn :=
  (h.invariant (P := PoolThreads.Inv) (.init p c) fun _ _ _ hinv ha hs =>
    hinv.act ha hs).not_deadlocked

/-- A pool whose one client is connected. -/
def onePool : ClientPool :=
  { ClientPool.new 1 with
    inited := true
    allClients := {0}
    connection := fun _ => some .connected
    nextClient := 1
    out := {0} }

/-- The peer closes the connection while the user thread gives the client back: the user thread is
in `Finish` when the event comes. -/
def insertFirst : List PoolThreadsAction :=
  [.insert "parse failed", .step .user [], .event (.readable (.bytes [])), .step .user [],
    .step .user []]

theorem insert_no_deadlock_insertFirst :
    ∃ s, (poolThreads onePool 0).run (poolThreads onePool 0).init insertFirst = some s ∧
      s.Waits .loop .conn ∧ ¬ s.Deadlocked .user .loop .pool .conn :=
  have hvia : (poolThreads onePool 0).AllSteps (NoCrossing 0) (poolThreads onePool 0).init
      insertFirst := by decide
  ⟨_, rfl, by decide, insert_no_deadlock onePool 0 _ (System.ReachableVia.init.run hvia rfl)⟩

/-- The loop thread has read the end of the stream before the user thread takes the lock of the
connection. -/
theorem insert_deadlocks :
    ∃ s, (poolThreads onePool 0).run (poolThreads onePool 0).init
        [.insert "parse failed", .event (.readable (.bytes [])), .step .user [], .step .loop [],
          .step .loop []] = some s ∧ s.Deadlocked .user .loop .pool .conn :=
  ⟨_, rfl, by decide⟩

end Sheep
