import Sheep.Coroutine.Fairness
import Sheep.Net.TcpConnection

/-!
# `CoTcpConnection`

`coTcp coroNum c` is a coroutine `c` that reads from and writes to a connection, on a scheduler
with other coroutines whose loop also dispatches the connection's events. `Read` and `Write` pass
a callback to `AsyncRead` and `AsyncWrite` that stores the error and resumes the coroutine, and
then suspend it. Between its calls the coroutine may yield, sleep, suspend and finish, and others
may resume it.

`CoLaw`: neither method returns before its own callback has run, and the buffers of the successful
`Read`s are the stream. `coLaw_of_noOtherWake`: it holds in every run in which nothing but its own
callback can wake a call. Three things can. `readHandler` calls the callback of an earlier `Read`
again when bytes, an error or the end of the stream arrive while a `Write` waits. That callback
also cuts a sleep between two calls short, and the entry of the sleep stays in `sleepQueue_` and
falls due in a later call. And another thread may resume the coroutine, in a call or so shortly
before it that the request is still in `resumeQueue_`.
-/

namespace Sheep

inductive CoOp
  /-- `len` is converted to `uint64_t` -/
  | read (len : UInt64)
  | write (buf : List UInt8)
  deriving DecidableEq, Repr

/-- The call of `Read` or `Write` that the coroutine is in. -/
structure CoCall where
  /-- the name of the callback -/
  number : Handler
  op : CoOp
  /-- `suspend()` has been called -/
  suspended : Bool
  /-- ghost: the last `argErrMsg` of its own callback -/
  answer : Option String
  deriving DecidableEq, Repr

/-- Ghost: a call that has returned. -/
structure CoReturn where
  op : CoOp
  errMsg : String
  /-- what was copied into `buf` -/
  bytes : List UInt8
  answer : Option String
  deriving DecidableEq, Repr

structure CoTcpRun where
  sched : Scheduler
  conn : TcpConnection
  /-- what is left of the method whose handler runs -/
  frame : Option Frame
  /-- the variables that `errMsg` refers to -/
  errMsgs : Nat → String
  /-- the variable that a callback has a reference to -/
  refs : Handler → Nat
  call : Option CoCall
  /-- ghost: the number of calls so far -/
  calls : Nat
  /-- ghost: the bytes that arrived -/
  received : List UInt8
  /-- ghost: the calls that have returned, the latest first -/
  returns : List CoReturn

inductive CoAction
  /-- a step of the scheduler, of another coroutine or thread, or of the coroutine between two
  calls -/
  | sched (a : SchedulerAction)
  | read (len : UInt64) (errMsg : Nat)
  | write (buf : List UInt8) (errMsg : Nat)
  /-- the `suspend()` of `Read` or `Write` -/
  | suspend
  /-- the rest of `Read` or `Write`, after `suspend()` -/
  | return_
  /-- the handler that the connection has called returns -/
  | handlerReturns
  | deliver
  | readable (r : SysRead)
  | writable (r : SysResult)
  deriving DecidableEq, Repr

/-- The error code that a handler call passes. -/
def Call.handled : Call → Option (Handler × String)
  | .read h errMsg | .write h errMsg => some (h, errMsg)
  | .finish _ => none

namespace CoTcpRun

/-- `addCoroutine` has taken the slot `c`. -/
def init (coroNum c : Nat) : CoTcpRun where
  sched := ((Scheduler.init coroNum).moveToYield c).setStatus c .ready
  conn := .connected
  frame := none
  errMsgs := fun _ => ""
  refs := fun _ => 0
  call := none
  calls := 0
  received := []
  returns := []

/-- The callback of a call of `Read` or `Write`. -/
def callback (c : Nat) (s : CoTcpRun) (h : Handler) (argErrMsg : String) : CoTcpRun :=
  { s with
    errMsgs := Function.update s.errMsgs (s.refs h) argErrMsg
    sched := { s.sched with resumeQueue := s.sched.resumeQueue ++ [c] }
    call := s.call.map fun call =>
      if call.number = h then { call with answer := some argErrMsg } else call }

/-- Control leaves a method of the connection, to a handler or back to the caller. -/
def leave (c : Nat) (s : CoTcpRun) (o : Outcome) : CoTcpRun :=
  match o.pending with
  | none => { s with conn := o.conn, frame := none }
  | some (call, frame) =>
    match call.handled with
    | none => { s with conn := o.conn, frame := some frame }
    | some (h, errMsg) => { s with conn := o.conn, frame := some frame }.callback c h errMsg

/-- A new call of `Read` or `Write`. -/
def enter (s : CoTcpRun) (op : CoOp) (errMsg : Nat) : CoTcpRun :=
  { s with
    refs := Function.update s.refs s.calls errMsg
    call := some ⟨s.calls, op, false, none⟩
    calls := s.calls + 1 }

/-- What the scheduler's other work may be. The coroutine itself leaves the processor as it likes
between its calls of `Read` and `Write`. -/
def canSchedule (c : Nat) (s : CoTcpRun) : SchedulerAction → Prop
  | .clock _ | .addCoroutine | .resume _ => True
  | .next => s.frame = none
  | .yield | .suspend | .sleep _ | .finish =>
    s.frame = none ∧ (s.sched.currentCoro = some c → s.call = none)

instance (c : Nat) (s : CoTcpRun) : DecidablePred (s.canSchedule c)
  | .clock _ | .addCoroutine | .resume _ => isTrue True.intro
  | .next => inferInstanceAs (Decidable (s.frame = none))
  | .yield | .suspend | .sleep _ | .finish => inferInstanceAs (Decidable
      (s.frame = none ∧ (s.sched.currentCoro = some c → s.call = none)))

/-- The coroutine runs its own code, and is not in a method of the connection. -/
def runs (c : Nat) (s : CoTcpRun) : Prop := s.frame = none ∧ s.sched.currentCoro = some c

instance (c : Nat) (s : CoTcpRun) : Decidable (s.runs c) :=
  inferInstanceAs (Decidable (s.frame = none ∧ s.sched.currentCoro = some c))

/-- `run` is at `loop_->runOnce()`. -/
def runsOnce (s : CoTcpRun) : Prop :=
  s.frame = none ∧ s.sched.currentCoro = none ∧ s.sched.pc = .wakeUpSleep

instance (s : CoTcpRun) : Decidable s.runsOnce :=
  inferInstanceAs (Decidable
    (s.frame = none ∧ s.sched.currentCoro = none ∧ s.sched.pc = .wakeUpSleep))

/-- The end of `Read` and `Write`. -/
def returnFrom (s : CoTcpRun) (call : CoCall) : Option CoTcpRun :=
  match call.op with
  | .write _ => some { s with
      call := none
      returns := ⟨call.op, s.errMsgs (s.refs call.number), [], call.answer⟩ :: s.returns }
  | .read len =>
    if s.errMsgs (s.refs call.number) ≠ "" then
      some { s with
        call := none
        returns := ⟨call.op, s.errMsgs (s.refs call.number), [], call.answer⟩ :: s.returns }
    else
      (s.conn.readBufferPopHead len).map fun (_, bytes, conn) => { s with
        conn := conn
        call := none
        returns := ⟨call.op, "", bytes, call.answer⟩ :: s.returns }

def step (coroNum c : Nat) (s : CoTcpRun) : CoAction → Option CoTcpRun
  | .sched a =>
    if s.canSchedule c a then (s.sched.stepAny coroNum a).map fun sched => { s with sched := sched }
    else none
  | .read len errMsg =>
    if s.runs c ∧ s.call = none then
      some ((s.enter (.read len) errMsg).leave c (s.conn.asyncRead len s.calls))
    else none
  | .write buf errMsg =>
    if s.runs c ∧ s.call = none then
      (s.conn.writeBufferPush buf).bind fun conn =>
        (conn.asyncWrite s.calls).map ((s.enter (.write buf) errMsg).leave c)
    else none
  | .suspend =>
    match s.call with
    | some call =>
      if s.runs c ∧ call.suspended = false then
        some { s with
          sched := s.sched.suspend c .suspended, call := some { call with suspended := true } }
      else none
    | none => none
  | .return_ =>
    match s.call with
    | some call => if s.runs c ∧ call.suspended = true then s.returnFrom call else none
    | none => none
  | .handlerReturns => s.frame.bind fun f => (f.resume s.conn).map (s.leave c)
  | .deliver => if s.runsOnce then s.conn.deliver.map (s.leave c) else none
  | .readable r =>
    if s.runsOnce ∧ s.conn.event.any (·.readNotify) then
      (s.conn.readHandler r).map
        ({ s with received := s.received ++ (Socket.read r).2.2 }.leave c)
    else none
  | .writable r =>
    if s.runsOnce ∧ s.conn.writeNotify then
      (s.conn.writeHandler r).map fun (o, _) => s.leave c o
    else none

end CoTcpRun

/-- A coroutine that uses a connection. -/
def coTcp (coroNum c : Nat) : System CoTcpRun CoAction :=
  ⟨.init coroNum c, CoTcpRun.step coroNum c⟩

/-- The contract of `Read` and `Write`. -/
structure CoLaw (s : CoTcpRun) : Prop where
  /-- neither returns before its own callback has run -/
  calledBack : ∀ r ∈ s.returns, r.answer ≠ none
  /-- a `Read` that returns without an error has copied `len` bytes -/
  complete : ∀ r ∈ s.returns, ∀ len, r.op = .read len → r.errMsg = "" →
    r.bytes.length = len.toNat
  /-- the buffers of the `Read`s, one after the other, are a prefix of the stream -/
  stream : s.returns.reverse.flatMap (·.bytes) <+: s.received

namespace CoTcpRun

/-- The `Read` that the coroutine is in: its callback, `len`, and the last `argErrMsg`. -/
def reading (s : CoTcpRun) : Option (Handler × UInt64 × Option String) :=
  match s.call with
  | some ⟨number, .read len, _, answer⟩ => some (number, len, answer)
  | _ => none

/-- The `Write` that the coroutine is in, while it has not been called back. -/
def writing (s : CoTcpRun) : Option Handler :=
  match s.call with
  | some ⟨number, .write _, _, none⟩ => some number
  | _ => none

/-- The coroutine is in a call that has not been called back. -/
def unanswered (s : CoTcpRun) : Bool := s.call.any (·.answer.isNone)

end CoTcpRun

/-- The condition on a step: in a call that has not been called back, nothing arrives for an
earlier `Read`, no entry of an earlier sleep falls due and nobody resumes the coroutine; and a call
begins with no request for the coroutine left. -/
def NoOtherWake (c : Nat) (s : CoTcpRun) : CoAction → Prop
  | .readable r => r ≠ .eagain → s.writing ≠ none → s.conn.userReadHandler = none
  | .sched .next => s.unanswered → s.sched.pc = .wakeUpSleep → ∀ e ∈ s.sched.due, e.coro ≠ c
  | .sched (.resume d) => s.unanswered → d ≠ c
  | .read .. | .write .. => c ∉ s.sched.resumeQueue
  | _ => True

instance (c : Nat) : ∀ s a, Decidable (NoOtherWake c s a)
  | s, .readable r => inferInstanceAs
      (Decidable (r ≠ .eagain → s.writing ≠ none → s.conn.userReadHandler = none))
  | s, .sched .next => inferInstanceAs (Decidable
      (s.unanswered → s.sched.pc = .wakeUpSleep → ∀ e ∈ s.sched.due, e.coro ≠ c))
  | s, .sched (.resume d) => inferInstanceAs (Decidable (s.unanswered → d ≠ c))
  | s, .read .. | s, .write .. => inferInstanceAs (Decidable (c ∉ s.sched.resumeQueue))
  | _, .sched (.clock _) | _, .sched .yield | _, .sched .suspend | _, .sched (.sleep _)
  | _, .sched .finish | _, .sched .addCoroutine | _, .suspend | _, .return_ | _, .handlerReturns
  | _, .deliver | _, .writable _ => isTrue True.intro

/-! ## Where the coroutine is -/

/-- Where the coroutine is in the scheduler. In a call, nothing wakes it before its callback has
run. -/
structure CoPlace (c : Nat) (s : CoTcpRun) : Prop where
  phase : PhaseInv s.sched
  once : RestOnce s.sched
  /-- in a call, before `suspend()` -/
  calling : ∀ call, s.call = some call → call.suspended = false →
    s.sched.currentCoro = some c ∧ (call.answer = none → c ∉ s.sched.resumeQueue)
  /-- in a call, after `suspend()` -/
  waiting : ∀ call, s.call = some call → call.suspended = true → call.answer = none →
    Blocked c s.sched
  /-- a handler runs in `runOnce`, or inside of a call -/
  inside : s.frame ≠ none → (s.sched.currentCoro = none ∧ s.sched.pc = .wakeUpSleep) ∨
    ∃ call, s.call = some call ∧ call.suspended = false

/-- A callback may run: it is that of the current call, or the current call has been called back. -/
def CoTcpRun.MayCall (s : CoTcpRun) (h : Handler) : Prop :=
  ∀ call, s.call = some call → call.number = h ∨ call.answer ≠ none

namespace CoPlace

open CoTcpRun

variable {c : Nat} {s t : CoTcpRun}

theorem init (coroNum c : Nat) : CoPlace c (coTcp coroNum c).init where
  phase := by
    refine ⟨.nil, List.nodup_singleton c, fun d hd => ?_, nofun, nofun⟩
    obtain rfl : d = c := List.mem_singleton.mp hd
    exact fun h => absurd ((Function.update_self ..).symm.trans h) nofun
  once := ⟨.nil, nofun⟩
  calling := nofun
  waiting := nofun
  inside := fun h => absurd rfl h

theorem unanswered_of_call {call : CoCall} (hcall : s.call = some call)
    (hanswer : call.answer = none) : s.unanswered = true := by
  unfold unanswered
  rw [hcall, Option.any_some, hanswer]
  rfl

/-- While a handler runs, other threads may only add coroutines and ask for a resume. -/
theorem sched_inside {coroNum : Nat} {a : SchedulerAction} {sched : Scheduler} (hs : CoPlace c s)
    (ha : s.canSchedule c a) (hstep : s.sched.stepAny coroNum a = some sched)
    (hf : s.frame ≠ none) :
    (sched.currentCoro = none ∧ sched.pc = .wakeUpSleep) ∨
      ∃ call, s.call = some call ∧ call.suspended = false := by
  have hold := hs.inside hf
  cases a with
  | clock now =>
    cases hstep
    exact hold
  | addCoroutine =>
    cases hstep
    unfold Scheduler.addCoroutine
    split <;> exact hold
  | resume d =>
    simp only [Scheduler.stepAny, Option.ite_none_right_eq_some, Option.some.injEq] at hstep
    obtain ⟨-, rfl⟩ := hstep
    exact hold
  | next => exact absurd ha hf
  | yield | suspend | sleep ms | finish => exact absurd ha.1 hf

/-- Before `suspend()` the coroutine stays on the processor, and only its callback asks for it. -/
theorem sched_calling {coroNum : Nat} {a : SchedulerAction} {sched : Scheduler} {call : CoCall}
    (hs : CoPlace c s) (ha : s.canSchedule c a) (hG : NoOtherWake c s (.sched a))
    (hstep : s.sched.stepAny coroNum a = some sched) (hcall : s.call = some call)
    (hsus : call.suspended = false) :
    sched.currentCoro = some c ∧ (call.answer = none → c ∉ sched.resumeQueue) := by
  obtain ⟨hcur, hqueue⟩ := hs.calling call hcall hsus
  cases a with
  | clock now =>
    cases hstep
    exact ⟨hcur, hqueue⟩
  | addCoroutine =>
    cases hstep
    unfold Scheduler.addCoroutine
    split <;> exact ⟨hcur, hqueue⟩
  | resume d =>
    simp only [Scheduler.stepAny, Option.ite_none_right_eq_some, Option.some.injEq] at hstep
    obtain ⟨-, rfl⟩ := hstep
    refine ⟨hcur, fun hanswer hc => ?_⟩
    rcases List.mem_append.mp hc with hc | hc
    · exact hqueue hanswer hc
    · exact hG (unanswered_of_call hcall hanswer) (List.mem_singleton.mp hc).symm
  | next => cases hcur.symm.trans (Scheduler.nextStep hstep).1
  | yield | suspend | sleep ms | finish => cases hcall.symm.trans (ha.2 hcur)

/-- A step of the scheduler, of another coroutine or thread, or of the coroutine between two
calls. -/
theorem sched {coroNum : Nat} {a : SchedulerAction} {sched : Scheduler} (hs : CoPlace c s)
    (ha : s.canSchedule c a) (hG : NoOtherWake c s (.sched a))
    (hstep : s.sched.stepAny coroNum a = some sched) : CoPlace c { s with sched := sched } := by
  refine ⟨hs.phase.step hstep, hs.once.step hs.phase hstep,
    fun call hcall hsus => hs.sched_calling ha hG hstep hcall hsus,
    fun call hcall hsus hanswer => ?_, hs.sched_inside ha hstep⟩
  have hun := unanswered_of_call hcall hanswer
  refine (hs.waiting call hcall hsus hanswer).step ?_ ?_ hstep
  · rintro rfl
    exact hG hun rfl
  · rintro rfl
    exact hG hun

/-- A callback that may run leaves the current call, if there is one, called back. -/
theorem answered_callback {h : Handler} {argErrMsg : String} {call : CoCall} (hmay : s.MayCall h)
    (hcall : (s.callback c h argErrMsg).call = some call) :
    ∃ old, s.call = some old ∧ call.suspended = old.suspended ∧ call.answer ≠ none := by
  obtain ⟨old, hold, rfl⟩ := Option.map_eq_some_iff.mp hcall
  refine ⟨old, hold, ?_⟩
  split
  next => exact ⟨rfl, nofun⟩
  next hne => exact ⟨rfl, (hmay old hold).resolve_left hne⟩

/-- A callback that may run keeps the coroutine where it is. -/
theorem callback {h : Handler} {argErrMsg : String} (hs : CoPlace c s) (hmay : s.MayCall h) :
    CoPlace c (s.callback c h argErrMsg) := by
  refine ⟨⟨hs.phase.resume_nodup, hs.phase.yield_nodup, hs.phase.yield, hs.phase.switching,
    hs.phase.resume⟩, hs.once, fun call hcall hsus => ?_, fun call hcall _ hanswer => ?_,
    fun hf => ?_⟩
  · obtain ⟨old, hold, hsame, hans⟩ := answered_callback hmay hcall
    exact ⟨(hs.calling old hold (hsame ▸ hsus)).1, fun h => absurd h hans⟩
  · obtain ⟨-, -, -, hans⟩ := answered_callback hmay hcall
    exact absurd hanswer hans
  · rcases hs.inside hf with hw | ⟨k, hk, hksus⟩
    · exact .inl hw
    · refine .inr ⟨_, by show s.call.map _ = _; rw [hk]; rfl, ?_⟩
      show (if k.number = h then { k with answer := some argErrMsg } else k).suspended = false
      split <;> exact hksus

/-- Where the coroutine is does not depend on the connection, as long as a handler that runs may. -/
theorem withFrame (hs : CoPlace c s) (conn : TcpConnection) (frame : Option Frame)
    (hwhen : frame ≠ none → (s.sched.currentCoro = none ∧ s.sched.pc = .wakeUpSleep) ∨
      ∃ call, s.call = some call ∧ call.suspended = false) :
    CoPlace c { s with conn := conn, frame := frame } :=
  ⟨hs.phase, hs.once, hs.calling, hs.waiting, hwhen⟩

/-- Control leaves a method of the connection. -/
theorem leave {o : Outcome} (hs : CoPlace c s)
    (hmay : ∀ call f h e, o.pending = some (call, f) → call.handled = some (h, e) → s.MayCall h)
    (hwhen : (s.sched.currentCoro = none ∧ s.sched.pc = .wakeUpSleep) ∨
      ∃ call, s.call = some call ∧ call.suspended = false) : CoPlace c (s.leave c o) := by
  unfold CoTcpRun.leave
  split
  next => exact hs.withFrame o.conn none fun hf => absurd rfl hf
  next call f hp =>
    have hframe := hs.withFrame o.conn (some f) fun _ => hwhen
    split
    next => exact hframe
    next h e hh => exact hframe.callback (hmay call f h e hp hh)

/-- A call of `Read` or `Write` begins. -/
theorem enter (hs : CoPlace c s) (op : CoOp) (ref : Nat) (hruns : s.runs c)
    (hqueue : c ∉ s.sched.resumeQueue) : CoPlace c (s.enter op ref) := by
  refine ⟨hs.phase, hs.once, ?_, ?_, fun hf => absurd hruns.1 hf⟩
  · rintro call ⟨⟩ -
    exact ⟨hruns.2, fun _ => hqueue⟩
  · rintro call ⟨⟩ ⟨⟩

/-- The `suspend()` of a call: from now on only its own callback wakes the coroutine. -/
theorem suspend {call : CoCall} (hs : CoPlace c s) (hruns : s.runs c) (hcall : s.call = some call)
    (hsus : call.suspended = false) :
    CoPlace c { s with
      sched := s.sched.suspend c .suspended, call := some { call with suspended := true } } := by
  have hstep : s.sched.stepAny 0 .suspend = some (s.sched.suspend c .suspended) :=
    congrArg (Option.map _) hruns.2
  refine ⟨hs.phase.step hstep, hs.once.step hs.phase hstep, ?_, ?_, fun hf => absurd hruns.1 hf⟩
  · rintro _ ⟨⟩ ⟨⟩
  · rintro _ ⟨⟩ - hanswer
    exact .suspend .suspended ((hs.calling call hcall hsus).2 hanswer) (hs.once.2 c hruns.2)

/-- A call returns: its own callback has run. -/
theorem return_ {call : CoCall} (hs : CoPlace c s) (hruns : s.runs c) (hcall : s.call = some call)
    (hsus : call.suspended = true) (ht : s.returnFrom call = some t) :
    CoPlace c t ∧ call.answer ≠ none := by
  have hsame : t.sched = s.sched ∧ t.call = none ∧ t.frame = s.frame := by
    unfold returnFrom at ht
    split at ht
    · cases ht
      exact ⟨rfl, rfl, rfl⟩
    · split at ht
      · cases ht
        exact ⟨rfl, rfl, rfl⟩
      · obtain ⟨x, -, rfl⟩ := Option.map_eq_some_iff.mp ht
        exact ⟨rfl, rfl, rfl⟩
  obtain ⟨hsched, hnone, hframe⟩ := hsame
  refine ⟨⟨hsched ▸ hs.phase, hsched ▸ hs.once, ?_, ?_, fun hf => absurd (hframe.trans hruns.1) hf⟩,
    fun hanswer => (hs.waiting call hcall hsus hanswer).current hruns.2⟩
  all_goals
    intro k hk
    exact absurd (hnone.symm.trans hk) nofun

end CoPlace

/-! ## The connection -/

namespace CoTcpRun

variable {c : Nat} {s : CoTcpRun} {h : Handler} {e : String}

/-- What the `Read` that has been called back without an error will take out of the buffer. -/
def owed (s : CoTcpRun) : Nat :=
  match s.reading with
  | some (_, len, some "") => len.toNat
  | _ => 0

theorem owed_of_reading {number : Handler} {len : UInt64}
    (hs : s.reading = some (number, len, some "")) : s.owed = len.toNat := by
  unfold owed
  rw [hs]
  rfl

def popped (s : CoTcpRun) : List UInt8 := s.returns.reverse.flatMap (·.bytes)

theorem reading_callback : (s.callback c h e).reading =
    s.reading.map fun (number, len, answer) =>
      (number, len, if number = h then some e else answer) := by
  unfold reading callback
  cases s.call with
  | none => rfl
  | some call =>
    obtain ⟨number, op, suspended, answer⟩ := call
    cases op <;> by_cases hn : number = h <;> simp [hn]

theorem writing_callback : (s.callback c h e).writing = s.writing.filter (· ≠ h) := by
  unfold writing callback
  cases s.call with
  | none => rfl
  | some call =>
    obtain ⟨number, op, suspended, answer⟩ := call
    cases op <;> cases answer <;> by_cases hn : number = h <;> simp [hn, Option.filter]

theorem writing_of_reading (hs : s.reading ≠ none) : s.writing = none := by
  unfold reading at hs
  unfold writing
  cases hc : s.call with
  | none => rfl
  | some call =>
    obtain ⟨number, op, suspended, answer⟩ := call
    rw [hc] at hs
    cases op with
    | read len => rfl
    | write buf => exact absurd rfl hs

theorem reading_of_writing (hs : s.writing = some h) : s.reading = none := by
  by_contra hne
  exact absurd ((writing_of_reading hne).symm.trans hs) nofun

/-- While no handler runs, none returns into a `Finish`. -/
theorem not_callFinish (hframe : s.frame = none) :
    ¬ ∃ errMsg, s.frame = some (.callFinish errMsg) := by
  rintro ⟨errMsg, hf⟩
  cases hframe.symm.trans hf

/-- The callback of a `Write` that waits for it may run. -/
theorem mayCall_writing (hs : s.writing = some h) : s.MayCall h := by
  unfold writing at hs
  intro call hc
  rw [hc] at hs
  split at hs
  next heq =>
    cases heq
    exact .inl (Option.some.inj hs)
  next => cases hs

/-- No `Read` or `Write` waits for another callback. -/
theorem mayCall_of_answered (hs : s.writing = none)
    (hr : ∀ number len, s.reading = some (number, len, none) → number = h) : s.MayCall h := by
  unfold writing at hs
  unfold reading at hr
  intro call hc
  obtain ⟨number, op, suspended, answer⟩ := call
  rw [hc] at hs hr
  cases answer with
  | some e => exact .inr nofun
  | none =>
    cases op with
    | read len => exact .inl (hr number len rfl)
    | write buf => cases hs

end CoTcpRun

/-- The fields of the connection that reading is about. -/
def TcpConnection.readSide (c : TcpConnection) :
    Buffer × Bool × Option Handler × UInt64 × UInt64 :=
  (c.readBuffer, c.anyFlag, c.userReadHandler, c.expectSize, c.readedSize)

/-- The fields of the connection that writing is about. -/
def TcpConnection.writeSide (c : TcpConnection) :
    Option Asyncer × Option Handler × Bool × Option Event × Bool :=
  (c.asyncer, c.userWriteHandler, c.writeDone, c.event, c.finished)

/-- The read side. The buffer holds what `readedSize_` counts, and what the current `Read` has been
promised. -/
structure CoReads (s : CoTcpRun) : Prop where
  ok : s.conn.readBuffer.Ok
  stream : s.received = s.popped ++ s.conn.readBuffer.unread
  anyFlag : s.conn.anyFlag = false
  waits : ∀ number len, s.reading = some (number, len, none) →
    s.conn.userReadHandler = some number ∧ s.conn.expectSize = len
  idle : (∀ number len, s.reading ≠ some (number, len, none)) → s.conn.expectSize = 0
  size : s.conn.readedSize.toNat + s.owed ≤ s.conn.readBuffer.unread.length
  failed : ∀ number len e, s.reading = some (number, len, some e) → e ≠ "" →
    s.errMsgs (s.refs number) = e ∧
      (s.conn.finished = true ∨ ∃ errMsg, s.frame = some (.callFinish errMsg))

/-- The write side. Every handler that may still be called is that of the current `Write`. -/
structure CoWrites (s : CoTcpRun) : Prop where
  undelivered : ∀ h, s.conn.undelivered = some h → s.writing = some h ∧
    (s.conn.writeDone = false → s.conn.userWriteHandler = none)
  undone : s.conn.writeDone = false → ∀ h, s.conn.userWriteHandler = some h → s.writing = some h
  notify : s.conn.writeNotify = true →
    (∃ h, s.conn.userWriteHandler = some h ∧ s.writing = some h ∧ s.conn.undelivered = none) ∨
      (∃ errMsg, s.frame = some (.callFinish errMsg)) ∨ s.conn.finished = true
  finished : s.conn.finished = true → s.conn.event = none ∨
    ∃ f, s.frame = some f ∧ (f.isFinishCanceled = true ∨ f.isFinishWritten = true)
  finishing : ∀ f, s.frame = some f → f.isFinishCanceled = true ∨ f.isFinishWritten = true →
    s.conn.finished = true ∧ s.conn.undelivered = none ∧
      (s.conn.writeDone = false → s.conn.userWriteHandler = none)
  notReplaced : ∀ h, s.frame ≠ some (.asyncDo h)

namespace CoReads

open CoTcpRun

variable {c : Nat} {s t : CoTcpRun} {h : Handler} {e : String} {k : TcpConnection}
  {f : Option Frame}

/-- A step that does not concern reading. -/
theorem keep (hs : CoReads s) (hside : t.conn.readSide = s.conn.readSide)
    (hreceived : t.received = s.received) (hreturns : t.returns = s.returns)
    (hreading : t.reading = s.reading)
    (hfailed : s.reading ≠ none → t.errMsgs = s.errMsgs ∧ t.refs = s.refs ∧
      (s.conn.finished = true ∨ (∃ errMsg, s.frame = some (.callFinish errMsg)) →
        t.conn.finished = true ∨ ∃ errMsg, t.frame = some (.callFinish errMsg))) :
    CoReads t := by
  obtain ⟨hbuffer, hany, huser, hexpect, hreaded⟩ :
      t.conn.readBuffer = s.conn.readBuffer ∧ t.conn.anyFlag = s.conn.anyFlag ∧
      t.conn.userReadHandler = s.conn.userReadHandler ∧ t.conn.expectSize = s.conn.expectSize ∧
      t.conn.readedSize = s.conn.readedSize := by
    simpa [TcpConnection.readSide] using hside
  refine ⟨hbuffer ▸ hs.ok, ?_, hany.trans hs.anyFlag, ?_, ?_, ?_, ?_⟩
  · unfold popped
    rw [hreceived, hreturns, hbuffer]
    exact hs.stream
  · rw [hreading, huser, hexpect]
    exact hs.waits
  · rw [hreading, hexpect]
    exact hs.idle
  · unfold owed
    rw [hreading, hreaded, hbuffer]
    exact hs.size
  · rw [hreading]
    intro number len e hr he
    obtain ⟨h1, h2, h3⟩ := hfailed (by rw [hr]; exact nofun)
    obtain ⟨h4, h5⟩ := hs.failed number len e hr he
    exact ⟨by rw [h1, h2]; exact h4, h3 h5⟩

/-- A `Read` is called back without an error. -/
theorem succeed (hok : s.conn.readBuffer.Ok)
    (hstream : s.received = s.popped ++ s.conn.readBuffer.unread) (hany : s.conn.anyFlag = false)
    (hreading : ∀ number len answer, s.reading = some (number, len, answer) →
      (answer = none → number = h) ∧ (∀ e, answer = some e → e = "") ∧
        len.toNat ≤ s.conn.readBuffer.unread.length) :
    CoReads ({ s with conn := s.conn.resetRead, frame := f }.callback c h "") := by
  have hafter : ∀ number len answer,
      ({ s with conn := s.conn.resetRead, frame := f }.callback c h "").reading =
        some (number, len, answer) →
      answer = some "" ∧ len.toNat ≤ s.conn.readBuffer.unread.length := by
    intro number len answer hr
    rw [reading_callback] at hr
    obtain ⟨⟨n, l, a⟩, hold, heq⟩ := Option.map_eq_some_iff.mp hr
    cases heq
    obtain ⟨hnone, hsome, hle⟩ := hreading number len a hold
    refine ⟨?_, hle⟩
    split
    next => rfl
    next hne =>
      cases a with
      | none => exact absurd (hnone rfl) hne
      | some e => rw [hsome e rfl]
  refine ⟨hok, hstream, hany, fun number len hr => ?_, fun _ => rfl, ?_,
    fun number len e hr he => ?_⟩
  · exact absurd (hafter number len none hr).1 nofun
  -- `readedSize_` is zero, and the bytes that the `Read` is owed are in the buffer
  · show 0 + owed _ ≤ s.conn.readBuffer.unread.length
    unfold owed
    split
    next number len hr =>
      rw [Nat.zero_add]
      exact (hafter number len _ hr).2
    next => exact Nat.zero_le _
  · exact absurd (Option.some.inj (hafter number len _ hr).1) he

/-- The kept callback is called with an error. -/
theorem fail (hs : CoReads s) (huser : s.conn.userReadHandler = some h) (he : e ≠ "")
    (hreading : ∀ number len e, s.reading = some (number, len, some e) → e = "") :
    CoReads ({ s with
      conn := s.conn.resetRead, frame := some (.callFinish e) }.callback c h e) := by
  have hafter : ∀ number len answer,
      ({ s with conn := s.conn.resetRead, frame := some (.callFinish e) }.callback c h e).reading =
        some (number, len, answer) →
      (number = h ∧ answer = some e) ∨
        (s.reading = some (number, len, some "") ∧ answer = some "") := by
    intro number len answer hr
    rw [reading_callback] at hr
    obtain ⟨⟨n, l, a⟩, hold, heq⟩ := Option.map_eq_some_iff.mp hr
    cases heq
    split
    next heq => exact .inl ⟨heq, rfl⟩
    next hne =>
      cases a with
      | none =>
        have hkept := (hs.waits number len hold).1
        exact absurd (Option.some.inj (hkept.symm.trans huser)) hne
      | some e' =>
        obtain rfl := hreading number len e' hold
        exact .inr ⟨hold, rfl⟩
  refine ⟨hs.ok, hs.stream, hs.anyFlag, fun number len hr => ?_, fun _ => rfl, ?_,
    fun number len e' hr he' => ?_⟩
  · rcases hafter number len none hr with ⟨-, h⟩ | ⟨-, h⟩ <;> cases h
  · have hle := hs.size
    show 0 + owed _ ≤ s.conn.readBuffer.unread.length
    unfold owed at hle ⊢
    split
    next number len hr =>
      rcases hafter number len _ hr with ⟨-, h⟩ | ⟨hold, -⟩
      · exact absurd (Option.some.inj h).symm he
      · rw [hold] at hle
        exact Nat.le_trans (Nat.add_le_add_right (Nat.zero_le _) _) hle
    next => exact Nat.zero_le _
  · rcases hafter number len _ hr with ⟨rfl, h⟩ | ⟨-, h⟩
    · cases h
      exact ⟨Function.update_self .., .inr ⟨e, rfl⟩⟩
    · exact absurd (Option.some.inj h) he'

/-- Bytes arrive. The counter may wrap, and then counts less than there are. -/
theorem arrive {b : Buffer} {bytes : List UInt8} {n : UInt64} (hs : CoReads s) (hok : b.Ok)
    (hunread : b.unread = s.conn.readBuffer.unread ++ bytes) (hn : n.toNat ≤ bytes.length) :
    CoReads { s with
      conn := { s.conn with readBuffer := b, readedSize := s.conn.readedSize + n }
      received := s.received ++ bytes } := by
  refine ⟨hok, ?_, hs.anyFlag, hs.waits, hs.idle, ?_, hs.failed⟩
  · show s.received ++ bytes = s.popped ++ b.unread
    rw [hs.stream, hunread, List.append_assoc]
  · have hle := hs.size
    show (s.conn.readedSize + n).toNat + s.owed ≤ b.unread.length
    rw [hunread, List.length_append, UInt64.toNat_add]
    -- a sum that wraps is below the number of bytes
    have hmod := Nat.mod_le (s.conn.readedSize.toNat + n.toNat) (2 ^ 64)
    omega

end CoReads

/-- While no handler runs, a connection that is finished has no event. -/
theorem CoWrites.event_none {s : CoTcpRun} (hs : CoWrites s) (hframe : s.frame = none)
    (hfin : s.conn.finished = true) : s.conn.event = none := by
  refine (hs.finished hfin).resolve_right ?_
  rintro ⟨f, hf, -⟩
  cases hframe.symm.trans hf

/-- A step that does not concern writing, while no handler runs. -/
theorem CoWrites.keep {s t : CoTcpRun} (hs : CoWrites s) (hframe : s.frame = none)
    (hside : t.conn.writeSide = s.conn.writeSide) (hwriting : t.writing = s.writing)
    (hnew : ∀ f, t.frame = some f → f = .done ∨ ∃ errMsg, f = .callFinish errMsg) :
    CoWrites t := by
  obtain ⟨hasyncer, huser, hdone, hevent, hfin⟩ : t.conn.asyncer = s.conn.asyncer ∧
      t.conn.userWriteHandler = s.conn.userWriteHandler ∧ t.conn.writeDone = s.conn.writeDone ∧
      t.conn.event = s.conn.event ∧ t.conn.finished = s.conn.finished := by
    simpa [TcpConnection.writeSide] using hside
  have hund : t.conn.undelivered = s.conn.undelivered := by
    unfold TcpConnection.undelivered
    rw [hasyncer]
  have hnotify : t.conn.writeNotify = s.conn.writeNotify := by
    unfold TcpConnection.writeNotify
    rw [hevent]
  refine ⟨?_, ?_, fun hn => ?_, fun h => ?_, fun f hf hkind => ?_, fun h hf => ?_⟩
  · rw [hwriting, hund, hdone, huser]
    exact hs.undelivered
  · rw [hwriting, hdone, huser]
    exact hs.undone
  · rcases hs.notify (hnotify.symm.trans hn) with ⟨h, h1, h2, h3⟩ | hf | h
    · exact .inl ⟨h, huser.trans h1, hwriting.trans h2, hund.trans h3⟩
    · exact absurd hf (CoTcpRun.not_callFinish hframe)
    · exact .inr (.inr (hfin.trans h))
  · exact .inl (hevent.trans (hs.event_none hframe (hfin.symm.trans h)))
  · rcases hnew f hf with rfl | ⟨errMsg, rfl⟩ <;> exact hkind.elim nofun nofun
  · rcases hnew _ hf with h | ⟨errMsg, h⟩ <;> cases h

/-- The calls that have returned. -/
def CoDone (s : CoTcpRun) : Prop :=
  ∀ r ∈ s.returns, r.answer ≠ none ∧
    ∀ len, r.op = .read len → r.errMsg = "" → r.bytes.length = len.toNat

structure CoInv (c : Nat) (s : CoTcpRun) : Prop where
  place : CoPlace c s
  reads : CoReads s
  writes : CoWrites s
  done : CoDone s

/-- A handler may run: in `runOnce`, or inside of a call. -/
def CoTcpRun.CanCall (s : CoTcpRun) : Prop :=
  (s.sched.currentCoro = none ∧ s.sched.pc = .wakeUpSleep) ∨
    ∃ call, s.call = some call ∧ call.suspended = false

namespace CoInv

open CoTcpRun

variable {c : Nat} {s t : CoTcpRun} {h : Handler} {e : String} {k : TcpConnection}

/-- Control leaves a method of the connection that has not called a callback. -/
theorem quiet {f : Option Frame} (hs : CoInv c s) (hcan : f ≠ none → s.CanCall)
    (hside : k.readSide = s.conn.readSide)
    (hended : s.conn.finished = true ∨ (∃ errMsg, s.frame = some (.callFinish errMsg)) →
      k.finished = true)
    (hwrites : CoWrites { s with conn := k, frame := f }) :
    CoInv c { s with conn := k, frame := f } := by
  obtain ⟨hplace, hreads, -, hdone⟩ := hs
  refine ⟨hplace.withFrame k f hcan, ?_, hwrites, hdone⟩
  exact hreads.keep hside rfl rfl rfl fun _ => ⟨rfl, rfl, fun h => .inl (hended h)⟩

/-- The callback of the `Write` that waits is called, and no other is owed. -/
theorem writeCalled {f : Frame} (hs : CoInv c s) (hcan : s.CanCall) (hwriting : s.writing = some h)
    (hside : k.readSide = s.conn.readSide) (hund : k.undelivered = none)
    (hundone : k.writeDone = false → k.userWriteHandler = none)
    (hnotify : k.writeNotify = true → (∃ errMsg, f = .callFinish errMsg) ∨ k.finished = true)
    (hfinished : k.finished = true →
      k.event = none ∨ f.isFinishCanceled = true ∨ f.isFinishWritten = true)
    (hfinishing : f.isFinishCanceled = true ∨ f.isFinishWritten = true → k.finished = true)
    (hf : ∀ h, f ≠ .asyncDo h) :
    CoInv c ({ s with conn := k, frame := some f }.callback c h e) := by
  obtain ⟨hplace, hreads, -, hdone⟩ := hs
  have hnone : s.reading = none := reading_of_writing hwriting
  have hwriting' : ({ s with conn := k, frame := some f }.callback c h e).writing = none := by
    rw [writing_callback]
    show s.writing.filter _ = none
    rw [hwriting]
    simp [Option.filter]
  refine ⟨?_, ?_, ⟨?_, ?_, ?_, ?_, ?_, ?_⟩, hdone⟩
  · have hframe := hplace.withFrame k (some f) fun _ => hcan
    exact hframe.callback (mayCall_writing hwriting)
  · refine hreads.keep hside rfl rfl ?_ fun h => absurd hnone h
    rw [reading_callback]
    show s.reading.map _ = s.reading
    rw [hnone]
    rfl
  · exact fun k' hk' => absurd (hund.symm.trans hk') nofun
  · exact fun hd k' hk' => absurd ((hundone hd).symm.trans hk') nofun
  · intro hn
    rcases hnotify hn with ⟨errMsg, rfl⟩ | hfin
    · exact .inr (.inl ⟨errMsg, rfl⟩)
    · exact .inr (.inr hfin)
  · exact fun hfin => (hfinished hfin).imp_right fun hf => ⟨f, rfl, hf⟩
  · rintro _ ⟨⟩ hkind
    exact ⟨hfinishing hkind, hund, hundone⟩
  · exact fun h' hf' => hf h' (Option.some.inj hf')

/-- The end of `Finish`. -/
theorem finishTail (hs : CoInv c s) (hcan : s.CanCall) (hside : k.readSide = s.conn.readSide)
    (hfin : k.finished = true) (hund : k.undelivered = none)
    (hundone : k.writeDone = false → k.userWriteHandler = none) :
    CoInv c (s.leave c (k.finishTail e)) := by
  refine hs.quiet (fun _ => hcan) hside (fun _ => hfin) ⟨?_, ?_, ?_, ?_, ?_, ?_⟩
  · exact fun h hh => absurd (hund.symm.trans hh) nofun
  · exact fun hd h hh => absurd ((hundone hd).symm.trans hh) nofun
  · exact nofun
  · exact fun _ => .inl rfl
  · exact fun _ _ _ => ⟨hfin, hund, hundone⟩
  · exact nofun

/-- `Finish` after the asyncer is canceled. -/
theorem finishWrite (hs : CoInv c s) (hcan : s.CanCall) (hside : k.readSide = s.conn.readSide)
    (hfin : k.finished = true) (hund : k.undelivered = none)
    (hundone : k.writeDone = false → ∀ h, k.userWriteHandler = some h → s.writing = some h) :
    CoInv c (s.leave c (k.finishWrite e)) := by
  rcases TcpConnection.finishWrite_cases e k with ⟨h, hd, hh, heq⟩ | ⟨hnone, heq⟩ <;> rw [heq]
  · exact hs.writeCalled hcan (hundone hd h hh) hside hund nofun (fun _ => .inr hfin)
      (fun _ => .inr (.inr rfl)) (fun _ => hfin) nofun
  · exact hs.finishTail hcan hside hfin hund hnone

/-- `Finish`, called when no other `Finish` is running. -/
theorem finish (hs : CoInv c s) (hcan : s.CanCall)
    (hframe : ∀ f, s.frame = some f → f.isFinishCanceled = false ∧ f.isFinishWritten = false) :
    CoInv c (s.leave c (s.conn.finish e)) := by
  cases hfin : s.conn.finished with
  | true =>
    rw [TcpConnection.finish_finished e hfin]
    refine hs.quiet (fun h => absurd rfl h) rfl (fun _ => hfin) ⟨hs.writes.undelivered,
      hs.writes.undone, fun _ => .inr (.inr hfin), fun _ => ?_, nofun, nofun⟩
    refine .inl ((hs.writes.finished hfin).resolve_right ?_)
    rintro ⟨f, hf, h | h⟩
    · exact absurd ((hframe f hf).1.symm.trans h) nofun
    · exact absurd ((hframe f hf).2.symm.trans h) nofun
  | false =>
    rcases TcpConnection.finish_cases e hfin with ⟨h, hh, heq⟩ | ⟨a, hund, hund', heq⟩ <;> rw [heq]
    · obtain ⟨hwriting, hundone⟩ := hs.writes.undelivered h hh
      exact hs.writeCalled hcan hwriting rfl rfl hundone (fun _ => .inr rfl)
        (fun _ => .inr (.inl rfl)) (fun _ => rfl) nofun
    · exact hs.finishWrite hcan rfl rfl hund' hs.writes.undone

/-- The handler that the connection has called returns. -/
theorem handlerReturns {f : Frame} {o : Outcome} (hs : CoInv c s) (hf : s.frame = some f)
    (ho : f.resume s.conn = some o) : CoInv c (s.leave c o) := by
  have hcan : s.CanCall := hs.place.inside (by rw [hf]; exact nofun)
  cases f with
  | done =>
    cases ho
    have hevent : s.conn.finished = true → s.conn.event = none := fun hfin =>
      (hs.writes.finished hfin).resolve_right fun ⟨f, hf', h⟩ => by
        rw [hf] at hf'
        cases hf'
        rcases h with h | h <;> cases h
    refine hs.quiet (fun h => absurd rfl h) rfl (fun h => h.resolve_right ?_)
      ⟨hs.writes.undelivered, hs.writes.undone, fun hn => ?_, fun hfin => .inl (hevent hfin), nofun,
        nofun⟩
    · rintro ⟨errMsg, h⟩
      rw [hf] at h
      cases h
    · rcases hs.writes.notify hn with h | ⟨errMsg, h⟩ | h
      · exact .inl h
      · rw [hf] at h
        cases h
      · exact .inr (.inr h)
  | callFinish errMsg =>
    cases ho
    refine hs.finish hcan fun f hf' => ?_
    rw [hf] at hf'
    cases hf'
    exact ⟨rfl, rfl⟩
  | finishCanceled errMsg =>
    cases ho
    obtain ⟨hfin, hund, -⟩ := hs.writes.finishing _ hf (.inl rfl)
    exact hs.finishWrite hcan rfl hfin hund hs.writes.undone
  | finishWritten errMsg =>
    cases ho
    obtain ⟨hfin, hund, hundone⟩ := hs.writes.finishing _ hf (.inr rfl)
    exact hs.finishTail hcan rfl hfin hund hundone
  | asyncDo h => exact absurd hf (hs.writes.notReplaced h)

/-- `runOnce` does not dispatch an event of a finished connection. -/
theorem open_of_event (hs : CoInv c s) (hframe : s.frame = none) (hevent : s.conn.event ≠ none) :
    s.conn.finished = false := by
  cases hfin : s.conn.finished with
  | false => rfl
  | true => exact absurd (hs.writes.event_none hframe hfin) hevent

theorem deliver {o : Outcome} (hs : CoInv c s) (honce : s.runsOnce)
    (ho : s.conn.deliver = some o) : CoInv c (s.leave c o) := by
  have hframe : s.frame = none := honce.1
  rcases TcpConnection.deliver_cases ho with ⟨h, ev, hund, hev, rfl⟩ | ⟨h, hund, rfl⟩
  · obtain ⟨hwriting, -⟩ := hs.writes.undelivered h hund
    have hopen := hs.open_of_event hframe (by rw [hev]; exact nofun)
    refine hs.quiet (fun hf => absurd rfl hf) rfl
      (fun hf => hf.resolve_right (not_callFinish hframe))
      ⟨nofun, ?_, fun _ => .inl ⟨h, rfl, hwriting, rfl⟩, ?_, nofun, nofun⟩
    · rintro - _ ⟨⟩
      exact hwriting
    · exact fun hfin => absurd (hopen.symm.trans hfin) nofun
  · refine hs.quiet (fun hf => absurd rfl hf) rfl
      (fun hf => hf.resolve_right (not_callFinish hframe))
      ⟨nofun, hs.writes.undone, fun hn => ?_,
        fun hfin => .inl (hs.writes.event_none hframe hfin), nofun, nofun⟩
    rcases hs.writes.notify hn with ⟨k, h1, h2, -⟩ | hf | hfin
    · exact .inl ⟨k, h1, h2, rfl⟩
    · exact absurd hf (not_callFinish hframe)
    · exact .inr (.inr hfin)

theorem writable {r : SysResult} {o : Outcome} {sent : List UInt8} (hs : CoInv c s)
    (honce : s.runsOnce) (hnotify : s.conn.writeNotify = true)
    (ho : s.conn.writeHandler r = some (o, sent)) : CoInv c (s.leave c o) := by
  have hframe : s.frame = none := honce.1
  have hcan : s.CanCall := .inl honce.2
  have hopen := hs.open_of_event hframe (TcpConnection.event_ne_none hnotify)
  obtain ⟨h, hkept, hwriting, hund⟩ : ∃ h, s.conn.userWriteHandler = some h ∧
      s.writing = some h ∧ s.conn.undelivered = none := by
    rcases hs.writes.notify hnotify with h | hf | hfin
    · exact h
    · exact absurd hf (not_callFinish hframe)
    · exact absurd (hopen.symm.trans hfin) nofun
  rcases TcpConnection.writeHandler_outcome ho with ⟨k, ev, hk, -, rfl⟩ |
    ⟨k, b, errMsg, hk, -, rfl⟩ | ⟨b, rfl⟩
  · obtain rfl : h = k := Option.some.inj (hkept.symm.trans hk)
    exact hs.writeCalled hcan hwriting rfl hund nofun nofun
      (fun hfin => absurd (hopen.symm.trans hfin) nofun) (fun hf => hf.elim nofun nofun) nofun
  · obtain rfl : h = k := Option.some.inj (hkept.symm.trans hk)
    exact hs.writeCalled hcan hwriting rfl hund nofun (fun _ => .inl ⟨errMsg, rfl⟩)
      (fun hfin => absurd (hopen.symm.trans hfin) nofun) (fun hf => hf.elim nofun nofun) nofun
  · exact hs.quiet (fun hf => absurd rfl hf) rfl
      (fun hf => hf.resolve_right (not_callFinish hframe))
      ⟨hs.writes.undelivered, hs.writes.undone, fun _ => .inl ⟨h, hkept, hwriting, hund⟩,
        fun hfin => absurd (hopen.symm.trans hfin) nofun, nofun, nofun⟩

/-- A callback of a read that runs in `runOnce`, or inside of a call. -/
theorem readCalled {f : Frame} (hs : CoInv c s) (hframe : s.frame = none) (hcan : s.CanCall)
    (hmay : s.MayCall h) (hwriting : s.writing = none) (hside : k.writeSide = s.conn.writeSide)
    (hf : f = .done ∨ ∃ errMsg, f = .callFinish errMsg)
    (hreads : CoReads ({ s with conn := k, frame := some f }.callback c h e)) :
    CoInv c ({ s with conn := k, frame := some f }.callback c h e) := by
  obtain ⟨hplace, -, hwrites, hdone⟩ := hs
  have hframe' := hplace.withFrame k (some f) fun _ => hcan
  refine ⟨hframe'.callback hmay, hreads, hwrites.keep hframe hside ?_ ?_, hdone⟩
  · rw [writing_callback]
    show s.writing.filter _ = s.writing
    rw [hwriting]
    rfl
  · rintro _ ⟨⟩
    exact hf

/-- A `Read` has been called back without an error, as long as its event is dispatched. -/
theorem answered (hs : CoInv c s) (hframe : s.frame = none) (hevent : s.conn.event ≠ none)
    {number : Handler} {len : UInt64} (hr : s.reading = some (number, len, some e)) : e = "" := by
  by_contra he
  rcases (hs.reads.failed number len e hr he).2 with hfin | hf
  · exact absurd ((hs.open_of_event hframe hevent).symm.trans hfin) nofun
  · exact not_callFinish hframe hf

/-- The event callback returns. -/
theorem quiet_return (hs : CoInv c s) (hframe : s.frame = none) :
    CoInv c (s.leave c s.conn.return_) :=
  hs.quiet (fun hf => absurd rfl hf) rfl (fun h => h.resolve_right (not_callFinish hframe))
    (hs.writes.keep hframe rfl rfl nofun)

theorem arrive {b : Buffer} {bytes : List UInt8} (hs : CoInv c s)
    (hb : s.conn.readBuffer.write bytes = some b) :
    CoInv c { s with
      conn := { s.conn with
        readBuffer := b, readedSize := s.conn.readedSize + toUInt64 bytes.length }
      received := s.received ++ bytes } := by
  obtain ⟨hplace, hreads, hwrites, hdone⟩ := hs
  obtain ⟨hok, hunread⟩ := Buffer.write_spec hreads.ok hb
  refine ⟨⟨hplace.phase, hplace.once, hplace.calling, hplace.waiting, hplace.inside⟩,
    hreads.arrive hok hunread ?_, ⟨hwrites.undelivered, hwrites.undone, hwrites.notify,
    hwrites.finished, hwrites.finishing, hwrites.notReplaced⟩, hdone⟩
  unfold toUInt64
  rw [UInt64.toNat_ofNat']
  have hmod := Nat.mod_le ((bytes.length : Int) % 2 ^ 64).toNat (2 ^ 64)
  omega

/-- Where no callback of an earlier `Read` is kept during a `Write`, a kept one leaves no `Write`
waiting. -/
theorem writing_of_kept (hstale : s.writing ≠ none → s.conn.userReadHandler = none)
    (hh : s.conn.userReadHandler = some h) : s.writing = none := by
  by_contra hne
  cases (hstale hne).symm.trans hh

/-- What the callback that is kept waits for, when an event is dispatched. -/
theorem mayCall_kept (hs : CoInv c s) (hwriting : s.writing = none)
    (hh : s.conn.userReadHandler = some h) : s.MayCall h :=
  mayCall_of_answered hwriting fun number len hread =>
    Option.some.inj ((hs.reads.waits number len hread).1.symm.trans hh)

theorem readDone (hs : CoInv c s) (honce : s.runsOnce) (hevent : s.conn.event ≠ none)
    (hstale : s.writing ≠ none → s.conn.userReadHandler = none) :
    CoInv c (s.leave c s.conn.readDone) := by
  have hframe : s.frame = none := honce.1
  rcases TcpConnection.readDone_cases s.conn with ⟨h, hh, hdo, heq⟩ | ⟨-, heq⟩ <;> rw [heq]
  · have hwriting := writing_of_kept hstale hh
    refine hs.readCalled hframe (.inl honce.2) (hs.mayCall_kept hwriting hh) hwriting rfl (.inl rfl)
      (CoReads.succeed hs.reads.ok hs.reads.stream hs.reads.anyFlag ?_)
    intro number len answer hread
    have hsize := hs.reads.size
    cases answer with
    | none =>
      obtain ⟨hkept, hexpect⟩ := hs.reads.waits number len hread
      refine ⟨fun _ => Option.some.inj (hkept.symm.trans hh), nofun, ?_⟩
      -- `readedSize_` has reached `expectSize_`, and the buffer holds no less than it
      have hle : s.conn.expectSize.toNat ≤ s.conn.readedSize.toNat :=
        UInt64.le_iff_toNat_le.mp (hdo.resolve_left (by rw [hs.reads.anyFlag]; exact nofun))
      rw [hexpect] at hle
      exact Nat.le_trans hle (Nat.le_trans (Nat.le_add_right ..) hsize)
    | some e =>
      obtain rfl := hs.answered hframe hevent hread
      refine ⟨nofun, by rintro _ ⟨⟩; rfl, ?_⟩
      rw [owed_of_reading hread] at hsize
      exact Nat.le_trans (Nat.le_add_left ..) hsize
  · exact hs.quiet_return hframe

theorem readFailed (hs : CoInv c s) (honce : s.runsOnce) (hevent : s.conn.event ≠ none)
    (hstale : s.writing ≠ none → s.conn.userReadHandler = none) (he : e ≠ "") :
    CoInv c (s.leave c (s.conn.readFailed e)) := by
  have hframe : s.frame = none := honce.1
  unfold TcpConnection.readFailed
  split
  next h hh =>
    have hwriting := writing_of_kept hstale hh
    exact hs.readCalled hframe (.inl honce.2) (hs.mayCall_kept hwriting hh) hwriting rfl
      (.inr ⟨e, rfl⟩) (hs.reads.fail hh he fun _ _ _ => hs.answered hframe hevent)
  next =>
    refine hs.finish (.inl honce.2) fun f hf => ?_
    exact absurd (hframe.symm.trans hf) nofun

theorem readable {r : SysRead} {o : Outcome} (hs : CoInv c s) (honce : s.runsOnce)
    (hevent : s.conn.event ≠ none)
    (hstale : r ≠ .eagain → s.writing ≠ none → s.conn.userReadHandler = none)
    (ho : s.conn.readHandler r = some o) :
    CoInv c ({ s with received := s.received ++ (Socket.read r).2.2 }.leave c o) := by
  have hframe : s.frame = none := honce.1
  rcases TcpConnection.readHandler_cases ho with ⟨rfl, rfl⟩ | ⟨hr, hbytes, e, he, rfl⟩ |
    ⟨hr, b, hb, rfl⟩
  · have heq : { s with received := s.received ++ [] } = s := by rw [List.append_nil]
    show CoInv c ({ s with received := s.received ++ [] }.leave c _)
    rw [heq]
    exact hs.quiet_return hframe
  · rw [hbytes, List.append_nil]
    exact hs.readFailed honce hevent (hstale hr) he
  · exact (hs.arrive hb).readDone honce hevent (hstale hr)

/-- `Read` calls `AsyncRead`. -/
theorem read {len : UInt64} {errMsg : Nat} (hs : CoInv c s) (hruns : s.runs c)
    (hcall : s.call = none) (hqueue : c ∉ s.sched.resumeQueue) :
    CoInv c ((s.enter (.read len) errMsg).leave c (s.conn.asyncRead len s.calls)) := by
  have hframe : s.frame = none := hruns.1
  have hplace := hs.place.enter (.read len) errMsg hruns hqueue
  have hcan : (s.enter (.read len) errMsg).CanCall := .inr ⟨_, rfl, rfl⟩
  have hsize := hs.reads.size
  have hnone : s.writing = none := by
    unfold writing
    rw [hcall]
  unfold TcpConnection.asyncRead
  split
  next hle =>
    have hreads : CoReads ({ s.enter (.read len) errMsg with
        conn := TcpConnection.resetRead { s.conn with anyFlag := false }
        frame := some .done }.callback c s.calls "") := by
      refine CoReads.succeed (s := { s.enter (.read len) errMsg with
        conn := { s.conn with anyFlag := false } }) hs.reads.ok hs.reads.stream rfl ?_
      rintro number _ answer ⟨⟩
      have hle' := UInt64.le_iff_toNat_le.mp hle
      exact ⟨fun _ => rfl, nofun, Nat.le_trans hle' (Nat.le_trans (Nat.le_add_right ..) hsize)⟩
    refine ⟨hplace.leave ?_ hcan, hreads, ?_, hs.done⟩
    · rintro _ _ _ _ ⟨⟩ ⟨⟩ _ ⟨⟩
      exact .inl rfl
    · refine hs.writes.keep hframe rfl ?_ (by rintro _ ⟨⟩; exact .inl rfl)
      rw [hnone]
      exact writing_callback
  next =>
    refine ⟨hplace.leave nofun hcan, ⟨hs.reads.ok, hs.reads.stream, rfl, ?_, ?_, ?_, ?_⟩, ?_,
      hs.done⟩
    · rintro _ _ ⟨⟩
      exact ⟨rfl, rfl⟩
    · exact fun h => absurd rfl (h s.calls len)
    · exact Nat.le_trans (Nat.le_add_right ..) hsize
    · rintro _ _ _ ⟨⟩
    · exact hs.writes.keep hframe rfl hnone.symm nofun

/-- `Write` calls `AsyncWrite`. -/
theorem write {buf : List UInt8} {errMsg : Nat} {conn : TcpConnection} {o : Outcome}
    (hs : CoInv c s) (hruns : s.runs c) (hcall : s.call = none)
    (hqueue : c ∉ s.sched.resumeQueue) (hpush : s.conn.writeBufferPush buf = some conn)
    (ho : conn.asyncWrite s.calls = some o) :
    CoInv c ((s.enter (.write buf) errMsg).leave c o) := by
  have hframe : s.frame = none := hruns.1
  have hcan : (s.enter (.write buf) errMsg).CanCall := .inr ⟨_, rfl, rfl⟩
  have hnone : s.writing = none ∧ s.reading = none := by
    unfold writing reading
    rw [hcall]
    exact ⟨rfl, rfl⟩
  have hund : s.conn.undelivered = none := Option.eq_none_iff_forall_ne_some.mpr fun h hh =>
    absurd (hnone.1.symm.trans (hs.writes.undelivered h hh).1) nofun
  have hundone : s.conn.writeDone = false → s.conn.userWriteHandler = none := fun hd =>
    Option.eq_none_iff_forall_ne_some.mpr fun h hh =>
      absurd (hnone.1.symm.trans (hs.writes.undone hd h hh)) nofun
  have hclosed : s.conn.finished = true → s.conn.event = none := hs.writes.event_none hframe
  have hnotify : s.conn.writeNotify = true → s.conn.finished = true := by
    intro hn
    rcases hs.writes.notify hn with ⟨h, -, hh, -⟩ | hf | hfin
    · exact absurd (hnone.1.symm.trans hh) nofun
    · exact absurd hf (not_callFinish hframe)
    · exact hfin
  have hentered : CoInv c (s.enter (.write buf) errMsg) := by
    refine ⟨hs.place.enter _ _ hruns hqueue, ?_, ⟨?_, ?_, ?_, hs.writes.finished,
      hs.writes.finishing, hs.writes.notReplaced⟩, hs.done⟩
    · exact hs.reads.keep rfl rfl rfl hnone.2.symm fun h => absurd hnone.2 h
    · exact fun h hh => absurd (hund.symm.trans hh) nofun
    · exact fun hd h hh => absurd ((hundone hd).symm.trans hh) nofun
    · exact fun hn => .inr (.inr (hnotify hn))
  obtain ⟨b, -, rfl⟩ := Option.map_eq_some_iff.mp hpush
  -- the calls of one coroutine follow each other, so no `AsyncWrite` replaces another
  rcases TcpConnection.asyncWrite_cases ho with ⟨hfin, rfl⟩ | ⟨-, old, hold, -⟩ | ⟨hopen, -, rfl⟩
  · exact hentered.writeCalled hcan rfl rfl hund hundone (fun _ => .inr hfin)
      (fun h => .inl (hclosed h)) (fun h => h.elim nofun nofun) nofun
  · exact absurd (hund.symm.trans hold) nofun
  · have hnot : s.conn.finished ≠ true := fun h => absurd (hopen.symm.trans h) nofun
    refine hentered.quiet (fun h => absurd rfl h) rfl
      (fun h => h.resolve_right (not_callFinish hframe))
      ⟨?_, ?_, fun hn => absurd (hnotify hn) hnot, fun h => absurd h hnot, nofun, nofun⟩
    · rintro _ ⟨⟩
      exact ⟨rfl, hundone⟩
    · exact fun hd h hh => absurd ((hundone hd).symm.trans hh) nofun

theorem suspend {call : CoCall} (hs : CoInv c s) (hruns : s.runs c) (hcall : s.call = some call)
    (hsus : call.suspended = false) :
    CoInv c { s with
      sched := s.sched.suspend c .suspended, call := some { call with suspended := true } } := by
  have hreading : CoTcpRun.reading { s with
      sched := s.sched.suspend c .suspended, call := some { call with suspended := true } } =
      s.reading := by
    unfold reading
    rw [hcall]
    obtain ⟨number, op, suspended, answer⟩ := call
    cases op <;> rfl
  have hwriting : CoTcpRun.writing { s with
      sched := s.sched.suspend c .suspended, call := some { call with suspended := true } } =
      s.writing := by
    unfold writing
    rw [hcall]
    obtain ⟨number, op, suspended, answer⟩ := call
    cases op <;> cases answer <;> rfl
  refine ⟨hs.place.suspend hruns hcall hsus, ?_, ?_, hs.done⟩
  · exact hs.reads.keep rfl rfl rfl hreading fun _ => ⟨rfl, rfl, id⟩
  · refine ⟨?_, ?_, ?_, hs.writes.finished, hs.writes.finishing, hs.writes.notReplaced⟩ <;>
      rw [hwriting]
    · exact hs.writes.undelivered
    · exact hs.writes.undone
    · exact hs.writes.notify

theorem return_ {call : CoCall} (hs : CoInv c s) (hruns : s.runs c) (hcall : s.call = some call)
    (hsus : call.suspended = true) (ht : s.returnFrom call = some t) : CoInv c t := by
  obtain ⟨hplace, hanswer⟩ := hs.place.return_ hruns hcall hsus ht
  have hframe : s.frame = none := hruns.1
  obtain ⟨number, op, suspended, answer⟩ := call
  obtain ⟨e, rfl⟩ := Option.ne_none_iff_exists'.mp hanswer
  have hwriting : s.writing = none := by
    unfold writing
    rw [hcall]
    cases op <;> rfl
  have hidle : s.conn.expectSize = 0 := by
    refine hs.reads.idle fun n l hr => ?_
    unfold reading at hr
    rw [hcall] at hr
    cases op <;> cases hr
  have hnew : ∀ f, s.frame = some f → f = .done ∨ ∃ errMsg, f = .callFinish errMsg := fun f hf =>
    absurd (hframe.symm.trans hf) nofun
  have hfailed : CoReads { s with
      call := none
      returns := ⟨op, s.errMsgs (s.refs number), [], some e⟩ :: s.returns } := by
    refine ⟨hs.reads.ok, ?_, hs.reads.anyFlag, nofun, fun _ => hidle,
      Nat.le_trans (Nat.le_add_right ..) hs.reads.size, nofun⟩
    simpa [popped] using hs.reads.stream
  cases op with
  | write buf =>
    cases ht
    refine ⟨hplace, hfailed, hs.writes.keep hframe rfl hwriting.symm hnew, ?_⟩
    intro r hr
    rcases List.mem_cons.mp hr with rfl | hr
    · exact ⟨nofun, nofun⟩
    · exact hs.done r hr
  | read len =>
    simp only [returnFrom] at ht
    split at ht
    next herr =>
      cases ht
      refine ⟨hplace, hfailed, hs.writes.keep hframe rfl hwriting.symm hnew, ?_⟩
      intro r hr
      rcases List.mem_cons.mp hr with rfl | hr
      · exact ⟨nofun, fun _ _ h => absurd h herr⟩
      · exact hs.done r hr
    next herr =>
      have hreading : s.reading = some (number, len, some e) := by
        unfold reading
        rw [hcall]
      -- an error of the callback is in `errMsg` by now
      obtain rfl : e = "" := by
        by_contra he
        exact herr fun h => he ((hs.reads.failed number len e hreading he).1.symm.trans h)
      have hsize := hs.reads.size
      rw [owed_of_reading hreading] at hsize
      obtain ⟨⟨n, bytes, conn⟩, hconn, rfl⟩ := Option.map_eq_some_iff.mp ht
      obtain ⟨⟨n', bytes', b⟩, hpop, heq⟩ := Option.map_eq_some_iff.mp hconn
      cases heq
      obtain ⟨hbytes, hok, hunread⟩ := Buffer.popHead_some hs.reads.ok hpop
      have hlength : bytes.length = len.toNat := by
        rw [hbytes, List.length_take]
        omega
      refine ⟨hplace, ⟨hok, ?_, hs.reads.anyFlag, nofun, fun _ => hidle, ?_, nofun⟩,
        hs.writes.keep hframe rfl hwriting.symm hnew, ?_⟩
      · have hstream := hs.reads.stream
        rw [← List.take_append_drop len.toNat s.conn.readBuffer.unread, ← hbytes,
          ← hunread] at hstream
        simpa [popped] using hstream
      · show s.conn.readedSize.toNat + 0 ≤ b.unread.length
        rw [hunread, List.length_drop]
        omega
      · intro r hr
        rcases List.mem_cons.mp hr with rfl | hr
        · refine ⟨nofun, ?_⟩
          rintro _ ⟨⟩ -
          exact hlength
        · exact hs.done r hr

theorem init (coroNum c : Nat) : CoInv c (coTcp coroNum c).init where
  place := .init coroNum c
  reads := ⟨Buffer.ok_new, rfl, rfl, nofun, fun _ => rfl, Nat.zero_le _, nofun⟩
  writes := ⟨nofun, nofun, nofun, nofun, nofun, nofun⟩
  done := nofun

theorem step {coroNum : Nat} {a : CoAction} (hs : CoInv c s) (hG : NoOtherWake c s a)
    (hstep : (coTcp coroNum c).step s a = some t) : CoInv c t := by
  cases a with
  | sched a =>
    simp only [coTcp, CoTcpRun.step, Option.ite_none_right_eq_some] at hstep
    obtain ⟨hcan, hstep⟩ := hstep
    obtain ⟨sched, hsched, rfl⟩ := Option.map_eq_some_iff.mp hstep
    obtain ⟨hplace, hreads, hwrites, hdone⟩ := hs
    exact ⟨hplace.sched hcan hG hsched, ⟨hreads.ok, hreads.stream, hreads.anyFlag, hreads.waits,
      hreads.idle, hreads.size, hreads.failed⟩, ⟨hwrites.undelivered, hwrites.undone,
      hwrites.notify, hwrites.finished, hwrites.finishing, hwrites.notReplaced⟩, hdone⟩
  | read len errMsg =>
    simp only [coTcp, CoTcpRun.step, Option.ite_none_right_eq_some, Option.some.injEq] at hstep
    obtain ⟨⟨hruns, hcall⟩, rfl⟩ := hstep
    exact hs.read hruns hcall hG
  | write buf errMsg =>
    simp only [coTcp, CoTcpRun.step, Option.ite_none_right_eq_some] at hstep
    obtain ⟨⟨hruns, hcall⟩, hstep⟩ := hstep
    obtain ⟨conn, hpush, hstep⟩ := Option.bind_eq_some_iff.mp hstep
    obtain ⟨o, ho, rfl⟩ := Option.map_eq_some_iff.mp hstep
    exact hs.write hruns hcall hG hpush ho
  | suspend =>
    simp only [coTcp, CoTcpRun.step] at hstep
    split at hstep
    next call hcall =>
      simp only [Option.ite_none_right_eq_some, Option.some.injEq] at hstep
      obtain ⟨⟨hruns, hsus⟩, rfl⟩ := hstep
      exact hs.suspend hruns hcall hsus
    next => cases hstep
  | return_ =>
    simp only [coTcp, CoTcpRun.step] at hstep
    split at hstep
    next call hcall =>
      simp only [Option.ite_none_right_eq_some] at hstep
      obtain ⟨⟨hruns, hsus⟩, hstep⟩ := hstep
      exact hs.return_ hruns hcall hsus hstep
    next => cases hstep
  | handlerReturns =>
    obtain ⟨f, hf, hstep⟩ := Option.bind_eq_some_iff.mp hstep
    obtain ⟨o, ho, rfl⟩ := Option.map_eq_some_iff.mp hstep
    exact hs.handlerReturns hf ho
  | deliver =>
    simp only [coTcp, CoTcpRun.step, Option.ite_none_right_eq_some] at hstep
    obtain ⟨honce, hstep⟩ := hstep
    obtain ⟨o, ho, rfl⟩ := Option.map_eq_some_iff.mp hstep
    exact hs.deliver honce ho
  | readable r =>
    simp only [coTcp, CoTcpRun.step, Option.ite_none_right_eq_some] at hstep
    obtain ⟨⟨honce, hevent⟩, hstep⟩ := hstep
    obtain ⟨o, ho, rfl⟩ := Option.map_eq_some_iff.mp hstep
    exact hs.readable honce (TcpConnection.event_ne_none hevent) hG ho
  | writable r =>
    simp only [coTcp, CoTcpRun.step, Option.ite_none_right_eq_some] at hstep
    obtain ⟨⟨honce, hnotify⟩, hstep⟩ := hstep
    obtain ⟨⟨o, sent⟩, ho, rfl⟩ := Option.map_eq_some_iff.mp hstep
    exact hs.writable honce hnotify ho

end CoInv

/-- `Read` and `Write` keep their contract in every run in which nothing but its own callback can
wake a call. -/
theorem coLaw_of_noOtherWake {coroNum c : Nat} {s : CoTcpRun}
    (hs : (coTcp coroNum c).ReachableVia (NoOtherWake c) s) : CoLaw s := by
  have hinv : CoInv c s :=
    hs.invariant (.init coroNum c) fun _ _ _ h hG hstep => h.step hG hstep
  refine ⟨fun r hr => (hinv.done r hr).1, fun r hr => (hinv.done r hr).2, ?_⟩
  rw [hinv.reads.stream]
  exact List.prefix_append ..

/-- A `Read` whose bytes come in two chunks. -/
def readTwoChunks : List CoAction :=
  [.sched .next, .sched .next, .sched .next, .sched .next, .read 2 0, .suspend, .sched .next,
    .readable (.bytes [7]), .readable (.bytes [8, 9]), .handlerReturns, .sched .next, .sched .next,
    .sched .next, .return_]

/-- Then the coroutine sleeps for 100 ms, wakes up when they are over, and reads again. -/
def sleepThenRead : List CoAction :=
  [.sched (.sleep 100), .sched .next, .sched .next, .sched (.clock 100), .sched .next, .sched .next,
    .sched .next, .read 2 0, .suspend, .sched .next, .sched .next, .readable (.bytes [5, 6]),
    .handlerReturns, .sched .next, .sched .next, .sched .next, .return_]

theorem coLaw_two_reads :
    ∃ s, (coTcp 1 0).run (coTcp 1 0).init (readTwoChunks ++ sleepThenRead) = some s ∧
      s.returns = [⟨.read 2, "", [9, 5], some ""⟩, ⟨.read 2, "", [7, 8], some ""⟩] ∧ CoLaw s := by
  have h : ((coTcp 1 0).run (coTcp 1 0).init (readTwoChunks ++ sleepThenRead)).map (·.returns) =
      some [⟨.read 2, "", [9, 5], some ""⟩, ⟨.read 2, "", [7, 8], some ""⟩] := by
    decide +kernel
  obtain ⟨s, hs, hreturns⟩ := Option.map_eq_some_iff.mp h
  exact ⟨s, hs, hreturns,
    coLaw_of_noOtherWake (System.ReachableVia.run .init (by decide +kernel) hs)⟩

/-- The coroutine writes, and bytes arrive meanwhile: the callback of the `Read` resumes it, and the
`Write` returns without its own. -/
def writeThenBytes : List CoAction :=
  [.write [4] 0, .suspend, .sched .next, .sched .next, .readable (.bytes [5]), .handlerReturns,
    .sched .next, .sched .next, .sched .next, .return_]

/-- The coroutine sleeps, and bytes arrive meanwhile: the callback of the `Read` wakes it early, and
the next `Read` returns when the time of the sleep is over, with the bytes that there are. -/
def sleepThenBytes : List CoAction :=
  [.sched (.sleep 100), .sched .next, .sched .next, .readable (.bytes [5]), .handlerReturns,
    .sched .next, .sched .next, .sched .next, .read 4 0, .suspend, .sched .next, .sched .next,
    .sched (.clock 100), .sched .next, .sched .next, .sched .next, .return_]

theorem returns_early :
    (∃ s, (coTcp 1 0).run (coTcp 1 0).init (readTwoChunks ++ writeThenBytes) = some s ∧
      s.returns = [⟨.write [4], "", [], none⟩, ⟨.read 2, "", [7, 8], some ""⟩] ∧ ¬ CoLaw s) ∧
    ∃ s, (coTcp 1 0).run (coTcp 1 0).init (readTwoChunks ++ sleepThenBytes) = some s ∧
      s.returns = [⟨.read 4, "", [9, 5], none⟩, ⟨.read 2, "", [7, 8], some ""⟩] ∧ ¬ CoLaw s := by
  have hwrite : ((coTcp 1 0).run (coTcp 1 0).init (readTwoChunks ++ writeThenBytes)).map
      (·.returns) = some [⟨.write [4], "", [], none⟩, ⟨.read 2, "", [7, 8], some ""⟩] := by
    decide +kernel
  have hread : ((coTcp 1 0).run (coTcp 1 0).init (readTwoChunks ++ sleepThenBytes)).map
      (·.returns) = some [⟨.read 4, "", [9, 5], none⟩, ⟨.read 2, "", [7, 8], some ""⟩] := by
    decide +kernel
  obtain ⟨s, hs, hreturns⟩ := Option.map_eq_some_iff.mp hwrite
  obtain ⟨t, ht, hreturns'⟩ := Option.map_eq_some_iff.mp hread
  refine ⟨⟨s, hs, hreturns, fun hlaw => ?_⟩, t, ht, hreturns', fun hlaw => ?_⟩
  · exact hlaw.calledBack _ (by rw [hreturns]; exact List.mem_cons_self) rfl
  · exact hlaw.calledBack _ (by rw [hreturns']; exact List.mem_cons_self) rfl

end Sheep
