import Sheep.Lib.System
import Sheep.Net.Timer

/-!
# The life of a `Timer`

`AsyncWait`, `Cancel`, the loop that delivers the asyncer's event, the polls of the `TimerPoller`
and the destructor, in any order, where a handler may call `Cancel` and `AsyncWait` again. The
callbacks of the asyncer and of the event do nothing once `weakThis` has expired, which it has as
soon as the destructor runs.

`TimerLaw`: the handler of the first `AsyncWait` is called once by the time the timer is destroyed,
without an error only when its delay has passed, and every later `AsyncWait` calls its handler at
once with an error. `timerLaw_iff`: a run keeps the law if and only if the handler does not call
`Cancel` out of the destructor when the asyncer has been delivered. Every other place that calls the
handler sets `done_` first, the destructor does not.
-/

namespace Sheep

/-- One call of a handler, with the clock of the poll that returned the event, if the loop made the
call for the event of the timer. -/
structure TimerRunCall where
  handler : Handler
  errMsg : String
  poll : Option UInt64
  deriving DecidableEq, Repr

inductive TimerPhase
  | live
  /-- the destructor has called the handler -/
  | destroying
  | destroyed
  deriving DecidableEq, Repr

/-- What the timer goes on with when a handler returns. -/
inductive TimerFrame
  | returns
  /-- `cancel`, after `asyncer_->Cancel()` -/
  | cancelEvent
  /-- the end of the destructor -/
  | destroy
  deriving DecidableEq, Repr

/-- The `n`-th call of `AsyncWait` passes the handler `n`, starting with 0. -/
structure TimerRun where
  timer : Timer
  phase : TimerPhase
  /-- the handlers on the stack -/
  frames : List TimerFrame
  /-- the clock when the asyncer's event was delivered -/
  delivered : Option UInt64
  /-- the clock of the poll that has returned the timer's event, until the event is dispatched -/
  polled : Option UInt64
  /-- the number of calls of `AsyncWait` -/
  waits : Nat
  calls : List TimerRunCall
  deriving DecidableEq, Repr

inductive TimerAction
  | asyncWait (ms : UInt64)
  | cancel
  /-- the loop dispatches the asyncer's event -/
  | deliver (now : UInt64)
  | poll (now : UInt64)
  /-- the loop dispatches what the poll has returned -/
  | dispatch
  /-- the handler returns -/
  | resume
  /-- the last `shared_ptr` to the timer goes -/
  | destroy
  deriving DecidableEq, Repr

/-- `asyncer_->Cancel()` when `weakThis` has expired. -/
def Timer.cancelAsyncerExpired (t : Timer) : Timer :=
  match t.asyncer with
  | some ⟨some h, _, _⟩ => { t with asyncer := some ⟨some h, false, true⟩ }
  | _ => t

namespace TimerRun

def new : TimerRun := ⟨.new, .live, [], none, none, 0, []⟩

/-- A method has left the timer and called the handlers so; `frame` is what it goes on with after
the call. -/
def called (s : TimerRun) (frame : TimerFrame) (poll : Option UInt64)
    (r : Timer × List TimerCall) : TimerRun :=
  { s with
    timer := r.1
    frames := r.2.map (fun _ => frame) ++ s.frames
    calls := s.calls ++ r.2.map fun c => ⟨c.1, c.2, poll⟩ }

/-- The rest of `cancel`. -/
def cancelEvent (s : TimerRun) : TimerRun := s.called .returns none s.timer.cancelEvent

/-- `cancel`. -/
def cancel (s : TimerRun) : TimerRun :=
  match s.phase with
  | .live =>
    match s.timer.cancelAsyncer with
    | (t, []) => ({ s with timer := t }).cancelEvent
    | r => s.called .cancelEvent none r
  | _ => ({ s with timer := s.timer.cancelAsyncerExpired }).cancelEvent

/-- The first `AsyncWait` has nothing to cancel, so that it calls no handler. -/
def asyncWait (s : TimerRun) (ms : UInt64) : TimerRun :=
  { s.called .returns none (s.timer.asyncWait ms s.waits) with waits := s.waits + 1 }

/-- The poll looks for events that are due. -/
def poll (s : TimerRun) (now : UInt64) : TimerRun :=
  match s.timer.event with
  | some ⟨fd, true⟩ => if fd ≤ now.toInt64 then { s with polled := some now } else s
  | _ => s

/-- `Event::Do`, unless the event is gone. A `Cancel` since the poll has taken its flag away. -/
def dispatch (s : TimerRun) (now : UInt64) : TimerRun :=
  let s' := { s with polled := none }
  if s.phase = .live then
    match s.timer.expire now with
    | some r => s'.called .returns (some now) r
    | none => s'
  else s'

def resume (s : TimerRun) : TimerFrame → TimerRun
  | .returns => s
  | .cancelEvent => s.cancelEvent
  | .destroy => { s with phase := .destroyed }

def destroy (s : TimerRun) : TimerRun :=
  match s.timer.destroy with
  | [] => { s with phase := .destroyed }
  | calls => { s with phase := .destroying }.called .destroy none (s.timer, calls)

/-- Who runs a method of the timer keeps it alive, so the destructor runs with no method on the
stack. The loop does not run while a handler does: a method holds `lock_` when it calls it. -/
def step (s : TimerRun) : TimerAction → Option TimerRun
  | .asyncWait ms => if s.phase = .destroyed then none else some (s.asyncWait ms)
  | .cancel => if s.phase = .destroyed then none else some s.cancel
  | .deliver now =>
    if s.frames = [] ∧ s.phase = .live ∧ now.toNat + s.timer.ms.toNat < 2 ^ 63 then
      (s.timer.deliver now).map fun t => { s with timer := t, delivered := some now }
    else none
  | .poll now => if s.frames = [] ∧ s.phase = .live then some (s.poll now) else none
  | .dispatch => if s.frames = [] then s.polled.map s.dispatch else none
  | .resume =>
    match s.frames with
    | [] => none
    | f :: frames => some (({ s with frames := frames }).resume f)
  | .destroy => if s.frames = [] ∧ s.phase = .live then some s.destroy else none

def system : System TimerRun TimerAction := ⟨new, step⟩

/-- How often the handler of the `k`-th `AsyncWait` has been called. -/
def timesCalled (s : TimerRun) (k : Nat) : Nat := s.calls.countP fun c => c.handler = k

end TimerRun

open TimerRun

structure TimerLaw (s : TimerRun) : Prop where
  atMostOnce : s.timesCalled 0 ≤ 1
  once : s.phase = .destroyed → 0 < s.waits → s.timesCalled 0 = 1
  success : ∀ c ∈ s.calls, c.errMsg = "" → c.handler = 0 ∧ ∃ d p, s.delivered = some d ∧
    c.poll = some p ∧ d.toNat + s.timer.ms.toNat ≤ p.toNat
  later : ∀ k, 0 < k → k < s.waits → s.timesCalled k = 1

/-- The handler does not call `Cancel` out of the destructor, or the asyncer has not been
delivered. -/
def NotFromDestructor (s : TimerRun) (a : TimerAction) : Prop :=
  a = .cancel → s.phase = .destroying → s.timer.event = none

instance (s : TimerRun) (a : TimerAction) : Decidable (NotFromDestructor s a) := by
  unfold NotFromDestructor; infer_instance

/-! ## What the operations of the timer do in its stages -/

namespace Timer

variable {t : Timer} {h : Handler}

theorem toInt64_toInt (n : UInt64) : n.toInt64.toInt = (n.toNat : Int).bmod (2 ^ 64) :=
  BitVec.toInt_eq_toNat_bmod n.toBitVec

/-- An event that the poller finds due is due. -/
theorem due_le {d ms p : UInt64} (hsmall : d.toNat + ms.toNat < 2 ^ 63)
    (hle : (d + ms).toInt64 ≤ p.toInt64) : d.toNat + ms.toNat ≤ p.toNat := by
  have hsum : (d + ms).toNat = d.toNat + ms.toNat := by
    rw [UInt64.toNat_add, Nat.mod_eq_of_lt (by omega)]
  have hle' := Int64.le_iff_toInt_le.mp hle
  rw [toInt64_toInt, toInt64_toInt, hsum] at hle'
  have hp := p.toNat_lt
  simp only [Int.bmod] at hle'
  omega

theorem cancelAsyncer_kept (t : Timer) : t.cancelAsyncer.1.ms = t.ms ∧
    t.cancelAsyncer.1.used = t.used ∧ t.cancelAsyncer.1.handler = t.handler ∧
    t.cancelAsyncer.1.event = t.event := by
  unfold cancelAsyncer
  split
  next => split <;> exact ⟨rfl, rfl, rfl, rfl⟩
  next => exact ⟨rfl, rfl, rfl, rfl⟩
  next => exact ⟨rfl, rfl, rfl, rfl⟩

theorem cancelEvent_kept (t : Timer) : t.cancelEvent.1.ms = t.ms ∧
    t.cancelEvent.1.used = t.used ∧ t.cancelEvent.1.handler = t.handler := by
  unfold cancelEvent
  split
  next => exact ⟨rfl, rfl, rfl⟩
  next => split <;> exact ⟨rfl, rfl, rfl⟩

theorem cancelAsyncerExpired_kept (t : Timer) : t.cancelAsyncerExpired.ms = t.ms ∧
    t.cancelAsyncerExpired.used = t.used ∧ t.cancelAsyncerExpired.handler = t.handler ∧
    t.cancelAsyncerExpired.event = t.event ∧ t.cancelAsyncerExpired.done = t.done := by
  unfold cancelAsyncerExpired
  split
  next => exact ⟨rfl, rfl, rfl, rfl, rfl⟩
  next => exact ⟨rfl, rfl, rfl, rfl, rfl⟩

/-- Once `done_` is set, `Cancel` calls no handler. -/
theorem cancelAsyncer_done (hd : t.done = true) :
    t.cancelAsyncer.2 = [] ∧ t.cancelAsyncer.1.done = true := by
  unfold cancelAsyncer
  split
  next => rw [if_pos hd]; exact ⟨rfl, hd⟩
  next => exact ⟨rfl, hd⟩
  next => exact ⟨rfl, hd⟩

theorem cancelEvent_done (hd : t.done = true) :
    t.cancelEvent.2 = [] ∧ t.cancelEvent.1.done = true := by
  unfold cancelEvent
  split
  next => exact ⟨rfl, hd⟩
  next =>
    split
    next hdone _ => exact absurd (hd.symm.trans hdone) (by decide)
    next => exact ⟨rfl, hd⟩

theorem cancelEvent_none (he : t.event = none) : t.cancelEvent = (t, []) := by
  simp only [cancelEvent, he]

/-- The timer's event is there and the handler has not been called: `cancel` calls it. -/
theorem cancelEvent_some {e : TimerEvent} (he : t.event = some e) (hd : t.done = false)
    (hh : t.handler = some h) : t.cancelEvent =
      ({ t with event := some { e with readNotify := false }, done := true },
        [(h, "Timer Canceled")]) := by
  simp only [cancelEvent, he, hd, hh]

/-- Before the delivery the asyncer's callback calls the handler of a canceled timer. -/
theorem Armed.cancelAsyncer_waiting (ht : t.Armed h) (he : t.event = none) :
    t.cancelAsyncer.2 = [(h, "Asyncer Canceled")] ∧ t.cancelAsyncer.1.Spent ∧
      t.cancelAsyncer.1.done = true := by
  rcases ht.awaited with ⟨hasyncer, -⟩ | ⟨e, -, hevent, -⟩
  · simp only [cancelAsyncer, hasyncer, ht.notDone, Bool.false_eq_true, if_false, true_and,
      and_true]
    refine ⟨fun a ha => ?_, fun e hsome => ?_⟩
    · cases ha; rfl
    · exact absurd (hsome.symm.trans he) (by simp)
  · exact absurd (hevent.symm.trans he) (by simp)

/-- After the delivery the asyncer has nothing to call any more. -/
theorem Armed.cancelAsyncer_delivered {e : TimerEvent} (ht : t.Armed h) (he : t.event = some e) :
    t.cancelAsyncer = (t, []) := by
  rcases ht.awaited with ⟨-, hnone⟩ | ⟨e', hasyncer, -, -⟩
  · exact absurd (he.symm.trans hnone) (by simp)
  · obtain ⟨handler, asyncer, ms, event, done, used⟩ := t
    simp only at hasyncer
    simp only [cancelAsyncer, hasyncer]

/-- `cancel` goes on to the event of an armed timer. -/
theorem Armed.cancelEvent {e : TimerEvent} (ht : t.Armed h) (he : t.event = some e) :
    t.cancelEvent.2 = [(h, "Timer Canceled")] ∧ t.cancelEvent.1.Spent ∧
      t.cancelEvent.1.done = true := by
  rw [cancelEvent_some he ht.notDone ht.handler]
  refine ⟨rfl, ⟨fun a ha => ?_, fun e hsome => ?_⟩, rfl⟩
  · rcases ht.awaited with ⟨-, hnone⟩ | ⟨e', hasyncer, -, -⟩
    · exact absurd (he.symm.trans hnone) (by simp)
    · obtain rfl := Option.some.inj (hasyncer.symm.trans ha)
      rfl
  · cases hsome; rfl

/-- An armed timer that expires was due. -/
theorem expire_armed {now : UInt64} {t' : Timer} {calls : List TimerCall} (ht : t.Armed h)
    (hx : t.expire now = some (t', calls)) : ∃ e, t.event = some e ∧ e.fd ≤ now.toInt64 ∧
      t' = { t with event := some { e with readNotify := false }, done := true } := by
  unfold expire at hx
  split at hx
  next fd hevent =>
    split at hx
    next hdue =>
      rw [if_neg (by rw [ht.notDone]; decide)] at hx
      obtain ⟨h', -, heq⟩ := Option.map_eq_some_iff.mp hx
      exact ⟨⟨fd, true⟩, hevent, hdue, (congrArg Prod.fst heq).symm⟩
    next => cases hx
  next => cases hx

end Timer

/-! ## The stages of a run -/

namespace TimerRun

/-- What the log of the calls says in every stage. -/
structure Logged (s : TimerRun) : Prop where
  success : ∀ c ∈ s.calls, c.errMsg = "" → c.handler = 0 ∧ ∃ d p, s.delivered = some d ∧
    c.poll = some p ∧ d.toNat + s.timer.ms.toNat ≤ p.toNat
  later : ∀ k, 0 < k → k < s.waits → s.timesCalled k = 1
  bound : ∀ c ∈ s.calls, c.handler < s.waits

/-- The timer waits for the loop, and its event is due `ms` after the delivery. -/
structure Waiting (s : TimerRun) : Prop where
  armed : s.timer.Armed 0
  due : ∀ e, s.timer.event = some e → ∃ d, s.delivered = some d ∧
    d.toNat + s.timer.ms.toNat < 2 ^ 63 ∧ e.fd = (d + s.timer.ms).toInt64
  count : s.timesCalled 0 = 0

inductive Stage (s : TimerRun) : Prop
  | unused (hphase : s.phase = .live) (htimer : s.timer = .new) (hwaits : s.waits = 0)
  | waiting (hphase : s.phase = .live) (hused : s.timer.used = true) (hwaits : 0 < s.waits)
      (hwaiting : s.Waiting)
  | called (hphase : s.phase = .live) (hused : s.timer.used = true) (hwaits : 0 < s.waits)
      (hspent : s.timer.Spent) (hdone : s.timer.done = true) (hcount : s.timesCalled 0 = 1)
  | destroying (hphase : s.phase = .destroying) (hused : s.timer.used = true)
      (hwaits : 0 < s.waits) (hhandler : s.timer.handler = some 0) (hdone : s.timer.done = false)
      (hcount : s.timesCalled 0 = 1)
  | destroyed (hphase : s.phase = .destroyed) (hcount : 0 < s.waits → s.timesCalled 0 = 1)

structure Good (s : TimerRun) : Prop where
  logged : s.Logged
  stage : s.Stage
  live : s.phase = .live → .destroy ∉ s.frames
  gone : s.phase ≠ .live → .cancelEvent ∉ s.frames

variable {s t : TimerRun}

/-- The handler of the first `AsyncWait` is called: what the log has to say about the new calls. -/
theorem Logged.extend (hs : s.Logged) (cs : List TimerRunCall) (hcalls : t.calls = s.calls ++ cs)
    (hwaits : t.waits = s.waits) (hms : t.timer.ms = s.timer.ms)
    (hdelivered : t.delivered = s.delivered)
    (hcs : ∀ c ∈ cs, c.handler = 0 ∧ 0 < s.waits ∧ (c.errMsg = "" → ∃ d p, s.delivered = some d ∧
      c.poll = some p ∧ d.toNat + s.timer.ms.toNat ≤ p.toNat)) : t.Logged := by
  refine ⟨fun c hc herr => ?_, fun k hk hlt => ?_, fun c hc => ?_⟩
  · rw [hms, hdelivered]
    rcases List.mem_append.mp (hcalls ▸ hc) with hc | hc
    · exact hs.success c hc herr
    · exact ⟨(hcs c hc).1, (hcs c hc).2.2 herr⟩
  · have hnone : cs.countP (fun c => c.handler = k) = 0 := by
      rw [List.countP_eq_zero]
      intro c hc
      simp only [decide_eq_true_eq, (hcs c hc).1]
      omega
    rw [timesCalled, hcalls, List.countP_append, hnone]
    exact hs.later k hk (hwaits ▸ hlt)
  · rw [hwaits]
    rcases List.mem_append.mp (hcalls ▸ hc) with hc | hc
    · exact hs.bound c hc
    · rw [(hcs c hc).1]; exact (hcs c hc).2.1

/-- No handler is called. -/
theorem Logged.of_eq (hs : s.Logged) (hcalls : t.calls = s.calls) (hwaits : t.waits = s.waits)
    (hms : t.timer.ms = s.timer.ms) (hdelivered : t.delivered = s.delivered) : t.Logged :=
  hs.extend [] (by rw [hcalls, List.append_nil]) hwaits hms hdelivered nofun

/-- A later `AsyncWait` calls its own handler. -/
theorem Logged.reuse (hs : s.Logged) {c : TimerRunCall} (hcalls : t.calls = s.calls ++ [c])
    (hwaits : t.waits = s.waits + 1) (hms : t.timer.ms = s.timer.ms)
    (hdelivered : t.delivered = s.delivered) (hhandler : c.handler = s.waits)
    (herr : c.errMsg ≠ "") : t.Logged := by
  have hmem : ∀ x ∈ t.calls, x ∈ s.calls ∨ x = c := fun x hx => by
    simpa [hcalls] using hx
  refine ⟨fun x hx hx' => ?_, fun k hk hlt => ?_, fun x hx => ?_⟩
  · rw [hms, hdelivered]
    rcases hmem x hx with hx | rfl
    · exact hs.success x hx hx'
    · exact absurd hx' herr
  · rw [timesCalled, hcalls, List.countP_append, List.countP_singleton]
    rcases eq_or_ne k s.waits with hkw | hkw
    · have hnone : s.calls.countP (fun c => c.handler = k) = 0 := by
        rw [List.countP_eq_zero]
        intro x hx
        have hne := Nat.ne_of_lt (hs.bound x hx)
        simpa [hkw] using hne
      rw [hnone]
      simp [hhandler, hkw]
    · have hone := hs.later k hk (by omega)
      rw [timesCalled] at hone
      simp [hone, hhandler, Ne.symm hkw]
  · rcases hmem x hx with hx | rfl
    · exact hwaits ▸ Nat.lt_succ_of_lt (hs.bound x hx)
    · rw [hhandler, hwaits]; exact Nat.lt_succ_self _

theorem Logged.count_unused (hs : s.Logged) (hwaits : s.waits = 0) {k : Nat} :
    s.timesCalled k = 0 := by
  rw [timesCalled, List.countP_eq_zero]
  intro c hc
  have hlt := hs.bound c hc
  rw [hwaits] at hlt
  exact absurd hlt (Nat.not_lt_zero _)

theorem timesCalled_append {cs : List TimerRunCall} (hcalls : t.calls = s.calls ++ cs) (k : Nat) :
    t.timesCalled k = s.timesCalled k + cs.countP fun c => c.handler = k := by
  rw [timesCalled, hcalls, List.countP_append]
  rfl

theorem timesCalled_eq (hcalls : t.calls = s.calls) (k : Nat) :
    t.timesCalled k = s.timesCalled k := by
  rw [timesCalled, hcalls]
  rfl

/-! ## What a step leads to -/

theorem called_nil {r : Timer × List TimerCall} (hr : r.2 = []) (f : TimerFrame)
    (p : Option UInt64) : s.called f p r = { s with timer := r.1 } := by
  simp [called, hr]

theorem called_single {r : Timer × List TimerCall} {c : TimerCall} (hr : r.2 = [c])
    (f : TimerFrame) (p : Option UInt64) : s.called f p r = { s with
      timer := r.1
      frames := f :: s.frames
      calls := s.calls ++ [⟨c.1, c.2, p⟩] } := by
  simp [called, hr]

/-- The timer has called the handler, from outside of the destructor. -/
theorem Good.calledOnce (hs : s.Good) (hlive : s.phase = .live) (hused : s.timer.used = true)
    (hwaits : 0 < s.waits) (hcount : s.timesCalled 0 = 0) {f : TimerFrame} (hf : f ≠ .destroy)
    {p : Option UInt64} {r : Timer × List TimerCall} {errMsg : String}
    (hcall : r.2 = [(0, errMsg)]) (hspent : r.1.Spent) (hdone : r.1.done = true)
    (hms : r.1.ms = s.timer.ms) (hused' : r.1.used = s.timer.used)
    (herr : errMsg = "" → ∃ d now, s.delivered = some d ∧ p = some now ∧
      d.toNat + s.timer.ms.toNat ≤ now.toNat) :
    (s.called f p r).Good := by
  rw [called_single hcall]
  refine ⟨hs.logged.extend [⟨0, errMsg, p⟩] rfl rfl hms rfl fun c hc => ?_,
    .called hlive (hused'.trans hused) hwaits hspent hdone ?_, fun hphase => ?_,
    fun hgone => absurd hlive hgone⟩
  · obtain rfl := List.mem_singleton.mp hc
    exact ⟨rfl, hwaits, herr⟩
  · rw [timesCalled_append (s := s) rfl, hcount]; rfl
  · rw [List.mem_cons, not_or]
    exact ⟨hf.symm, hs.live hphase⟩

/-- A step calls no handler and leaves the stack as it is. -/
theorem Good.quiet (hs : s.Good) (hcalls : t.calls = s.calls) (hwaits : t.waits = s.waits)
    (hms : t.timer.ms = s.timer.ms) (hdelivered : t.delivered = s.delivered)
    (hphase : t.phase = s.phase) (hframes : t.frames = s.frames) (hstage : t.Stage) : t.Good :=
  ⟨hs.logged.of_eq hcalls hwaits hms hdelivered, hstage, by rw [hphase, hframes]; exact hs.live,
    by rw [hphase, hframes]; exact hs.gone⟩

/-- `cancel` goes on to the event, from outside of the destructor. -/
theorem Good.cancelEvent (hs : s.Good) (hlive : s.phase = .live) : s.cancelEvent.Good := by
  obtain ⟨hms, hused', -⟩ := s.timer.cancelEvent_kept
  cases hs.stage with
  | unused hphase htimer hwaits =>
    rw [TimerRun.cancelEvent, Timer.cancelEvent_none (by rw [htimer]; rfl), called_nil rfl]
    exact hs
  | waiting hphase hused hwaits hwaiting =>
    cases hevent : s.timer.event with
    | none => rw [TimerRun.cancelEvent, Timer.cancelEvent_none hevent, called_nil rfl]; exact hs
    | some e =>
      obtain ⟨hcall, hspent, hdone⟩ := hwaiting.armed.cancelEvent hevent
      exact hs.calledOnce hlive hused hwaits hwaiting.count (by decide) hcall hspent hdone hms
        hused' (fun herr => absurd herr (by decide))
  | called hphase hused hwaits hspent hdone hcount =>
    obtain ⟨hcall, hdone'⟩ := Timer.cancelEvent_done hdone
    rw [TimerRun.cancelEvent, called_nil hcall]
    exact hs.quiet rfl rfl hms rfl rfl rfl
      (.called hphase (hused'.trans hused) hwaits hspent.cancelEvent hdone' hcount)
  | destroying hphase => exact absurd (hphase.symm.trans hlive) (by decide)
  | destroyed hphase => exact absurd (hphase.symm.trans hlive) (by decide)

theorem cancel_live (hlive : s.phase = .live) (hcall : s.timer.cancelAsyncer.2 = []) :
    s.cancel = ({ s with timer := s.timer.cancelAsyncer.1 }).cancelEvent := by
  have hr : s.timer.cancelAsyncer = (s.timer.cancelAsyncer.1, []) := Prod.ext rfl hcall
  simp only [cancel, hlive]
  rw [hr]

theorem cancel_live_called {c : TimerCall} (hlive : s.phase = .live)
    (hcall : s.timer.cancelAsyncer.2 = [c]) :
    s.cancel = s.called .cancelEvent none s.timer.cancelAsyncer := by
  have hr : s.timer.cancelAsyncer = (s.timer.cancelAsyncer.1, [c]) := Prod.ext rfl hcall
  simp only [cancel, hlive]
  rw [hr]

theorem Good.cancel (hs : s.Good) (hlive : s.phase = .live) : s.cancel.Good := by
  obtain ⟨hms, hused', hhandler', hevent'⟩ := s.timer.cancelAsyncer_kept
  cases hs.stage with
  | unused hphase htimer hwaits =>
    have hquiet : s.timer.cancelAsyncer = (s.timer, []) := by rw [htimer]; rfl
    rw [cancel_live hlive (by rw [hquiet]), hquiet]
    exact hs.cancelEvent hlive
  | waiting hphase hused hwaits hwaiting =>
    cases hevent : s.timer.event with
    | none =>
      obtain ⟨hcall, hspent, hdone⟩ := hwaiting.armed.cancelAsyncer_waiting hevent
      rw [cancel_live_called hlive hcall]
      exact hs.calledOnce hlive hused hwaits hwaiting.count (by decide) hcall hspent hdone hms
        hused' (fun herr => absurd herr (by decide))
    | some e =>
      have hquiet := hwaiting.armed.cancelAsyncer_delivered hevent
      rw [cancel_live hlive (by rw [hquiet]), hquiet]
      exact hs.cancelEvent hlive
  | called hphase hused hwaits hspent hdone hcount =>
    obtain ⟨hcall, hdone'⟩ := Timer.cancelAsyncer_done hdone
    rw [cancel_live hlive hcall]
    exact Good.cancelEvent (hs.quiet rfl rfl hms rfl rfl rfl
      (.called hphase (hused'.trans hused) hwaits hspent.cancelAsyncer hdone' hcount)) hlive
  | destroying hphase => exact absurd (hphase.symm.trans hlive) (by decide)
  | destroyed hphase => exact absurd (hphase.symm.trans hlive) (by decide)

theorem cancel_destroying (hphase : s.phase = .destroying) :
    s.cancel = ({ s with timer := s.timer.cancelAsyncerExpired }).cancelEvent := by
  simp only [cancel, hphase]

/-- In the destructor `Cancel` does nothing when there is no event. -/
theorem Good.cancel_destroying (hs : s.Good) (hphase : s.phase = .destroying)
    (hevent : s.timer.event = none) : s.cancel.Good := by
  obtain ⟨hms, hused', hhandler', hevent', hdone'⟩ := s.timer.cancelAsyncerExpired_kept
  rw [TimerRun.cancel_destroying hphase, TimerRun.cancelEvent, Timer.cancelEvent_none
    (t := s.timer.cancelAsyncerExpired) (hevent'.trans hevent), called_nil rfl]
  cases hs.stage with
  | destroying _ hused hwaits hhandler hdone hcount =>
    exact hs.quiet rfl rfl hms rfl rfl rfl (.destroying hphase (hused'.trans hused) hwaits
      (hhandler'.trans hhandler) (hdone'.trans hdone) hcount)
  | unused hlive | waiting hlive | called hlive | destroyed hlive =>
    exact absurd (hphase.symm.trans hlive) (by decide)

/-- With the event there it calls the handler again. -/
theorem Good.cancel_twice (hs : s.Good) (hphase : s.phase = .destroying)
    (hevent : s.timer.event ≠ none) : s.cancel.timesCalled 0 = 2 := by
  obtain ⟨hms, hused', hhandler', hevent', hdone'⟩ := s.timer.cancelAsyncerExpired_kept
  obtain ⟨e, he⟩ := Option.ne_none_iff_exists'.mp hevent
  cases hs.stage with
  | destroying _ hused hwaits hhandler hdone hcount =>
    rw [TimerRun.cancel_destroying hphase, TimerRun.cancelEvent, Timer.cancelEvent_some
      (t := s.timer.cancelAsyncerExpired) (hevent'.trans he) (hdone'.trans hdone)
      (hhandler'.trans hhandler), called_single rfl, timesCalled_append (s := s) rfl, hcount]
    rfl
  | unused hlive | waiting hlive | called hlive | destroyed hlive =>
    exact absurd (hphase.symm.trans hlive) (by decide)

theorem asyncWait_used (ms : UInt64) (hused : s.timer.used = true) : s.asyncWait ms =
    { s with
      frames := .returns :: s.frames
      calls := s.calls ++ [⟨s.waits, "Timer can't reuse", none⟩]
      waits := s.waits + 1 } := by
  simp [asyncWait, Timer.asyncWait, hused, called]

theorem Good.asyncWait_used (hs : s.Good) (ms : UInt64) (hused : s.timer.used = true)
    (hwaits : 0 < s.waits) : (s.asyncWait ms).Good := by
  rw [TimerRun.asyncWait_used ms hused]
  have hcount : ∀ {r : TimerRun}, r.calls = s.calls ++ [⟨s.waits, "Timer can't reuse", none⟩] →
      r.timesCalled 0 = s.timesCalled 0 := fun hr => by
    rw [timesCalled_append hr, List.countP_singleton]
    simp [Nat.ne_of_gt hwaits]
  refine ⟨hs.logged.reuse rfl rfl rfl rfl rfl
    (show "Timer can't reuse" ≠ "" by decide), ?_, fun hphase => ?_, fun hphase => ?_⟩
  · cases hs.stage with
    | unused hphase htimer => rw [htimer] at hused; cases hused
    | waiting hphase _ _ hwaiting =>
      exact .waiting hphase hused (Nat.succ_pos _)
        ⟨hwaiting.armed, hwaiting.due, (hcount rfl).trans hwaiting.count⟩
    | called hphase _ _ hspent hdone hone =>
      exact .called hphase hused (Nat.succ_pos _) hspent hdone ((hcount rfl).trans hone)
    | destroying hphase _ _ hhandler hdone hone =>
      exact .destroying hphase hused (Nat.succ_pos _) hhandler hdone ((hcount rfl).trans hone)
    | destroyed hphase hone => exact .destroyed hphase fun _ => (hcount rfl).trans (hone hwaits)
  · simpa using hs.live hphase
  · simpa using hs.gone hphase

/-- The first `AsyncWait`. -/
theorem Good.asyncWait_new (hs : s.Good) (ms : UInt64) (hlive : s.phase = .live)
    (htimer : s.timer = .new) (hwaits : s.waits = 0) : (s.asyncWait ms).Good := by
  have hcalls : s.calls = [] := by
    cases hc : s.calls with
    | nil => rfl
    | cons c cs =>
      have := hs.logged.bound c (by rw [hc]; exact List.mem_cons_self)
      rw [hwaits] at this
      exact absurd this (Nat.not_lt_zero _)
  obtain ⟨harmed, hquiet⟩ := Timer.asyncWait_armed ms 0
  have hstate : s.asyncWait ms =
      { s with timer := (Timer.new.asyncWait ms 0).1, waits := 1 } := by
    rw [asyncWait, htimer, hwaits, called_nil hquiet]
  rw [hstate]
  refine ⟨⟨fun c hc => ?_, fun k hk hlt => ?_, fun c hc => ?_⟩,
    .waiting hlive rfl Nat.one_pos ⟨harmed, fun e he => ?_, ?_⟩, hs.live, hs.gone⟩
  · rw [show c ∈ s.calls ↔ False by simp [hcalls]] at hc
    exact hc.elim
  · exact absurd hlt (Nat.not_lt.mpr hk)
  · rw [show c ∈ s.calls ↔ False by simp [hcalls]] at hc
    exact hc.elim
  · cases he
  · simp [timesCalled, hcalls]

theorem Good.deliver {now : UInt64} {timer : Timer} (hs : s.Good) (hlive : s.phase = .live)
    (hsmall : now.toNat + s.timer.ms.toNat < 2 ^ 63) (hd : s.timer.deliver now = some timer) :
    Good { s with timer := timer, delivered := some now } := by
  cases hs.stage with
  | unused hphase htimer hwaits => rw [htimer] at hd; cases hd
  | waiting hphase hused hwaits hwaiting =>
    have harmed := hwaiting.armed.deliver hd
    rcases hwaiting.armed.awaited with ⟨hasyncer, hevent⟩ | ⟨e, hasyncer, -, -⟩
    · simp only [Timer.deliver, hasyncer, Option.some.injEq] at hd
      subst hd
      -- the handler has not been called, so no call was without an error
      have hnone : ∀ c ∈ s.calls, c.handler ≠ 0 := by
        simpa [timesCalled, List.countP_eq_zero] using hwaiting.count
      refine ⟨⟨fun c hc herr => ?_, hs.logged.later, hs.logged.bound⟩,
        .waiting hphase hused hwaits ⟨harmed, fun e he => ?_, hwaiting.count⟩, hs.live, hs.gone⟩
      · exact absurd (hs.logged.success c hc herr).1 (hnone c hc)
      · cases he
        exact ⟨now, rfl, hsmall, rfl⟩
    · simp [Timer.deliver, hasyncer] at hd
  | called hphase hused hwaits hspent => rw [hspent.deliver_none] at hd; cases hd
  | destroying hphase | destroyed hphase => exact absurd (hphase.symm.trans hlive) (by decide)

theorem Stage.of_eq (hs : s.Stage) (htimer : t.timer = s.timer) (hphase : t.phase = s.phase)
    (hdelivered : t.delivered = s.delivered) (hwaits : t.waits = s.waits)
    (hcalls : t.calls = s.calls) : t.Stage := by
  have hcount := timesCalled_eq hcalls 0
  cases hs with
  | unused hp ht hw => exact .unused (hphase.trans hp) (htimer.trans ht) (hwaits.trans hw)
  | waiting hp hu hw hwaiting =>
    exact .waiting (hphase.trans hp) (htimer ▸ hu) (hwaits ▸ hw)
      ⟨htimer ▸ hwaiting.armed, by rw [htimer, hdelivered]; exact hwaiting.due,
        hcount.trans hwaiting.count⟩
  | called hp hu hw hspent hdone hone =>
    exact .called (hphase.trans hp) (htimer ▸ hu) (hwaits ▸ hw) (htimer ▸ hspent)
      (htimer ▸ hdone) (hcount.trans hone)
  | destroying hp hu hw hhandler hdone hone =>
    exact .destroying (hphase.trans hp) (htimer ▸ hu) (hwaits ▸ hw) (htimer ▸ hhandler)
      (htimer ▸ hdone) (hcount.trans hone)
  | destroyed hp hone =>
    exact .destroyed (hphase.trans hp) fun h => hcount.trans (hone (hwaits ▸ h))

theorem Good.setPolled (hs : s.Good) (polled : Option UInt64) :
    Good { s with polled := polled } :=
  hs.quiet rfl rfl rfl rfl rfl rfl (hs.stage.of_eq rfl rfl rfl rfl rfl)

theorem Good.poll (hs : s.Good) (now : UInt64) : (s.poll now).Good := by
  unfold TimerRun.poll
  split
  next =>
    split
    next => exact hs.setPolled _
    next => exact hs
  next => exact hs

/-- The event of the timer expires when its delay has passed since the delivery. -/
theorem Good.dispatch (hs : s.Good) (now : UInt64) : (s.dispatch now).Good := by
  have hs' := hs.setPolled none
  unfold TimerRun.dispatch
  split
  next hlive =>
    cases hx : s.timer.expire now with
    | none => exact hs'
    | some r =>
      cases hs.stage with
      | unused hphase htimer => rw [htimer] at hx; cases hx
      | waiting hphase hused hwaits hwaiting =>
        obtain ⟨timer, calls⟩ := r
        obtain ⟨rfl, hspent⟩ := hwaiting.armed.expire hx
        obtain ⟨e, hevent, hdue, hr⟩ := Timer.expire_armed hwaiting.armed hx
        obtain ⟨d, hdelivered, hsmall, hfd⟩ := hwaiting.due e hevent
        exact hs'.calledOnce hlive hused hwaits hwaiting.count (by decide) rfl hspent (by rw [hr])
          (by rw [hr]) (by rw [hr])
          fun _ => ⟨d, now, hdelivered, rfl, Timer.due_le hsmall (hfd ▸ hdue)⟩
      | called hphase hused hwaits hspent => rw [hspent.expire_none] at hx; cases hx
      | destroying hphase | destroyed hphase => exact absurd (hphase.symm.trans hlive) (by decide)
  next => exact hs'

theorem destroy_quiet (hquiet : s.timer.destroy = []) :
    s.destroy = { s with phase := .destroyed } := by
  simp only [destroy, hquiet]

theorem destroy_called {c : TimerCall} (hcall : s.timer.destroy = [c]) :
    s.destroy = { s with phase := .destroying }.called .destroy none (s.timer, [c]) := by
  simp only [destroy, hcall]

theorem Good.destroy (hs : s.Good) (hlive : s.phase = .live) (hframes : s.frames = []) :
    s.destroy.Good := by
  cases hs.stage with
  | unused hphase htimer hwaits =>
    have hquiet : s.timer.destroy = [] := by rw [htimer]; rfl
    rw [destroy_quiet hquiet]
    refine ⟨hs.logged.of_eq rfl rfl rfl rfl, .destroyed rfl fun h => ?_, fun h => ?_, fun _ => ?_⟩
    · exact absurd hwaits (Nat.ne_of_gt h)
    · cases h
    · simp [hframes]
  | waiting hphase hused hwaits hwaiting =>
    have hcall : s.timer.destroy = [(0, "Timer Canceled")] := by
      simp only [Timer.destroy, hwaiting.armed.notDone, hwaiting.armed.handler]
    rw [destroy_called hcall, called_single rfl]
    refine ⟨hs.logged.extend [⟨0, "Timer Canceled", none⟩] rfl rfl rfl rfl fun c hc => ?_,
      .destroying rfl hused hwaits hwaiting.armed.handler hwaiting.armed.notDone ?_,
      fun h => ?_, fun _ => ?_⟩
    · obtain rfl := List.mem_singleton.mp hc
      exact ⟨rfl, hwaits, fun herr => absurd herr (by decide)⟩
    · rw [timesCalled_append (s := s) rfl, hwaiting.count]; rfl
    · cases h
    · simp [hframes]
  | called hphase hused hwaits hspent hdone hcount =>
    have hquiet : s.timer.destroy = [] := by simp only [Timer.destroy, hdone]
    rw [destroy_quiet hquiet]
    refine ⟨hs.logged.of_eq rfl rfl rfl rfl, .destroyed rfl fun _ => hcount, fun h => ?_,
      fun _ => ?_⟩
    · cases h
    · simp [hframes]
  | destroying hphase | destroyed hphase => exact absurd (hphase.symm.trans hlive) (by decide)

theorem Good.resume {f : TimerFrame} {frames : List TimerFrame} (hs : s.Good)
    (hframes : s.frames = f :: frames) :
    (({ s with frames := frames }).resume f).Good := by
  have hpopped : Good { s with frames := frames } :=
    ⟨hs.logged.of_eq rfl rfl rfl rfl, hs.stage.of_eq rfl rfl rfl rfl rfl,
      fun h hmem => hs.live h (by rw [hframes]; exact List.mem_cons_of_mem f hmem),
      fun h hmem => hs.gone h (by rw [hframes]; exact List.mem_cons_of_mem f hmem)⟩
  have htop : f ∈ s.frames := by rw [hframes]; exact List.mem_cons_self
  cases f with
  | returns => exact hpopped
  | cancelEvent =>
    rcases eq_or_ne s.phase .live with hlive | hlive
    · exact hpopped.cancelEvent hlive
    · exact absurd htop (hs.gone hlive)
  | destroy =>
    refine ⟨hs.logged.of_eq rfl rfl rfl rfl, .destroyed rfl fun hwaits => ?_, fun h => ?_,
      fun _ => hpopped.gone fun hlive => hs.live hlive htop⟩
    · cases hs.stage with
      | unused hphase | waiting hphase | called hphase => exact absurd htop (hs.live hphase)
      | destroying _ _ _ _ _ hcount => exact hcount
      | destroyed _ hcount => exact hcount hwaits
    · cases h

theorem good_new : new.Good where
  logged := ⟨by simp [new], by simp [new], by simp [new]⟩
  stage := .unused rfl rfl rfl
  live _ := List.not_mem_nil
  gone h := absurd rfl h

/-- What a step keeps that does not call `Cancel` out of the destructor. -/
theorem Good.step {a : TimerAction} (hs : s.Good) (ha : NotFromDestructor s a)
    (hstep : s.step a = some t) : t.Good := by
  cases a with
  | asyncWait ms =>
    simp only [TimerRun.step] at hstep
    split at hstep
    next => cases hstep
    next hphase =>
      cases hstep
      cases hs.stage with
      | unused hlive htimer hwaits => exact hs.asyncWait_new ms hlive htimer hwaits
      | waiting _ hused hwaits | called _ hused hwaits | destroying _ hused hwaits =>
        exact hs.asyncWait_used ms hused hwaits
      | destroyed hgone => exact absurd hgone hphase
  | cancel =>
    simp only [TimerRun.step] at hstep
    split at hstep
    next => cases hstep
    next hphase =>
      cases hstep
      cases hp : s.phase with
      | live => exact hs.cancel hp
      | destroying => exact hs.cancel_destroying hp (ha rfl hp)
      | destroyed => exact absurd hp hphase
  | deliver now =>
    simp only [TimerRun.step] at hstep
    split at hstep
    next hguard =>
      obtain ⟨timer, hd, rfl⟩ := Option.map_eq_some_iff.mp hstep
      exact hs.deliver hguard.2.1 hguard.2.2 hd
    next => cases hstep
  | poll now =>
    simp only [TimerRun.step] at hstep
    split at hstep
    next => cases hstep; exact hs.poll now
    next => cases hstep
  | dispatch =>
    simp only [TimerRun.step] at hstep
    split at hstep
    next =>
      obtain ⟨now, -, rfl⟩ := Option.map_eq_some_iff.mp hstep
      exact hs.dispatch now
    next => cases hstep
  | resume =>
    simp only [TimerRun.step] at hstep
    split at hstep
    next => cases hstep
    next f frames hframes => cases hstep; exact hs.resume hframes
  | destroy =>
    simp only [TimerRun.step] at hstep
    split at hstep
    next hguard => cases hstep; exact hs.destroy hguard.2 hguard.1
    next => cases hstep

/-! ## A handler called twice -/

/-- The destructor has run or runs, and the handler has been called more than once. -/
structure Twice (s : TimerRun) : Prop where
  phase : s.phase ≠ .live
  count : 2 ≤ s.timesCalled 0

theorem timesCalled_called (s : TimerRun) (f : TimerFrame) (p : Option UInt64)
    (r : Timer × List TimerCall) (k : Nat) : s.timesCalled k ≤ (s.called f p r).timesCalled k := by
  rw [timesCalled_append (s := s) (t := s.called f p r) rfl]
  exact Nat.le_add_right _ _

theorem Twice.step {a : TimerAction} (hs : s.Twice) (hstep : s.step a = some t) : t.Twice := by
  obtain ⟨hphase, hcount⟩ := hs
  cases a with
  | asyncWait ms =>
    simp only [TimerRun.step] at hstep
    split at hstep
    next => cases hstep
    next =>
      cases hstep
      exact ⟨hphase, Nat.le_trans hcount (timesCalled_called s .returns none _ 0)⟩
  | cancel =>
    simp only [TimerRun.step] at hstep
    split at hstep
    next => cases hstep
    next hdestroyed =>
      cases hstep
      cases hp : s.phase with
      | live => exact absurd hp hphase
      | destroying =>
        rw [TimerRun.cancel_destroying hp]
        exact ⟨hphase, Nat.le_trans hcount
          (timesCalled_called { s with timer := s.timer.cancelAsyncerExpired } _ _ _ 0)⟩
      | destroyed => exact absurd hp hdestroyed
  | deliver now =>
    simp only [TimerRun.step] at hstep
    rw [if_neg fun hguard => hphase hguard.2.1] at hstep
    cases hstep
  | poll now =>
    simp only [TimerRun.step] at hstep
    rw [if_neg fun hguard => hphase hguard.2] at hstep
    cases hstep
  | dispatch =>
    simp only [TimerRun.step] at hstep
    split at hstep
    next =>
      obtain ⟨now, -, rfl⟩ := Option.map_eq_some_iff.mp hstep
      rw [dispatch, if_neg hphase]
      exact ⟨hphase, hcount⟩
    next => cases hstep
  | resume =>
    simp only [TimerRun.step] at hstep
    split at hstep
    next => cases hstep
    next f frames hframes =>
      cases hstep
      cases f with
      | returns => exact ⟨hphase, hcount⟩
      | cancelEvent =>
        exact ⟨hphase, Nat.le_trans hcount (timesCalled_called { s with frames := frames } _ _ _ 0)⟩
      | destroy => exact ⟨(by decide : TimerPhase.destroyed ≠ .live), hcount⟩
  | destroy =>
    simp only [TimerRun.step] at hstep
    rw [if_neg fun hguard => hphase hguard.2] at hstep
    cases hstep

/-- A step that calls `Cancel` out of the destructor when the event is there. -/
theorem Good.step_destructor {a : TimerAction} (hs : s.Good) (ha : ¬ NotFromDestructor s a)
    (hstep : s.step a = some t) : t.Twice := by
  simp only [NotFromDestructor, Classical.not_imp] at ha
  obtain ⟨rfl, hphase, hevent⟩ := ha
  have hlive : s.phase ≠ .destroyed := by rw [hphase]; decide
  simp only [TimerRun.step, if_neg hlive, Option.some.injEq] at hstep
  subst hstep
  refine ⟨?_, Nat.le_of_eq (hs.cancel_twice hphase hevent).symm⟩
  rw [TimerRun.cancel_destroying hphase]
  show s.phase ≠ .live
  rw [hphase]; decide

end TimerRun

/-! ## The law -/

open TimerRun

variable {s t : TimerRun}

theorem TimerRun.Good.law (hs : s.Good) : TimerLaw s where
  atMostOnce := by
    cases hs.stage with
    | unused _ _ hwaits => rw [hs.logged.count_unused hwaits]; exact Nat.zero_le 1
    | waiting _ _ _ hwaiting => rw [hwaiting.count]; exact Nat.zero_le 1
    | called _ _ _ _ _ hcount | destroying _ _ _ _ _ hcount => exact Nat.le_of_eq hcount
    | destroyed _ hcount =>
      rcases Nat.eq_zero_or_pos s.waits with hwaits | hwaits
      · rw [hs.logged.count_unused hwaits]; exact Nat.zero_le 1
      · exact Nat.le_of_eq (hcount hwaits)
  once hphase hwaits := by
    cases hs.stage with
    | unused hp | waiting hp | called hp | destroying hp =>
      exact absurd (hp.symm.trans hphase) (by decide)
    | destroyed _ hcount => exact hcount hwaits
  success := hs.logged.success
  later := hs.logged.later

/-- A run keeps the law exactly if its handlers do not call `Cancel` out of the destructor of a
timer whose asyncer has been delivered. -/
theorem timerLaw_iff {as : List TimerAction} (hrun : (system.run system.init as).isSome) :
    system.AllStates TimerLaw system.init as ↔
      system.AllSteps NotFromDestructor system.init as := by
  refine System.allStates_iff_of_split (P := Good) (Q := Twice) good_new
    (fun _ _ _ hs ha hstep => hs.step ha hstep)
    (fun _ _ _ hs ha hstep => hs.step_destructor ha hstep)
    (fun _ _ _ hs hstep => hs.step hstep) (fun _ hs => hs.law) (fun _ hs hlaw => ?_) hrun
  exact absurd hlaw.atMostOnce (Nat.not_le.mpr hs.count)

/-- The handler cancels the timer again, as it may, and a later `AsyncWait` fails. -/
def expireAndCancel : List TimerAction :=
  [.cancel, .asyncWait 10, .deliver 100, .poll 109, .poll 110, .dispatch, .cancel, .resume,
    .asyncWait 5, .resume, .destroy]

theorem timerLaw_iff_expireAndCancel : system.AllStates TimerLaw system.init expireAndCancel :=
  (timerLaw_iff (by decide +kernel)).mpr (by decide +kernel)

/-- The timer is destroyed before its event is due, and the handler cancels it. -/
def cancelInDestructor : List TimerAction :=
  [.asyncWait 10, .deliver 100, .destroy, .cancel]

theorem timerLaw_fails : ¬ system.AllStates TimerLaw system.init cancelInDestructor := by
  intro hlaw
  have hend : (system.run system.init cancelInDestructor).map (fun s => s.calls) =
      some [⟨0, "Timer Canceled", none⟩, ⟨0, "Timer Canceled", none⟩] := by decide +kernel
  obtain ⟨s, hrun, hcalls⟩ := Option.map_eq_some_iff.mp hend
  have honce := (hlaw.last hrun).atMostOnce
  rw [timesCalled, hcalls] at honce
  exact absurd honce (by decide)

end Sheep
