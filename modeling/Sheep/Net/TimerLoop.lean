import Sheep.Net.EventLoop
import Sheep.Net.TimerPoller
import Sheep.Net.TimerRun

/-!
# All timers of one loop

Any number of `Timer`s, the `TimerPoller` with their events, and the loop of `doPoller` over the
batch that `Poll` returned. Threads and handlers call `AsyncWait` and `Cancel`, and let timers go,
at any time, also while a handler runs. The `n`-th call of `AsyncWait` passes the handler `n`,
whichever timer it is of. The clock is read for each delivery of an asyncer and for each poll, and
may be set back in between.

`TimerLoopOrder`: the handler of a timer that is let go has been called. The loop calls the handlers
of one poll in the order of their deadlines, and none before its delay is over, unless the deadline
is beyond `2^63`, and when it is through with a batch no timer that was armed at the poll and due is
left. So it is in every run. `TimerLoopLaw`: besides, no handler is called twice.
`timerLoopLaw_iff`: a run keeps the law exactly if no handler calls `Cancel` of the timer whose
destructor calls it once the asyncer has been delivered: `~Timer` does not set `done_`.

The methods of a timer are those of `Timer`. It has one event at most, since it can be used once, so
that the deadlines and ids of the events are given beforehand, as `ev`.
-/

namespace Sheep

/-- A call of a handler; all but the first three fields are ghosts. -/
structure TimerLoopCall (T : Type) where
  timer : T
  handler : Handler
  errMsg : String
  /-- the number of polls so far, and the clock of the last one -/
  poll : Nat
  now : UInt64
  /-- the clock when the asyncer of the timer was delivered, and the delay -/
  delivered : Option UInt64
  ms : UInt64
  deriving DecidableEq, Repr

structure TimerLoop (T : Type) where
  timers : T → Timer
  life : T → TimerPhase
  poller : TimerPoller T
  /-- `readAble_` of the timer's event -/
  readAble : T → Bool
  phase : LoopPhase T
  /-- the number of polls so far, and the clock of the last one -/
  polls : Nat
  now : UInt64
  /-- the number of calls of `AsyncWait` -/
  asyncWaits : Nat
  /-- the clock when the timer's asyncer was delivered, and the number of polls before that -/
  delivered : T → Option UInt64
  armedAt : T → Nat
  /-- `LOG(FATAL)` has ended the process -/
  aborted : Bool
  calls : List (TimerLoopCall T)

inductive TimerLoopAction (T : Type)
  | asyncWait (t : T) (ms : UInt64)
  | cancel (t : T)
  /-- the loop dispatches the event of the timer's asyncer -/
  | deliver (t : T) (now : UInt64)
  /-- the last `shared_ptr` to the timer goes -/
  | destroy (t : T)
  /-- the handler returns to the destructor -/
  | destroyed (t : T)
  /-- `doPoller` calls `TimerPoller::Poll` -/
  | poll (now : UInt64)
  /-- `doPoller` goes on to the next event, or the callback returns -/
  | next
  deriving DecidableEq, Repr

/-- `cancel` when `weakThis` has expired. -/
def Timer.cancelExpired (t : Timer) : Timer × List TimerCall := t.cancelAsyncerExpired.cancelEvent

namespace TimerLoop

variable {T : Type}

def new : TimerLoop T :=
  ⟨fun _ => .new, fun _ => .live, .new, fun _ => false, .idle, 0, 0, 0, fun _ => none, fun _ => 0,
    false, []⟩

/-- The callback of the timer's event is running, and `realThis` holds the timer. -/
def Running (s : TimerLoop T) (t : T) : Prop :=
  match s.phase with
  | .callback event _ _ => event = t
  | _ => False

/-- What a method of the poller leaves; `none` is `LOG(FATAL)`. -/
def setPoller (s : TimerLoop T) : Option (TimerPoller T) → TimerLoop T
  | some poller => { s with poller := poller }
  | none => { s with aborted := true }

variable [DecidableEq T]

instance decidableRunning (s : TimerLoop T) (t : T) : Decidable (s.Running t) :=
  match h : s.phase with
  | .callback event _ _ => decidable_of_iff (event = t) (by rw [Running, h])
  | .idle => isFalse (by rw [Running, h]; exact id)
  | .batch _ => isFalse (by rw [Running, h]; exact id)

/-- A method has left the timer and called the handlers so. -/
def called (s : TimerLoop T) (t : T) (r : Timer × List TimerCall) : TimerLoop T :=
  { s with
    timers := Function.update s.timers t r.1
    calls := s.calls ++ r.2.map fun c => ⟨t, c.1, c.2, s.polls, s.now, s.delivered t, r.1.ms⟩ }

variable (ev : PolledEvents T)

/-- `Event::update` of the timer's event. -/
def update (s : TimerLoop T) (t : T) : TimerLoop T :=
  match (s.timers t).event with
  | none => s
  | some e =>
    if e.readNotify then s.setPoller (s.poller.updateEvent ev t)
    else s.setPoller (s.poller.removeEvent ev t)

/-- The first `AsyncWait` finds no event to cancel. -/
def asyncWait (s : TimerLoop T) (t : T) (ms : UInt64) : TimerLoop T :=
  { s.called t ((s.timers t).asyncWait ms s.asyncWaits) with asyncWaits := s.asyncWaits + 1 }

/-- What `cancel` does to the timer. `weakThis` has expired once the destructor runs. -/
def canceled (s : TimerLoop T) (t : T) : Timer × List TimerCall :=
  if s.life t = .live then (s.timers t).cancel else (s.timers t).cancelExpired

def cancel (s : TimerLoop T) (t : T) : TimerLoop T := (s.called t (s.canceled t)).update ev t

/-- The callback of the asyncer makes the event and enables it. -/
def deliver (s : TimerLoop T) (t : T) (now : UInt64) : Option (TimerLoop T) :=
  ((s.timers t).deliver now).map fun timer =>
    { s with
      timers := Function.update s.timers t timer
      delivered := Function.update s.delivered t (some now)
      armedAt := Function.update s.armedAt t s.polls }.update ev t

/-- The members of the timer are destroyed, its event among them. -/
def gone (s : TimerLoop T) (t : T) : TimerLoop T :=
  let s' := { s with
    life := Function.update s.life t .destroyed
    timers := Function.update s.timers t { s.timers t with asyncer := none, event := none } }
  match (s.timers t).event with
  | some ⟨_, true⟩ => s'.setPoller (s.poller.removeEvent ev t)
  | _ => s'

/-- `~Timer` begins. -/
def destroy (s : TimerLoop T) (t : T) : TimerLoop T :=
  match (s.timers t).destroy with
  | [] => s.gone ev t
  | calls =>
    { s.called t (s.timers t, calls) with life := Function.update s.life t .destroying }

def poll (s : TimerLoop T) (now : UInt64) : TimerLoop T :=
  let r := s.poller.poll now (fun t => (s.timers t).event.isSome) s.readAble
  { s with
    poller := r.1
    readAble := r.2.1
    phase := .batch r.2.2
    polls := s.polls + 1
    now := now }

/-- `Do` of the timer's event. Once the destructor runs, the callback finds that `weakThis` has
expired. An empty `handler_` would throw. -/
def dispatch (s : TimerLoop T) (t : T) (rest : List T) : Option (TimerLoop T) :=
  match (s.timers t).event with
  | some ⟨_, true⟩ =>
    if s.readAble t then
      if s.life t = .live then
        ((s.timers t).expire s.now).map fun r =>
          { (s.called t r).update ev t with phase := .callback t .read rest }
      else some { s with readAble := Function.update s.readAble t false, phase := .batch rest }
    else some { s with phase := .batch rest }
  | _ => some { s with phase := .batch rest }

def next (s : TimerLoop T) : Option (TimerLoop T) :=
  match s.phase with
  | .idle => none
  | .batch [] => some { s with phase := .idle }
  | .batch (t :: rest) => s.dispatch ev t rest
  | .callback t _ rest =>
    some { s with readAble := Function.update s.readAble t false, phase := .batch rest }

/-- The handler that `~Timer` calls may still use the timer. A delivery finds by then that
`weakThis` has expired. -/
def step (s : TimerLoop T) (a : TimerLoopAction T) : Option (TimerLoop T) :=
  if s.aborted then none
  else
    match a with
    | .asyncWait t ms => if s.life t ≠ .destroyed then some (s.asyncWait t ms) else none
    | .cancel t => if s.life t ≠ .destroyed then some (s.cancel ev t) else none
    | .deliver t now =>
      if s.phase = .idle ∧ s.life t = .live ∧ (now + (s.timers t).ms).toInt64 = ev.getFd t then
        s.deliver ev t now
      else none
    | .destroy t => if s.life t = .live ∧ ¬ s.Running t then some (s.destroy ev t) else none
    | .destroyed t => if s.life t = .destroying then some (s.gone ev t) else none
    | .poll now => if s.phase = .idle then some (s.poll now) else none
    | .next => s.next ev

def system : System (TimerLoop T) (TimerLoopAction T) := ⟨new, step ev⟩

omit [DecidableEq T] in
/-- The condition on a step: a handler does not call `Cancel` of the timer whose destructor calls
it, or the asyncer has not been delivered. -/
def CancelsOutside (s : TimerLoop T) : TimerLoopAction T → Prop
  | .cancel t => s.life t = .destroying → (s.timers t).event = none
  | _ => True

instance decidableCancelsOutside (s : TimerLoop T) : ∀ a, Decidable (s.CancelsOutside a)
  | .cancel t => inferInstanceAs (Decidable (s.life t = .destroying → (s.timers t).event = none))
  | .asyncWait .. | .deliver .. | .destroy _ | .destroyed _ | .poll _ | .next => isTrue True.intro

omit [DecidableEq T] in
/-- The calls that the loop has made for the events of the timers. -/
def expired (s : TimerLoop T) : List (TimerLoopCall T) := s.calls.filter (·.errMsg = "")

omit [DecidableEq T] in
/-- The poller has the timer's event. -/
def Notified (s : TimerLoop T) (t : T) : Prop := ∃ fd, (s.timers t).event = some ⟨fd, true⟩

end TimerLoop

open TimerLoop

/-- `a` is called before `b`. -/
def InTurn {T : Type} (ev : PolledEvents T) (a b : TimerLoopCall T) : Prop :=
  a.poll < b.poll ∨ a.poll = b.poll ∧ TimerPoller.Before ev a.timer b.timer

structure TimerLoopOrder {T : Type} [DecidableEq T] (ev : PolledEvents T) (s : TimerLoop T) :
    Prop where
  answered : ∀ t n, s.life t ≠ .live → (s.timers t).handler = some n → n ∈ s.calls.map (·.handler)
  inOrder : s.expired.Pairwise (InTurn ev)
  notEarly : ∀ c ∈ s.expired, ∃ d, c.delivered = some d ∧
    (d.toNat + c.ms.toNat < 2 ^ 63 → d.toNat + c.ms.toNat ≤ c.now.toNat)
  prompt : s.phase = .idle → ∀ t, s.life t = .live → s.Notified t → s.armedAt t < s.polls →
    s.now.toInt64 < ev.getFd t
  /-- the loop does not stop in a batch, and `LOG(FATAL)` is not reached -/
  goesOn : s.aborted = false ∧ (s.phase ≠ .idle → (s.step ev .next).isSome)

structure TimerLoopLaw {T : Type} [DecidableEq T] (ev : PolledEvents T) (s : TimerLoop T) : Prop
    extends TimerLoopOrder ev s where
  once : (s.calls.map (·.handler)).Nodup

/-! ## What the methods of a timer do -/

namespace Timer

variable {t t' : Timer} {h : Handler} {ms now : UInt64}

theorem cancel_kept (t : Timer) : t.cancel.1.used = t.used ∧ t.cancel.1.handler = t.handler ∧
    (t.cancel.1.event = none → t.event = none) := by
  obtain ⟨-, hused, hhandler, hevent⟩ := t.cancelAsyncer_kept
  obtain ⟨-, hused', hhandler'⟩ := t.cancelAsyncer.1.cancelEvent_kept
  refine ⟨hused'.trans hused, hhandler'.trans hhandler, fun hnone => ?_⟩
  rw [← hevent]
  by_contra hsome
  obtain ⟨e, he⟩ := Option.ne_none_iff_exists'.mp hsome
  simp only [cancel, cancelEvent, he] at hnone
  split at hnone <;> cases hnone

theorem cancel_done (hd : t.done = true) : t.cancel.2 = [] ∧ t.cancel.1.done = true := by
  obtain ⟨hcalls, hdone⟩ := cancelAsyncer_done hd
  obtain ⟨hcalls', hdone'⟩ := cancelEvent_done hdone
  exact ⟨by rw [cancel, hcalls, hcalls', List.append_nil], hdone'⟩

/-- `Cancel` of an armed timer calls its handler once, with an error. -/
theorem Armed.cancel_called (ht : t.Armed h) : ∃ errMsg, errMsg ≠ "" ∧
    t.cancel.2 = [(h, errMsg)] := by
  have hcalls : ∃ errMsg, t.cancel.2 = [(h, errMsg)] := by
    cases he : t.event with
    | none =>
      have hnone : t.cancelAsyncer.1.event = none := t.cancelAsyncer_kept.2.2.2.trans he
      rw [Timer.cancel, (ht.cancelAsyncer_waiting he).1, cancelEvent_none hnone]
      exact ⟨_, rfl⟩
    | some e =>
      rw [Timer.cancel, ht.cancelAsyncer_delivered he, (ht.cancelEvent he).1]
      exact ⟨_, rfl⟩
  obtain ⟨errMsg, hcalls⟩ := hcalls
  have herr := t.cancel_calls (h, errMsg) (by rw [hcalls]; exact List.mem_cons_self)
  exact ⟨errMsg, herr, hcalls⟩

/-- `cancel` in the destructor keeps the members that it does not write, and adds no event. -/
theorem cancelExpired_kept (t : Timer) : t.cancelExpired.1.used = t.used ∧
    t.cancelExpired.1.handler = t.handler ∧ (t.cancelExpired.1.event = none → t.event = none) := by
  obtain ⟨-, hused, hhandler, hevent, -⟩ := t.cancelAsyncerExpired_kept
  obtain ⟨-, hused', hhandler'⟩ := t.cancelAsyncerExpired.cancelEvent_kept
  refine ⟨hused'.trans hused, hhandler'.trans hhandler, fun hnone => ?_⟩
  rw [← hevent]
  by_contra hsome
  obtain ⟨e, he⟩ := Option.ne_none_iff_exists'.mp hsome
  simp only [cancelExpired, cancelEvent, he] at hnone
  split at hnone <;> cases hnone

theorem Spent.cancelExpired (ht : t.Spent) : t.cancelExpired.1.Spent := by
  refine Spent.cancelEvent ?_
  unfold cancelAsyncerExpired
  split
  next =>
    refine ⟨fun a ha => ?_, ht.event⟩
    cases ha
    rfl
  next => exact ht

/-- Without an event, and once `done_` is set, it calls no handler. -/
theorem cancelExpired_quiet (h : t.event = none ∨ t.done = true) : t.cancelExpired.2 = [] ∧
    (t.event = none → t.cancelExpired.1.event = none) ∧
    (t.done = true → t.cancelExpired.1.done = true) := by
  obtain ⟨-, -, -, hevent, hdone⟩ := t.cancelAsyncerExpired_kept
  have hnone (h : t.event = none) : t.cancelExpired = (t.cancelAsyncerExpired, []) :=
    cancelEvent_none (hevent.trans h)
  have hquiet (h : t.done = true) : t.cancelExpired.2 = [] ∧ t.cancelExpired.1.done = true :=
    cancelEvent_done (hdone.trans h)
  refine ⟨h.elim (fun h => by rw [hnone h]) fun h => (hquiet h).1, fun h => ?_,
    fun h => (hquiet h).2⟩
  rw [hnone h]
  exact hevent.trans h

/-- Before the delivery it only cancels the asyncer. -/
theorem Armed.cancelExpired_waiting (ht : t.Armed h) (he : t.event = none) :
    t.cancelExpired.1.Spent ∧ t.cancelExpired.1.event = none ∧ t.cancelExpired.2 = [] := by
  obtain ⟨hcalls, hnone, -⟩ := cancelExpired_quiet (.inl he)
  refine ⟨⟨fun a ha => ?_, fun e hsome => ?_⟩, hnone he, hcalls⟩
  · rcases ht.awaited with ⟨hasyncer, -⟩ | ⟨e, -, hevent, -⟩
    · simp only [cancelExpired, cancelAsyncerExpired, hasyncer, he] at ha
      cases ha
      rfl
    · exact absurd (hevent.symm.trans he) nofun
  · exact absurd ((hnone he).symm.trans hsome) nofun

/-- After the delivery it calls the handler. -/
theorem Armed.cancelExpired_delivered {e : TimerEvent} (ht : t.Armed h) (he : t.event = some e) :
    t.cancelExpired.1.Spent ∧ t.cancelExpired.1.done = true ∧
      t.cancelExpired.2 = [(h, "Timer Canceled")] := by
  have hsame : t.cancelAsyncerExpired = t := by
    rcases ht.awaited with ⟨-, hnone⟩ | ⟨e', hasyncer, -, -⟩
    · exact absurd (he.symm.trans hnone) nofun
    · obtain ⟨handler, asyncer, ms, event, done, used⟩ := t
      simp only at hasyncer
      simp only [cancelAsyncerExpired, hasyncer]
  obtain ⟨hcalls, hspent, hdone⟩ := ht.cancelEvent he
  rw [cancelExpired, hsame]
  exact ⟨hspent, hdone, hcalls⟩

theorem asyncWait_of_used (hused : t.used = true) :
    t.asyncWait ms h = (t, [(h, "Timer can't reuse")]) := by
  rw [asyncWait, if_pos hused]

/-- The delivery sets up the event. -/
theorem Armed.deliver_event (ht : t.Armed h) (hd : t.deliver now = some t') :
    t'.event = some ⟨(now + t.ms).toInt64, true⟩ ∧ t'.ms = t.ms ∧ t'.used = t.used := by
  rcases ht.awaited with ⟨hasyncer, -⟩ | ⟨e, hasyncer, -, -⟩
  · simp only [Timer.deliver, hasyncer, Option.some.injEq] at hd
    subst hd
    exact ⟨rfl, rfl, rfl⟩
  · simp [Timer.deliver, hasyncer] at hd

theorem Armed.destroy_called (ht : t.Armed h) : t.destroy = [(h, "Timer Canceled")] := by
  simp only [destroy, ht.notDone, ht.handler]

theorem destroy_done (hd : t.done = true) : t.destroy = [] := by
  simp only [destroy, hd]

theorem Spent.event_ne {fd : Int64} (ht : t.Spent) : t.event ≠ some ⟨fd, true⟩ := fun he =>
  absurd (ht.event _ he) nofun

end Timer

namespace TimerLoop

variable {T : Type} [DecidableEq T] {ev : PolledEvents T} {s u : TimerLoop T} {t b : T}
  {n : Handler} {outside : Prop}

/-! ## The invariant -/

/-- The numbers of the handlers that have been called. -/
def handlers (s : TimerLoop T) : List Handler := s.calls.map (·.handler)

/-- The timer waits for the loop, and its event is due its delay after the delivery. -/
structure Armed (ev : PolledEvents T) (s : TimerLoop T) (t : T) (n : Handler) : Prop where
  armed : (s.timers t).Armed n
  used : (s.timers t).used = true
  due : ∀ e, (s.timers t).event = some e → e.fd = ev.getFd t ∧ ∃ d, s.delivered t = some d ∧
    e.fd = (d + (s.timers t).ms).toInt64

/-- The stages of one timer, with its place in the log. `outside` says that the steps so far have
met the condition. -/
inductive Stage (outside : Prop) (ev : PolledEvents T) (s : TimerLoop T) (t : T) : Prop
  | unused (hlife : s.life t ≠ .destroying) (htimer : s.timers t = .new)
  | waiting (n : Handler) (hlife : s.life t = .live) (harmed : s.Armed ev t n)
      (hcalls : n ∉ s.handlers)
  | called (n : Handler) (hhandler : (s.timers t).handler = some n)
      (hused : (s.timers t).used = true) (hdone : s.life t = .live → (s.timers t).done = true)
      (hdestroying : s.life t = .destroying →
        (s.timers t).event = none ∨ ¬ outside ∧ (s.timers t).done = true)
      (hspent : (s.timers t).Spent) (hcalls : n ∈ s.handlers)
  | destroying (n : Handler) (hlife : s.life t = .destroying) (harmed : s.Armed ev t n)
      (hcalls : n ∈ s.handlers)

structure Numbered (outside : Prop) (s : TimerLoop T) : Prop where
  numbered : ∀ t n, (s.timers t).handler = some n → n < s.asyncWaits
  unique : ∀ t b n, (s.timers t).handler = some n → (s.timers b).handler = some n → t = b
  known : ∀ n ∈ s.handlers, n < s.asyncWaits
  once : outside → s.handlers.Nodup

/-- The events that `doPoller` has still to look at. -/
def rest (s : TimerLoop T) : List T :=
  match s.phase with
  | .idle => []
  | .batch weakEvents | .callback _ _ weakEvents => weakEvents

/-- The batch, and the calls that were made out of it. -/
structure Ordered (ev : PolledEvents T) (s : TimerLoop T) : Prop where
  sorted : s.rest.Pairwise (TimerPoller.Before ev)
  due : ∀ t ∈ s.rest, ev.getFd t ≤ s.now.toInt64
  able : ∀ t ∈ s.rest, s.Notified t → s.readAble t = true
  /-- who was armed at the poll and due is in the batch -/
  left : ∀ t, s.life t = .live → s.Notified t → s.armedAt t < s.polls →
    ev.getFd t ≤ s.now.toInt64 → t ∈ s.rest
  inOrder : s.expired.Pairwise (InTurn ev)
  ahead : ∀ c ∈ s.expired,
    c.poll < s.polls ∨ c.poll = s.polls ∧ ∀ t ∈ s.rest, TimerPoller.Before ev c.timer t
  notEarly : ∀ c ∈ s.expired, ∃ d, c.delivered = some d ∧
    (d.toNat + c.ms.toNat < 2 ^ 63 → d.toNat + c.ms.toNat ≤ c.now.toNat)
  running : ∀ t, s.Running t → t ∉ s.rest

/-- The poller holds the events whose notification is on. -/
def Synced (ev : PolledEvents T) (s : TimerLoop T) : Prop :=
  s.aborted = false ∧ ∃ S : Finset T, s.poller.Keeps ev S ∧ ∀ t, t ∈ S ↔ s.Notified t

structure Inv (outside : Prop) (ev : PolledEvents T) (s : TimerLoop T) : Prop where
  stage : ∀ t, s.Stage outside ev t
  numbers : s.Numbered outside
  ordered : s.Ordered ev
  synced : s.Synced ev

omit [DecidableEq T] in
/-- The event of a timer that is live and with the poller is that of an armed one. -/
theorem Inv.armed (h : s.Inv outside ev) (hlife : s.life t = .live) (hin : s.Notified t) :
    ∃ n, s.Armed ev t n ∧ n ∉ s.handlers := by
  obtain ⟨fd, he⟩ := hin
  cases h.stage t with
  | unused _ htimer => rw [htimer] at he; cases he
  | waiting n _ harmed hcalls => exact ⟨n, harmed, hcalls⟩
  | called n _ _ _ _ hspent => exact absurd he hspent.event_ne
  | destroying n hlife' => exact absurd (hlife.symm.trans hlife') (by decide)

/-! ## The poller -/

/-- `Event::update` brings the poller in line with the event, and does nothing else. -/
theorem Synced.update (h : s.Synced ev) (hpoller : u.poller = s.poller)
    (haborted : u.aborted = false) (hother : ∀ b, b ≠ t → (u.Notified b ↔ s.Notified b))
    (hnone : (u.timers t).event = none → ¬ s.Notified t) :
    ∃ q, u.update ev t = { u with poller := q } ∧ Synced ev { u with poller := q } := by
  obtain ⟨-, S, hkeeps, hmem⟩ := h
  rw [← hpoller] at hkeeps
  cases he : (u.timers t).event with
  | none =>
    refine ⟨u.poller, by simp only [TimerLoop.update, he], haborted, S, hkeeps, fun b => ?_⟩
    rcases eq_or_ne b t with rfl | hb
    · refine iff_of_false (mt (hmem b).mp (hnone he)) ?_
      rintro ⟨fd, hfd⟩
      exact absurd (he.symm.trans hfd) nofun
    · exact (hmem b).trans (hother b hb).symm
  | some e =>
    obtain ⟨fd, readNotify⟩ := e
    cases readNotify with
    | true =>
      obtain ⟨q, hq, hkeeps'⟩ := hkeeps.updateEvent t
      refine ⟨q, ?_, haborted, _, hkeeps', fun b => ?_⟩
      · simp only [TimerLoop.update, he, if_true, hq, setPoller]
      · rcases eq_or_ne b t with rfl | hb
        · exact iff_of_true (Finset.mem_insert_self b S) ⟨fd, he⟩
        · rw [Finset.mem_insert, or_iff_right hb]
          exact (hmem b).trans (hother b hb).symm
    | false =>
      obtain ⟨q, hq, hkeeps'⟩ := hkeeps.removeEvent t
      refine ⟨q, ?_, haborted, _, hkeeps', fun b => ?_⟩
      · simp only [TimerLoop.update, he, Bool.false_eq_true, if_false, hq, setPoller]
      · rcases eq_or_ne b t with rfl | hb
        · refine iff_of_false (Finset.notMem_erase b S) ?_
          rintro ⟨fd', hfd⟩
          exact absurd (he.symm.trans hfd) (by simp)
        · rw [Finset.mem_erase, and_iff_right hb]
          exact (hmem b).trans (hother b hb).symm

omit [DecidableEq T] in
theorem Synced.congr (h : s.Synced ev) (hpoller : u.poller = s.poller)
    (haborted : u.aborted = s.aborted) (hin : ∀ b, u.Notified b ↔ s.Notified b) :
    u.Synced ev := by
  obtain ⟨hrun, S, hkeeps, hmem⟩ := h
  exact ⟨haborted.trans hrun, S, hpoller ▸ hkeeps, fun b => (hmem b).trans (hin b).symm⟩

/-- The destructor of the event takes it out of the poller. -/
theorem Synced.gone (h : s.Synced ev) (t : T) : ∃ q, s.gone ev t =
    { s with
      poller := q
      life := Function.update s.life t .destroyed
      timers := Function.update s.timers t
        { s.timers t with asyncer := none, event := none } } ∧ (s.gone ev t).Synced ev := by
  have hother {u : TimerLoop T} (hu : u.timers = Function.update s.timers t
      { s.timers t with asyncer := none, event := none }) (b : T) (hb : b ≠ t) :
      u.Notified b ↔ s.Notified b := by
    rw [Notified, hu, Function.update_of_ne hb]
    rfl
  have hself {u : TimerLoop T} (hu : u.timers = Function.update s.timers t
      { s.timers t with asyncer := none, event := none }) : ¬ u.Notified t := by
    rintro ⟨fd, hfd⟩
    rw [hu, Function.update_self] at hfd
    cases hfd
  obtain ⟨hrun, S, hkeeps, hmem⟩ := h
  unfold TimerLoop.gone
  split
  next fd he =>
    obtain ⟨q, hq, hkeeps'⟩ := hkeeps.removeEvent t
    rw [hq]
    refine ⟨q, rfl, hrun, _, hkeeps', fun b => ?_⟩
    rcases eq_or_ne b t with rfl | hb
    · exact iff_of_false (Finset.notMem_erase b S) (hself rfl)
    · rw [Finset.mem_erase, and_iff_right hb]
      exact (hmem b).trans (hother rfl b hb).symm
  next hne =>
    refine ⟨s.poller, rfl, hrun, S, hkeeps, fun b => ?_⟩
    rcases eq_or_ne b t with rfl | hb
    · refine iff_of_false (fun hb => ?_) (hself rfl)
      obtain ⟨fd, hfd⟩ := (hmem b).mp hb
      exact hne fd hfd
    · exact (hmem b).trans (hother rfl b hb).symm

/-! ## What a step leaves of the invariant -/

/-- A step of the timer `t`, which calls one handler at most. -/
structure Change (outside : Prop) (s u : TimerLoop T) (t : T)
    (c : Option (TimerLoopCall T)) : Prop where
  timers : ∀ b, b ≠ t → u.timers b = s.timers b
  life : ∀ b, b ≠ t → u.life b = s.life b
  delivered : ∀ b, b ≠ t → u.delivered b = s.delivered b
  calls : u.calls = s.calls ++ c.toList
  asyncWaits : s.asyncWaits ≤ u.asyncWaits
  handler : (u.timers t).handler = (s.timers t).handler ∨
    (u.timers t).handler = some s.asyncWaits ∧ s.asyncWaits < u.asyncWaits ∧ c = none
  fresh : ∀ x ∈ c, (outside → x.handler ∉ s.handlers) ∧ x.handler < u.asyncWaits ∧
    ((s.timers t).handler = some x.handler ∨ s.asyncWaits ≤ x.handler)

omit [DecidableEq T] in
theorem Change.handlers {c : Option (TimerLoopCall T)} (h : Change outside s u t c) :
    u.handlers = s.handlers ++ (c.map (·.handler)).toList := by
  rw [TimerLoop.handlers, h.calls, List.map_append]
  cases c <;> rfl

omit [DecidableEq T] in
theorem Numbered.change {c : Option (TimerLoopCall T)} (hs : s.Numbered outside)
    (h : Change outside s u t c) : u.Numbered outside := by
  have hnew : ∀ b n, (u.timers b).handler = some n → (s.timers b).handler = some n ∨
      (b = t ∧ n = s.asyncWaits ∧ n < u.asyncWaits) := by
    intro b n hb
    rcases eq_or_ne b t with rfl | hbt
    · rcases h.handler with hsame | ⟨hnew, hlt, -⟩
      · exact .inl (hsame ▸ hb)
      · obtain rfl := Option.some.inj (hnew.symm.trans hb)
        exact .inr ⟨rfl, rfl, hlt⟩
    · exact .inl (h.timers b hbt ▸ hb)
  refine ⟨fun b n hb => ?_, fun a b n ha hb => ?_, fun n hn => ?_, ?_⟩
  · rcases hnew b n hb with hb | ⟨-, -, hlt⟩
    · exact Nat.lt_of_lt_of_le (hs.numbered b n hb) h.asyncWaits
    · exact hlt
  · rcases hnew a n ha with ha | ⟨rfl, hn, -⟩ <;> rcases hnew b n hb with hb | ⟨rfl, hn, -⟩
    · exact hs.unique a b n ha hb
    · exact absurd (hs.numbered a n ha) (hn ▸ Nat.lt_irrefl _)
    · exact absurd (hs.numbered b n hb) (hn ▸ Nat.lt_irrefl _)
    · rfl
  · rw [h.handlers, List.mem_append] at hn
    rcases hn with hn | hn
    · exact Nat.lt_of_lt_of_le (hs.known n hn) h.asyncWaits
    · obtain ⟨x, hx, rfl⟩ := Option.map_eq_some_iff.mp (Option.mem_toList.mp hn)
      exact (h.fresh x hx).2.1
  · rw [h.handlers]
    intro hout
    cases c with
    | none => simpa using hs.once hout
    | some x =>
      exact List.nodup_append_comm.mp
        (List.nodup_cons.mpr ⟨(h.fresh x rfl).1 hout, hs.once hout⟩)

omit [DecidableEq T] in
/-- The stage of a timer that a step does not touch. -/
theorem Stage.frame (h : s.Stage outside ev b) (htimer : u.timers b = s.timers b)
    (hlife : u.life b = s.life b) (hdelivered : u.delivered b = s.delivered b)
    (hin : ∀ n, (s.timers b).handler = some n → (n ∈ u.handlers ↔ n ∈ s.handlers)) :
    u.Stage outside ev b := by
  have harmed' {n : Handler} (harmed : s.Armed ev b n) : u.Armed ev b n := by
    refine ⟨htimer ▸ harmed.armed, htimer ▸ harmed.used, fun e he => ?_⟩
    rw [htimer, hdelivered]
    exact harmed.due e (htimer ▸ he)
  cases h with
  | unused hlife' htimer' => exact .unused (hlife ▸ hlife') (htimer.trans htimer')
  | waiting n hlife' harmed hcalls =>
    exact .waiting n (hlife.trans hlife') (harmed' harmed)
      (mt (hin n harmed.armed.handler).mp hcalls)
  | called n hhandler hused hdone hdestroying hspent hcalls =>
    exact .called n (htimer ▸ hhandler) (htimer ▸ hused) (fun hl => htimer ▸ hdone (hlife ▸ hl))
      (fun hl => htimer ▸ hdestroying (hlife ▸ hl)) (htimer ▸ hspent) ((hin n hhandler).mpr hcalls)
  | destroying n hlife' harmed hcalls =>
    exact .destroying n (hlife.trans hlife') (harmed' harmed)
      ((hin n harmed.armed.handler).mpr hcalls)

omit [DecidableEq T] in
/-- A handler that is called now is of no other timer. -/
theorem Inv.stage_change {c : Option (TimerLoopCall T)} (hs : s.Inv outside ev)
    (h : Change outside s u t c) (hb : b ≠ t) : u.Stage outside ev b := by
  refine (hs.stage b).frame (h.timers b hb) (h.life b hb) (h.delivered b hb) fun n hn => ?_
  rw [h.handlers, List.mem_append]
  refine or_iff_left fun hmem => ?_
  obtain ⟨x, hx, rfl⟩ := Option.map_eq_some_iff.mp (Option.mem_toList.mp hmem)
  rcases (h.fresh x hx).2.2 with hown | hlarge
  · exact hb (hs.numbers.unique b t _ hn hown)
  · exact absurd (hs.numbers.numbered b _ hn) (Nat.not_lt_of_le hlarge)

/-- A step beside the loop: it makes no call for an event, and arms no timer but after the batch. -/
structure Aside (s u : TimerLoop T) : Prop where
  phase : u.phase = s.phase
  readAble : u.readAble = s.readAble
  polls : u.polls = s.polls
  now : u.now = s.now
  expired : u.expired = s.expired
  notified : ∀ t ∈ s.rest, u.Notified t → s.Notified t
  armed : ∀ t, u.life t = .live → u.Notified t → u.armedAt t < s.polls →
    s.life t = .live ∧ s.Notified t ∧ s.armedAt t < s.polls

omit [DecidableEq T] in
theorem Ordered.aside (hs : s.Ordered ev) (h : Aside s u) : u.Ordered ev := by
  have hrest : u.rest = s.rest := by rw [TimerLoop.rest, h.phase]; rfl
  refine ⟨?_, ?_, ?_, ?_, h.expired ▸ hs.inOrder, ?_, h.expired ▸ hs.notEarly, ?_⟩
  · rw [hrest]; exact hs.sorted
  · rw [hrest, h.now]; exact hs.due
  · rw [hrest, h.readAble]
    exact fun t ht hin => hs.able t ht (h.notified t ht hin)
  · rw [hrest, h.now, h.polls]
    intro t hlife hin hlt hdue
    obtain ⟨hlife, hin, hlt⟩ := h.armed t hlife hin hlt
    exact hs.left t hlife hin hlt hdue
  · rw [h.expired, h.polls, hrest]; exact hs.ahead
  · intro t ht
    rw [Running, h.phase] at ht
    rw [hrest]
    exact hs.running t ht

omit [DecidableEq T] in
/-- What the log gets is a call with an error. -/
theorem expired_append {c : Option (TimerLoopCall T)} (hcalls : u.calls = s.calls ++ c.toList)
    (herr : ∀ x ∈ c, x.errMsg ≠ "") : u.expired = s.expired := by
  rw [expired, hcalls, List.filter_append]
  cases c with
  | none => exact List.append_nil _
  | some x => simp [expired, herr x rfl]

omit [DecidableEq T] in
/-- A method of the timer `t` that sets up no event. -/
theorem Aside.of_change {c : Option (TimerLoopCall T)} (h : Change outside s u t c)
    (herr : ∀ x ∈ c, x.errMsg ≠ "") (hphase : u.phase = s.phase)
    (hreadAble : u.readAble = s.readAble) (hpolls : u.polls = s.polls) (hnow : u.now = s.now)
    (harmedAt : u.armedAt = s.armedAt) (hin : u.Notified t → s.Notified t)
    (hlife : u.life t = .live → s.life t = .live) : Aside s u := by
  have hnotified (b : T) (hb : u.Notified b) : s.Notified b := by
    rcases eq_or_ne b t with rfl | hbt
    · exact hin hb
    · rwa [Notified, h.timers b hbt] at hb
  refine ⟨hphase, hreadAble, hpolls, hnow, expired_append h.calls herr, fun b _ => hnotified b,
    fun b hb hb' hlt => ⟨?_, hnotified b hb', harmedAt ▸ hlt⟩⟩
  rcases eq_or_ne b t with rfl | hbt
  · exact hlife hb
  · exact (h.life b hbt).symm.trans hb

/-! ## The methods -/

theorem change_called {r : Timer × List TimerCall} {c : Option TimerCall} (hr : r.2 = c.toList)
    (hhandler : r.1.handler = (s.timers t).handler)
    (hfresh : ∀ x ∈ c, (s.timers t).handler = some x.1 ∧ (outside → x.1 ∉ s.handlers) ∧
      x.1 < s.asyncWaits) :
    Change outside s (s.called t r) t
      (c.map fun c => ⟨t, c.1, c.2, s.polls, s.now, s.delivered t, r.1.ms⟩) where
  timers _ hb := Function.update_of_ne hb ..
  life _ _ := rfl
  delivered _ _ := rfl
  calls := by
    rw [called, hr]
    cases c <;> rfl
  asyncWaits := Nat.le_refl _
  handler := .inl ((congrArg Timer.handler (Function.update_self ..)).trans hhandler)
  fresh x hx := by
    obtain ⟨y, hy, rfl⟩ := Option.map_eq_some_iff.mp hx
    obtain ⟨hown, hnot, hlt⟩ := hfresh y hy
    exact ⟨hnot, hlt, .inl hown⟩

omit [DecidableEq T] in
theorem Change.setPoller {c : Option (TimerLoopCall T)} (h : Change outside s u t c)
    (q : TimerPoller T) : Change outside s { u with poller := q } t c :=
  ⟨h.timers, h.life, h.delivered, h.calls, h.asyncWaits, h.handler, h.fresh⟩

omit [DecidableEq T] in
/-- A step of one timer, once its stage and its place in the poller are known. -/
theorem Inv.change {c : Option (TimerLoopCall T)} (hs : s.Inv outside ev)
    (h : Change outside s u t c) (haside : Aside s u) (hsynced : u.Synced ev)
    (hstage : u.Stage outside ev t) : u.Inv outside ev := by
  refine ⟨fun b => ?_, hs.numbers.change h, hs.ordered.aside haside, hsynced⟩
  rcases eq_or_ne b t with rfl | hb
  · exact hstage
  · exact hs.stage_change h hb

theorem Inv.asyncWait (hs : s.Inv outside ev) (hlife : s.life t ≠ .destroyed) (ms : UInt64) :
    (s.asyncWait t ms).Inv outside ev := by
  have hnew : s.asyncWaits ∉ s.handlers := fun h => Nat.lt_irrefl _ (hs.numbers.known _ h)
  have refused (hused : (s.timers t).used = true) : (s.asyncWait t ms).Inv outside ev := by
    have htimers : (s.asyncWait t ms).timers = s.timers := by
      rw [TimerLoop.asyncWait, Timer.asyncWait_of_used hused]
      exact Function.update_eq_self t s.timers
    have hcalls : (s.asyncWait t ms).calls = s.calls ++ (some ⟨t, s.asyncWaits,
        "Timer can't reuse", s.polls, s.now, s.delivered t, (s.timers t).ms⟩ :
        Option (TimerLoopCall T)).toList := by
      rw [TimerLoop.asyncWait, Timer.asyncWait_of_used hused]
      rfl
    have hchange : Change outside s (s.asyncWait t ms) t _ :=
      ⟨fun b _ => congrFun htimers b, fun _ _ => rfl, fun _ _ => rfl, hcalls, Nat.le_succ _,
        .inl (by rw [htimers]), fun x hx => by
          cases hx
          exact ⟨fun _ => hnew, Nat.lt_succ_self _, .inr (Nat.le_refl _)⟩⟩
    have hin (b : T) : (s.asyncWait t ms).Notified b ↔ s.Notified b := by
      rw [Notified, htimers]
      rfl
    refine hs.change hchange (.of_change hchange ?_ rfl rfl rfl rfl rfl (hin t).mp id)
      (hs.synced.congr rfl rfl hin) ?_
    · rintro x ⟨⟩
      show "Timer can't reuse" ≠ ""
      decide
    · refine (hs.stage t).frame (congrFun htimers t) rfl rfl fun n hn => ?_
      rw [hchange.handlers, List.mem_append]
      refine or_iff_left fun hmem => ?_
      obtain rfl := List.mem_singleton.mp hmem
      exact absurd (hs.numbers.numbered t _ hn) (Nat.lt_irrefl _)
  cases hs.stage t with
  | waiting n _ harmed _ | destroying n _ harmed _ => exact refused harmed.used
  | called n _ hused => exact refused hused
  | unused hlife' htimer =>
    have hlive : s.life t = .live := by
      cases h : s.life t with
      | live => rfl
      | destroying => exact absurd h hlife'
      | destroyed => exact absurd h hlife
    obtain ⟨harmed, hcalls⟩ := Timer.asyncWait_armed ms s.asyncWaits
    have htimers : (s.asyncWait t ms).timers =
        Function.update s.timers t (Timer.new.asyncWait ms s.asyncWaits).1 := by
      rw [TimerLoop.asyncWait, htimer]
      rfl
    have hself : (s.asyncWait t ms).timers t = (Timer.new.asyncWait ms s.asyncWaits).1 := by
      rw [htimers, Function.update_self]
    have hlog : (s.asyncWait t ms).calls = s.calls := by
      rw [TimerLoop.asyncWait, htimer]
      exact List.append_nil _
    have hchange : Change outside s (s.asyncWait t ms) t none :=
      ⟨fun b hb => by rw [htimers, Function.update_of_ne hb], fun _ _ => rfl, fun _ _ => rfl,
        hlog.trans (List.append_nil _).symm, Nat.le_succ _,
        .inr ⟨by rw [hself]; exact harmed.handler, Nat.lt_succ_self _, rfl⟩, nofun⟩
    have hout : ¬ (s.asyncWait t ms).Notified t := by
      rintro ⟨fd, hfd⟩
      rw [hself] at hfd
      cases hfd
    have hin (b : T) : (s.asyncWait t ms).Notified b ↔ s.Notified b := by
      rcases eq_or_ne b t with rfl | hb
      · refine iff_of_false hout ?_
        rintro ⟨fd, hfd⟩
        rw [htimer] at hfd
        cases hfd
      · rw [Notified, htimers, Function.update_of_ne hb]
        rfl
    refine hs.change hchange (.of_change hchange nofun rfl rfl rfl rfl rfl (hin t).mp id)
      (hs.synced.congr rfl rfl hin) (.waiting s.asyncWaits hlive ?_ ?_)
    · refine ⟨hself ▸ harmed, by rw [hself]; rfl, fun e he => ?_⟩
      rw [hself] at he
      cases he
    · rwa [TimerLoop.handlers, hlog]

omit [DecidableEq T] in
theorem canceled_live (hlife : s.life t = .live) : s.canceled t = (s.timers t).cancel :=
  if_pos hlife

omit [DecidableEq T] in
theorem canceled_destroying (hlife : s.life t = .destroying) :
    s.canceled t = (s.timers t).cancelExpired :=
  if_neg (by rw [hlife]; decide)

omit [DecidableEq T] in
theorem canceled_kept (s : TimerLoop T) (t : T) : (s.canceled t).1.used = (s.timers t).used ∧
    (s.canceled t).1.handler = (s.timers t).handler ∧
    ((s.canceled t).1.event = none → (s.timers t).event = none) := by
  unfold canceled
  split
  · exact (s.timers t).cancel_kept
  · exact (s.timers t).cancelExpired_kept

/-- What `Cancel` calls, and where it leaves the timer. -/
structure Canceled (outside : Prop) (ev : PolledEvents T) (s : TimerLoop T) (t : T)
    (c : Option TimerCall) : Prop where
  calls : (s.canceled t).2 = c.toList
  own : ∀ x ∈ c, x.2 ≠ "" ∧ (s.timers t).handler = some x.1 ∧ (outside → x.1 ∉ s.handlers)
  off : ∀ fd, (s.canceled t).1.event ≠ some ⟨fd, true⟩
  stage : ∀ u : TimerLoop T, u.timers t = (s.canceled t).1 → u.life t = s.life t →
    u.handlers = s.handlers ++ (c.map (·.1)).toList → u.Stage outside ev t

omit [DecidableEq T] in
/-- `Cancel` takes a timer with a handler out of the loop. -/
theorem Canceled.of_spent {c : Option TimerCall} (hcalls : (s.canceled t).2 = c.toList)
    (hown : ∀ x ∈ c, x.2 ≠ "" ∧ x.1 = n ∧ (outside → n ∉ s.handlers))
    (hhandler : (s.timers t).handler = some n) (hused : (s.timers t).used = true)
    (hspent : (s.canceled t).1.Spent) (hdone : s.life t = .live → (s.canceled t).1.done = true)
    (hdestroying : s.life t = .destroying →
      (s.canceled t).1.event = none ∨ ¬ outside ∧ (s.canceled t).1.done = true)
    (hin : n ∈ s.handlers ∨ n ∈ (c.map (·.1)).toList) : Canceled outside ev s t c := by
  obtain ⟨hused', hhandler', -⟩ := s.canceled_kept t
  refine ⟨hcalls, fun x hx => ?_, fun fd => hspent.event_ne, fun u htimer hlife hlog => ?_⟩
  · obtain ⟨herr, rfl, hfresh⟩ := hown x hx
    exact ⟨herr, hhandler, hfresh⟩
  · rw [← htimer] at hused' hhandler' hspent hdone hdestroying
    refine .called n (hhandler'.trans hhandler) (hused'.trans hused)
      (fun h => hdone (hlife ▸ h)) (fun h => hdestroying (hlife ▸ h)) hspent ?_
    rw [hlog]
    exact List.mem_append.mpr hin

omit [DecidableEq T] in
theorem Inv.canceled_stage (hs : s.Inv outside ev) (hlife : s.life t ≠ .destroyed)
    (houtside : outside → s.CancelsOutside (.cancel t)) : ∃ c, Canceled outside ev s t c := by
  cases hs.stage t with
  | unused hlife' htimer =>
    have hquiet : s.canceled t = (.new, []) := by
      unfold TimerLoop.canceled
      rw [htimer]
      split <;> rfl
    refine ⟨none, by rw [hquiet]; rfl, nofun, by rw [hquiet]; exact nofun, fun u hu hlife'' _ => ?_⟩
    exact .unused (hlife'' ▸ hlife') (hu.trans (by rw [hquiet]))
  | waiting n hlive harmed hcalls =>
    obtain ⟨errMsg, herr, hcalled⟩ := harmed.armed.cancel_called
    obtain ⟨hspent, hdone⟩ := harmed.armed.cancel
    rw [← canceled_live hlive] at hcalled hspent hdone
    refine ⟨some (n, errMsg), .of_spent hcalled ?_ harmed.armed.handler harmed.used hspent
      (fun _ => hdone) (fun h => absurd (hlive.symm.trans h) (by decide))
      (.inr (List.mem_singleton.mpr rfl))⟩
    rintro x ⟨⟩
    exact ⟨herr, rfl, fun _ => hcalls⟩
  | called n hhandler hused hdone hdestroying hspent hcalls =>
    cases hphase : s.life t with
    | destroyed => exact absurd hphase hlife
    | live =>
      obtain ⟨hcalled, hdone'⟩ := Timer.cancel_done (hdone hphase)
      have hspent' := hspent.cancel
      rw [← canceled_live hphase] at hcalled hdone' hspent'
      exact ⟨none, .of_spent hcalled nofun hhandler hused hspent' (fun _ => hdone')
        (fun h => absurd (hphase.symm.trans h) (by decide)) (.inl hcalls)⟩
    | destroying =>
      have hquiet := hdestroying hphase
      obtain ⟨hcalled, hnone, hdone'⟩ := Timer.cancelExpired_quiet (hquiet.imp_right And.right)
      have hspent' := hspent.cancelExpired
      rw [← canceled_destroying hphase] at hcalled hnone hdone' hspent'
      exact ⟨none, .of_spent hcalled nofun hhandler hused hspent'
        (fun h => absurd (hphase.symm.trans h) (by decide))
        (fun _ => hquiet.imp hnone fun h => ⟨h.1, hdone' h.2⟩) (.inl hcalls)⟩
  | destroying n hphase harmed hcalls =>
    have hnotLive (h : s.life t = .live) : (s.canceled t).1.done = true :=
      absurd (hphase.symm.trans h) (by decide)
    cases he : (s.timers t).event with
    | none =>
      obtain ⟨hspent, hnone, hcalled⟩ := harmed.armed.cancelExpired_waiting he
      rw [← canceled_destroying hphase] at hspent hnone hcalled
      exact ⟨none, .of_spent hcalled nofun harmed.armed.handler harmed.used hspent hnotLive
        (fun _ => .inl hnone) (.inl hcalls)⟩
    | some e =>
      -- `done_` is not set, so that the handler is called again
      have hinside : ¬ outside := fun h => absurd (he.symm.trans (houtside h hphase)) nofun
      obtain ⟨hspent, hdone, hcalled⟩ := harmed.armed.cancelExpired_delivered he
      rw [← canceled_destroying hphase] at hspent hdone hcalled
      refine ⟨some (n, "Timer Canceled"), .of_spent hcalled ?_ harmed.armed.handler harmed.used
        hspent hnotLive (fun _ => .inr ⟨hinside, hdone⟩) (.inl hcalls)⟩
      rintro x ⟨⟩
      exact ⟨show "Timer Canceled" ≠ "" by decide, rfl, fun h => absurd h hinside⟩

theorem Inv.cancel (hs : s.Inv outside ev) (hlife : s.life t ≠ .destroyed)
    (houtside : outside → s.CancelsOutside (.cancel t)) : (s.cancel ev t).Inv outside ev := by
  obtain ⟨c, hc⟩ := hs.canceled_stage hlife houtside
  obtain ⟨-, hhandler, hnone⟩ := s.canceled_kept t
  have hself : (s.called t (s.canceled t)).timers t = (s.canceled t).1 := Function.update_self ..
  obtain ⟨q, hq, hsynced⟩ := hs.synced.update (u := s.called t (s.canceled t)) (t := t) rfl
    hs.synced.1 (fun b hb => by simp only [Notified, called, Function.update_of_ne hb])
    (fun he ⟨fd, hfd⟩ => absurd ((hnone (hself ▸ he)).symm.trans hfd) nofun)
  rw [TimerLoop.cancel, hq]
  have hchange := (change_called hc.calls hhandler fun x hx =>
    ⟨(hc.own x hx).2.1, (hc.own x hx).2.2, hs.numbers.numbered t _ (hc.own x hx).2.1⟩).setPoller q
  refine hs.change hchange (.of_change hchange ?_ rfl rfl rfl rfl rfl ?_ id) hsynced
    (hc.stage _ hself rfl ?_)
  · rintro x hx
    obtain ⟨y, hy, rfl⟩ := Option.map_eq_some_iff.mp hx
    exact (hc.own y hy).1
  · rintro ⟨fd, hfd⟩
    exact absurd (hself ▸ hfd) (hc.off fd)
  · rw [hchange.handlers]
    cases c <;> rfl

/-- The asyncer is delivered between two batches, and the event is armed for the next poll. -/
theorem Inv.deliver {now : UInt64} (hs : s.Inv outside ev) (hidle : s.phase = .idle)
    (hlife : s.life t = .live)
    (hfd : (now + (s.timers t).ms).toInt64 = ev.getFd t) (hu : s.deliver ev t now = some u) :
    u.Inv outside ev := by
  obtain ⟨timer, htimer, rfl⟩ := Option.map_eq_some_iff.mp hu
  obtain ⟨n, harmed, hcalls⟩ : ∃ n, s.Armed ev t n ∧ n ∉ s.handlers := by
    cases hs.stage t with
    | unused _ hnew => rw [hnew] at htimer; cases htimer
    | waiting n _ harmed hcalls => exact ⟨n, harmed, hcalls⟩
    | called n _ _ _ _ hspent => exact absurd (hspent.deliver_none.symm.trans htimer) nofun
    | destroying n hlife' => exact absurd (hlife.symm.trans hlife') (by decide)
  obtain ⟨hevent, hms, hused⟩ := harmed.armed.deliver_event htimer
  obtain ⟨q, hq, hsynced⟩ := hs.synced.update (t := t)
    (u := { s with
      timers := Function.update s.timers t timer
      delivered := Function.update s.delivered t (some now)
      armedAt := Function.update s.armedAt t s.polls }) rfl hs.synced.1
    (fun b hb => by simp only [Notified, Function.update_of_ne hb])
    (fun he => by simp only [Function.update_self, hevent] at he; cases he)
  rw [hq]
  have hself : Function.update s.timers t timer t = timer := Function.update_self ..
  have hrest : s.rest = [] := by rw [TimerLoop.rest, hidle]
  have hchange : Change outside s { s with
      poller := q
      timers := Function.update s.timers t timer
      delivered := Function.update s.delivered t (some now)
      armedAt := Function.update s.armedAt t s.polls } t none :=
    ⟨fun b hb => Function.update_of_ne hb .., fun _ _ => rfl,
      fun b hb => Function.update_of_ne hb .., (List.append_nil _).symm, Nat.le_refl _,
      .inl ((congrArg Timer.handler hself).trans
        ((harmed.armed.deliver htimer).handler.trans harmed.armed.handler.symm)), nofun⟩
  refine hs.change hchange ⟨rfl, rfl, rfl, rfl, rfl, ?_, fun b hb hin hlt => ?_⟩ hsynced
    (.waiting n hlife ⟨?_, ?_, fun e he => ?_⟩ hcalls)
  · rw [hrest]
    exact nofun
  · rcases eq_or_ne b t with rfl | hbt
    · have hlt' : Function.update s.armedAt b s.polls b < s.polls := hlt
      rw [Function.update_self] at hlt'
      exact absurd hlt' (Nat.lt_irrefl _)
    · have hlt' : Function.update s.armedAt t s.polls b < s.polls := hlt
      rw [Function.update_of_ne hbt] at hlt'
      rw [Notified, hchange.timers b hbt] at hin
      exact ⟨hb, hin, hlt'⟩
  · exact (congrArg (Timer.Armed · n) hself).mpr (harmed.armed.deliver htimer)
  · exact (congrArg Timer.used hself).trans (hused.trans harmed.used)
  · have he' : timer.event = some e := (congrArg Timer.event hself).symm.trans he
    obtain rfl := Option.some.inj (hevent.symm.trans he')
    have hms' : (Function.update s.timers t timer t).ms = (s.timers t).ms :=
      (congrArg Timer.ms hself).trans hms
    refine ⟨hfd, now, Function.update_self .., ?_⟩
    show (now + (s.timers t).ms).toInt64 = (now + (Function.update s.timers t timer t).ms).toInt64
    rw [hms']

/-- The members of a timer whose handler has been called, or that has none, are destroyed. -/
theorem Inv.gone (hs : s.Inv outside ev) (hcalled : ∀ n, s.Armed ev t n → n ∈ s.handlers) :
    (s.gone ev t).Inv outside ev := by
  obtain ⟨q, hq, hsynced⟩ := hs.synced.gone t
  have htimers : (s.gone ev t).timers =
      Function.update s.timers t { s.timers t with asyncer := none, event := none } := by rw [hq]
  have hself : (s.gone ev t).timers t = { s.timers t with asyncer := none, event := none } := by
    rw [htimers, Function.update_self]
  have hlife : (s.gone ev t).life = Function.update s.life t .destroyed := by rw [hq]
  have hlife' : (s.gone ev t).life t = .destroyed := by rw [hlife, Function.update_self]
  have hhandlers : (s.gone ev t).handlers = s.handlers := by rw [hq]; rfl
  have hout : ¬ (s.gone ev t).Notified t := by
    rintro ⟨fd, hfd⟩
    rw [hself] at hfd
    cases hfd
  have hchange : Change outside s (s.gone ev t) t none := by
    refine ⟨fun b hb => ?_, fun b hb => ?_, fun b _ => ?_, ?_, ?_, .inl ?_, nofun⟩
    · rw [htimers, Function.update_of_ne hb]
    · rw [hlife, Function.update_of_ne hb]
    · rw [hq]
    · rw [hq]
      exact (List.append_nil _).symm
    · rw [hq]
    · rw [hself]
  have hnow {n : Handler} (hhandler : (s.timers t).handler = some n)
      (hused : (s.timers t).used = true) (hin : n ∈ s.handlers) :
      (s.gone ev t).Stage outside ev t := by
    refine .called n (by rw [hself]; exact hhandler) (by rw [hself]; exact hused)
      (fun h => absurd (h.symm.trans hlife') (by decide)) (fun _ => .inl (by rw [hself])) ?_
      (hhandlers ▸ hin)
    rw [hself]
    exact ⟨nofun, nofun⟩
  refine hs.change hchange (.of_change hchange nofun (by rw [hq]) (by rw [hq]) (by rw [hq])
    (by rw [hq]) (by rw [hq]) (fun h => absurd h hout)
    (fun h => absurd (h.symm.trans hlife') (by decide))) hsynced ?_
  cases hs.stage t with
  | unused _ htimer => exact .unused (by rw [hlife']; decide) (by rw [hself, htimer]; rfl)
  | waiting n _ harmed _ | destroying n _ harmed _ =>
    exact hnow harmed.armed.handler harmed.used (hcalled n harmed)
  | called n hhandler hused _ _ _ hcalls => exact hnow hhandler hused hcalls

theorem Inv.destroy (hs : s.Inv outside ev) (hlife : s.life t = .live) :
    (s.destroy ev t).Inv outside ev := by
  unfold TimerLoop.destroy
  cases hs.stage t with
  | unused _ htimer =>
    rw [htimer]
    refine hs.gone fun n harmed => ?_
    have hused := harmed.used
    rw [htimer] at hused
    cases hused
  | called n hhandler _ hdone _ hspent hcalls =>
    rw [Timer.destroy_done (hdone hlife)]
    exact hs.gone fun m harmed => absurd harmed.armed hspent.not_armed
  | waiting n _ harmed hcalls =>
    rw [harmed.armed.destroy_called]
    have hsame : Function.update s.timers t (s.timers t) = s.timers := Function.update_eq_self t _
    have htimers : Function.update s.timers t (s.timers t) t = s.timers t := congrFun hsame t
    have hcalled : Change outside s (s.called t (s.timers t, [(n, "Timer Canceled")])) t _ :=
      change_called (c := some (n, "Timer Canceled")) rfl rfl (by
        rintro x ⟨⟩
        exact ⟨harmed.armed.handler, fun _ => hcalls,
          hs.numbers.numbered t n harmed.armed.handler⟩)
    have hchange : Change outside s { s.called t (s.timers t, [(n, "Timer Canceled")]) with
        life := Function.update s.life t .destroying } t _ :=
      ⟨hcalled.timers, fun b hb => Function.update_of_ne hb .., hcalled.delivered, hcalled.calls,
        hcalled.asyncWaits, hcalled.handler, hcalled.fresh⟩
    have hin (b : T) : Notified { s.called t (s.timers t, [(n, "Timer Canceled")]) with
        life := Function.update s.life t .destroying } b ↔ s.Notified b := by
      simp only [Notified, called, hsame]
    refine hs.change hchange (.of_change hchange ?_ rfl rfl rfl rfl rfl (hin t).mp ?_)
      (hs.synced.congr rfl rfl hin) (.destroying n (Function.update_self ..) ?_ ?_)
    · rintro x ⟨⟩
      show "Timer Canceled" ≠ ""
      decide
    · intro h
      exact absurd ((Function.update_self ..).symm.trans h) (by decide)
    · refine ⟨?_, ?_, fun e he => ?_⟩
      · show (Function.update s.timers t (s.timers t) t).Armed n
        rw [htimers]
        exact harmed.armed
      · show (Function.update s.timers t (s.timers t) t).used = true
        rw [htimers]
        exact harmed.used
      · show e.fd = ev.getFd t ∧ ∃ d, s.delivered t = some d ∧
          e.fd = (d + (Function.update s.timers t (s.timers t) t).ms).toInt64
        rw [htimers]
        exact harmed.due e ((congrArg Timer.event htimers).symm.trans he)
    · rw [hchange.handlers]
      exact List.mem_append_right _ (List.mem_singleton.mpr rfl)
  | destroying n hlife' => exact absurd (hlife.symm.trans hlife') (by decide)

/-! ## The loop -/

omit [DecidableEq T] in
/-- A step of `doPoller` that calls no handler. -/
theorem Inv.loop (hs : s.Inv outside ev) (htimers : u.timers = s.timers) (hlife : u.life = s.life)
    (hpoller : u.poller = s.poller) (hwaits : u.asyncWaits = s.asyncWaits)
    (hdelivered : u.delivered = s.delivered) (haborted : u.aborted = s.aborted)
    (hcalls : u.calls = s.calls) (hordered : u.Ordered ev) : u.Inv outside ev := by
  have hhandlers : u.handlers = s.handlers := by rw [handlers, hcalls]; rfl
  have hin (b : T) : u.Notified b ↔ s.Notified b := by rw [Notified, htimers]; rfl
  refine ⟨fun b => ?_, ⟨?_, ?_, ?_, hhandlers ▸ hs.numbers.once⟩, hordered,
    hs.synced.congr hpoller haborted hin⟩
  · exact (hs.stage b).frame (congrFun htimers b) (congrFun hlife b) (congrFun hdelivered b)
      fun n _ => by rw [hhandlers]
  · rw [htimers, hwaits]; exact hs.numbers.numbered
  · rw [htimers]; exact hs.numbers.unique
  · rw [hhandlers, hwaits]; exact hs.numbers.known

/-- The batch of a poll: the events that are armed and due, in their order. -/
theorem Inv.poll (hs : s.Inv outside ev) (now : UInt64) : (s.poll now).Inv outside ev := by
  obtain ⟨-, S, hkeeps, hmem⟩ := hs.synced
  have hpolls := hkeeps.polls now (fun t => (s.timers t).event.isSome) s.readAble
  have hbatch (t : T) : t ∈ (s.poll now).rest ↔
      s.Notified t ∧ (s.timers t).event.isSome = true ∧ ev.getFd t ≤ now.toInt64 := by
    rw [← hmem t, ← hkeeps.present_iff]
    exact hpolls.mem t
  refine hs.loop rfl rfl hpolls.stays rfl rfl rfl rfl ⟨hpolls.sorted, fun t ht => ?_,
    fun t ht _ => ?_, fun t _ hin _ hdue => ?_, hs.ordered.inOrder, fun c hc => .inl ?_,
    hs.ordered.notEarly, nofun⟩
  · exact ((hbatch t).mp ht).2.2
  · exact (hpolls.readAble t).mpr (.inr ht)
  · refine (hbatch t).mpr ⟨hin, ?_, hdue⟩
    obtain ⟨fd, hfd⟩ := hin
    exact Option.isSome_iff_exists.mpr ⟨_, hfd⟩
  · rcases hs.ordered.ahead c hc with hlt | ⟨heq, -⟩
    · exact Nat.lt_succ_of_lt hlt
    · exact Nat.lt_succ_of_le (Nat.le_of_eq heq)

omit [DecidableEq T] in
theorem not_before_self (t : T) : ¬ TimerPoller.Before ev t t := by
  rintro (hlt | ⟨-, hlt⟩)
  · exact lt_irrefl _ hlt
  · exact lt_irrefl _ hlt

variable {rest : List T}

omit [DecidableEq T] in
/-- The loop goes past an event that it has nothing to call for. -/
theorem Ordered.skip (hs : s.Ordered ev) (hphase : s.phase = .batch (t :: rest))
    (hout : s.life t = .live → ¬ s.Notified t) {readAble : T → Bool}
    (hable : ∀ b, b ≠ t → readAble b = s.readAble b) :
    Ordered ev { s with readAble := readAble, phase := .batch rest } := by
  have hrest : s.rest = t :: rest := by rw [TimerLoop.rest, hphase]
  have hsorted := hs.sorted
  rw [hrest] at hsorted
  obtain ⟨hbefore, hsorted⟩ := List.pairwise_cons.mp hsorted
  have htail {b : T} (hb : b ∈ rest) : b ∈ s.rest := hrest ▸ List.mem_cons_of_mem t hb
  have hahead (c : TimerLoopCall T) (hc : c ∈ s.expired) :
      c.poll < s.polls ∨ c.poll = s.polls ∧ ∀ b ∈ rest, TimerPoller.Before ev c.timer b :=
    (hs.ahead c hc).imp_right fun h => ⟨h.1, fun b hb => h.2 b (htail hb)⟩
  have hable' (b : T) (hb : b ∈ rest) (hin : s.Notified b) : readAble b = true := by
    have hbt : b ≠ t := by
      rintro rfl
      exact not_before_self b (hbefore b hb)
    exact (hable b hbt).trans (hs.able b (htail hb) hin)
  have hleft (b : T) (hlife : s.life b = .live) (hin : s.Notified b) (hlt : s.armedAt b < s.polls)
      (hdue : ev.getFd b ≤ s.now.toInt64) : b ∈ rest := by
    have hmem := hs.left b hlife hin hlt hdue
    rw [hrest] at hmem
    rcases List.mem_cons.mp hmem with rfl | hmem
    · exact absurd hin (hout hlife)
    · exact hmem
  exact {
    sorted := hsorted
    due := fun b hb => hs.due b (htail hb)
    able := hable'
    left := hleft
    inOrder := hs.inOrder
    ahead := hahead
    notEarly := hs.notEarly
    running := fun _ h => absurd h id }

omit [DecidableEq T] in
/-- The loop is through with the batch. -/
theorem Ordered.through (hs : s.Ordered ev) (hphase : s.phase = .batch []) :
    Ordered ev { s with phase := .idle } := by
  have hrest : s.rest = [] := by rw [TimerLoop.rest, hphase]
  have hleft := hs.left
  have hahead := hs.ahead
  rw [hrest] at hleft hahead
  exact {
    sorted := .nil
    due := fun _ h => absurd h List.not_mem_nil
    able := fun _ h => absurd h List.not_mem_nil
    left := hleft
    inOrder := hs.inOrder
    ahead := hahead
    notEarly := hs.notEarly
    running := fun _ h => absurd h id }

omit [DecidableEq T] in
/-- The callback has returned. -/
theorem Ordered.returned (hs : s.Ordered ev) {kind : Readiness}
    (hphase : s.phase = .callback t kind rest) {readAble : T → Bool}
    (hable : ∀ b, b ≠ t → readAble b = s.readAble b) :
    Ordered ev { s with readAble := readAble, phase := .batch rest } := by
  have hrest : s.rest = rest := by rw [TimerLoop.rest, hphase]
  have hnot : t ∉ rest := hrest ▸ hs.running t (by rw [Running, hphase])
  refine ⟨hrest ▸ hs.sorted, hrest ▸ hs.due, fun b hb hin => ?_, hrest ▸ hs.left, hs.inOrder,
    hrest ▸ hs.ahead, hs.notEarly, nofun⟩
  exact (hable b fun h => hnot (h ▸ hb)).trans (hs.able b (hrest ▸ hb) hin)

/-- The event is dispatched and calls the handler of its timer. -/
theorem Inv.expire {r : Timer × List TimerCall} (hs : s.Inv outside ev)
    (hphase : s.phase = .batch (t :: rest)) (hlife : s.life t = .live) (hin : s.Notified t)
    (hr : (s.timers t).expire s.now = some r) :
    Inv outside ev { (s.called t r).update ev t with phase := .callback t .read rest } := by
  obtain ⟨n, harmed, hcalls⟩ := hs.armed hlife hin
  have hr' : (s.timers t).expire s.now = some (r.1, r.2) := hr
  obtain ⟨hcalled, hspent⟩ := harmed.armed.expire hr'
  obtain ⟨e, he, hdue, htimer⟩ := Timer.expire_armed harmed.armed hr'
  have hself : (s.called t r).timers t = r.1 := Function.update_self ..
  have hrest : s.rest = t :: rest := by rw [TimerLoop.rest, hphase]
  have hsorted := hs.ordered.sorted
  rw [hrest] at hsorted
  obtain ⟨hbefore, hsorted⟩ := List.pairwise_cons.mp hsorted
  obtain ⟨q, hq, hsynced⟩ := hs.synced.update (u := s.called t r) (t := t) rfl hs.synced.1
    (fun b hb => by simp only [Notified, called, Function.update_of_ne hb])
    (fun hnone => by rw [hself, htimer] at hnone; cases hnone)
  rw [hq]
  have hhandler : r.1.handler = (s.timers t).handler := by rw [htimer]
  have hchange : Change outside s { s.called t r with poller := q } t _ :=
    (change_called (c := some (n, "")) hcalled hhandler (by
      rintro x ⟨⟩
      exact ⟨harmed.armed.handler, fun _ => hcalls,
        hs.numbers.numbered t n harmed.armed.handler⟩)).setPoller q
  have hchange' : Change outside s
      { s.called t r with poller := q, phase := .callback t .read rest } t _ :=
    ⟨hchange.timers, hchange.life, hchange.delivered, hchange.calls, hchange.asyncWaits,
      hchange.handler, hchange.fresh⟩
  have hlog : expired { s.called t r with poller := q, phase := .callback t .read rest } =
      s.expired ++ [⟨t, n, "", s.polls, s.now, s.delivered t, r.1.ms⟩] := by
    rw [expired, hchange'.calls, List.filter_append]
    rfl
  have hothers (b : T) (hb : Notified { s.called t r with
      poller := q, phase := .callback t .read rest } b) : b ≠ t ∧ s.Notified b := by
    have hbt : b ≠ t := by
      rintro rfl
      obtain ⟨fd, hfd⟩ := hb
      exact hspent.event_ne ((congrArg Timer.event hself).symm.trans hfd)
    refine ⟨hbt, ?_⟩
    rwa [Notified, hchange'.timers b hbt] at hb
  have hordered := hs.ordered
  refine ⟨fun b => ?_, hs.numbers.change hchange', ⟨hsorted, fun b hb => ?_, fun b hb hb' => ?_,
    fun b hb hb' hlt hle => ?_, ?_, fun c hc => ?_, fun c hc => ?_, fun b hb => ?_⟩,
    hsynced.congr rfl rfl fun _ => Iff.rfl⟩
  · rcases eq_or_ne b t with rfl | hb
    · refine .called n ?_ ?_ (fun _ => ?_) (fun h => absurd (hlife.symm.trans h) (by decide)) ?_ ?_
      · exact (congrArg Timer.handler hself).trans (hhandler.trans harmed.armed.handler)
      · refine (congrArg Timer.used hself).trans ?_
        rw [htimer]
        exact harmed.used
      · refine (congrArg Timer.done hself).trans ?_
        rw [htimer]
      · exact (congrArg Timer.Spent hself).mpr hspent
      · rw [hchange'.handlers]
        exact List.mem_append_right _ (List.mem_singleton.mpr rfl)
    · exact hs.stage_change hchange' hb
  · exact hordered.due b (hrest ▸ List.mem_cons_of_mem t hb)
  · exact hordered.able b (hrest ▸ List.mem_cons_of_mem t hb) (hothers b hb').2
  · have hmem := hordered.left b hb (hothers b hb').2 hlt hle
    rw [hrest] at hmem
    exact (List.mem_cons.mp hmem).resolve_left (hothers b hb').1
  · rw [hlog]
    refine List.pairwise_append.mpr ⟨hordered.inOrder, List.pairwise_singleton _ _,
      fun a ha c hc => ?_⟩
    obtain rfl := List.mem_singleton.mp hc
    rcases hordered.ahead a ha with hlt | ⟨heq, hall⟩
    · exact .inl hlt
    · exact .inr ⟨heq, hall t (hrest ▸ List.mem_cons_self)⟩
  · rw [hlog, List.mem_append] at hc
    rcases hc with hc | hc
    · exact (hordered.ahead c hc).imp_right fun h =>
        ⟨h.1, fun b hb => h.2 b (hrest ▸ List.mem_cons_of_mem t hb)⟩
    · obtain rfl := List.mem_singleton.mp hc
      exact .inr ⟨rfl, hbefore⟩
  · rw [hlog, List.mem_append] at hc
    rcases hc with hc | hc
    · exact hordered.notEarly c hc
    · obtain rfl := List.mem_singleton.mp hc
      obtain ⟨-, d, hd, hfd⟩ := harmed.due e he
      have hms : r.1.ms = (s.timers t).ms := by rw [htimer]
      rw [hms]
      exact ⟨d, hd, fun hsmall => Timer.due_le hsmall (hfd ▸ hdue)⟩
  · obtain rfl : t = b := hb
    exact fun hb => not_before_self t (hbefore t hb)

theorem Inv.dispatch (hs : s.Inv outside ev) (hphase : s.phase = .batch (t :: rest))
    (hu : s.dispatch ev t rest = some u) : u.Inv outside ev := by
  have hmem : t ∈ s.rest := by rw [TimerLoop.rest, hphase]; exact List.mem_cons_self
  unfold TimerLoop.dispatch at hu
  split at hu
  next fd he =>
    have hin : s.Notified t := ⟨fd, he⟩
    rw [if_pos (hs.ordered.able t hmem hin)] at hu
    split at hu
    next hlife =>
      obtain ⟨r, hr, rfl⟩ := Option.map_eq_some_iff.mp hu
      exact hs.expire hphase hlife hin hr
    next hlife =>
      cases hu
      exact hs.loop rfl rfl rfl rfl rfl rfl rfl (hs.ordered.skip hphase (fun h => absurd h hlife)
        fun b hb => Function.update_of_ne hb ..)
  next hne =>
    cases hu
    exact hs.loop rfl rfl rfl rfl rfl rfl rfl (hs.ordered.skip hphase
      (fun _ ⟨fd, hfd⟩ => hne fd hfd) fun _ _ => rfl)

theorem Inv.next (hs : s.Inv outside ev) (hu : s.next ev = some u) : u.Inv outside ev := by
  unfold TimerLoop.next at hu
  split at hu
  next => cases hu
  next hphase =>
    cases hu
    exact hs.loop rfl rfl rfl rfl rfl rfl rfl (hs.ordered.through hphase)
  next t rest hphase => exact hs.dispatch hphase hu
  next t kind rest hphase =>
    cases hu
    exact hs.loop rfl rfl rfl rfl rfl rfl rfl (hs.ordered.returned hphase fun b hb =>
      Function.update_of_ne hb ..)

/-- In a batch the loop has a next step: no handler is called that is empty. -/
theorem Inv.next_isSome (hs : s.Inv outside ev) (hphase : s.phase ≠ .idle) :
    (s.next ev).isSome := by
  unfold TimerLoop.next
  split
  next hidle => exact absurd hidle hphase
  next => rfl
  next t rest hphase =>
    have hmem : t ∈ s.rest := by rw [TimerLoop.rest, hphase]; exact List.mem_cons_self
    unfold TimerLoop.dispatch
    split
    next fd he =>
      split
      next =>
        split
        next hlife =>
          obtain ⟨n, harmed, -⟩ := hs.armed hlife ⟨fd, he⟩
          obtain ⟨hfd, -⟩ := harmed.due _ he
          have hsome : ((s.timers t).expire s.now).isSome :=
            harmed.armed.expire_isSome he (hfd ▸ hs.ordered.due t hmem)
          rwa [Option.isSome_map]
        next => rfl
      next => rfl
    next => rfl
  next => rfl

omit [DecidableEq T] in
theorem inv_new : (new : TimerLoop T).Inv outside ev where
  stage _ := .unused (show TimerPhase.live ≠ .destroying by decide) rfl
  numbers := {
    numbered := fun _ _ h => absurd h.symm (Option.some_ne_none _)
    unique := fun _ _ _ h => absurd h.symm (Option.some_ne_none _)
    known := fun _ h => absurd h List.not_mem_nil
    once := fun _ => .nil }
  ordered := {
    sorted := .nil
    due := fun _ h => absurd h List.not_mem_nil
    able := fun _ h => absurd h List.not_mem_nil
    left := fun _ _ ⟨_, hfd⟩ => absurd hfd.symm (Option.some_ne_none _)
    inOrder := .nil
    ahead := fun _ h => absurd h List.not_mem_nil
    notEarly := fun _ h => absurd h List.not_mem_nil
    running := fun _ h => absurd h id }
  synced := ⟨rfl, ∅, TimerPoller.keeps_new, fun t => iff_of_false (Finset.notMem_empty t)
    fun ⟨_, hfd⟩ => absurd hfd.symm (Option.some_ne_none _)⟩

theorem Inv.step {a : TimerLoopAction T} (hs : s.Inv outside ev)
    (houtside : outside → s.CancelsOutside a) (hu : s.step ev a = some u) : u.Inv outside ev := by
  unfold TimerLoop.step at hu
  rw [hs.synced.1, if_neg (by decide)] at hu
  cases a with
  | asyncWait t ms =>
    obtain ⟨hlife, hu⟩ := Option.ite_none_right_eq_some.mp hu
    cases hu
    exact hs.asyncWait hlife ms
  | cancel t =>
    obtain ⟨hlife, hu⟩ := Option.ite_none_right_eq_some.mp hu
    cases hu
    exact hs.cancel hlife houtside
  | deliver t now =>
    obtain ⟨⟨hidle, hlife, hfd⟩, hu⟩ := Option.ite_none_right_eq_some.mp hu
    exact hs.deliver hidle hlife hfd hu
  | destroy t =>
    obtain ⟨⟨hlife, -⟩, hu⟩ := Option.ite_none_right_eq_some.mp hu
    cases hu
    exact hs.destroy hlife
  | destroyed t =>
    obtain ⟨hlife, hu⟩ := Option.ite_none_right_eq_some.mp hu
    cases hu
    refine hs.gone fun n harmed => ?_
    cases hs.stage t with
    | unused hlife' => exact absurd hlife hlife'
    | called _ _ _ _ _ hspent => exact absurd harmed.armed hspent.not_armed
    | waiting _ hlife' => exact absurd (hlife.symm.trans hlife') (by decide)
    | destroying m _ harmed' hcalls =>
      have heq := harmed.armed.handler.symm.trans harmed'.armed.handler
      exact Option.some.inj heq ▸ hcalls
  | poll now =>
    obtain ⟨-, hu⟩ := Option.ite_none_right_eq_some.mp hu
    cases hu
    exact hs.poll now
  | next => exact hs.next hu

omit [DecidableEq T] in
/-- A timer is not let go before its handler has been called. -/
theorem Inv.answered (hs : s.Inv outside ev) (t : T) (n : Handler) (hlife : s.life t ≠ .live)
    (hn : (s.timers t).handler = some n) : n ∈ s.handlers := by
  cases hs.stage t with
  | unused _ htimer =>
    rw [htimer] at hn
    exact absurd hn.symm (Option.some_ne_none n)
  | waiting _ hlife' => exact absurd hlife' hlife
  | called m hhandler _ _ _ _ hcalls =>
    obtain rfl := Option.some.inj (hn.symm.trans hhandler)
    exact hcalls
  | destroying m _ harmed hcalls =>
    obtain rfl := Option.some.inj (hn.symm.trans harmed.armed.handler)
    exact hcalls

theorem Inv.order (hs : s.Inv outside ev) : TimerLoopOrder ev s where
  answered t n := hs.answered t n
  inOrder := hs.ordered.inOrder
  notEarly := hs.ordered.notEarly
  prompt hidle t hlife hin hlt := by
    by_contra hdue
    have hmem := hs.ordered.left t hlife hin hlt (not_lt.mp hdue)
    rw [TimerLoop.rest, hidle] at hmem
    exact List.not_mem_nil hmem
  goesOn := ⟨hs.synced.1, fun hphase => by
    unfold TimerLoop.step
    rw [hs.synced.1, if_neg (by decide)]
    exact hs.next_isSome hphase⟩

theorem Inv.law (hs : s.Inv True ev) : TimerLoopLaw ev s := ⟨hs.order, hs.numbers.once True.intro⟩

/-! ## What the log keeps -/

omit [DecidableEq T] in
theorem update_calls : (s.update ev t).calls = s.calls := by
  unfold update
  split
  · rfl
  · split
    · cases s.poller.updateEvent ev t <;> rfl
    · cases s.poller.removeEvent ev t <;> rfl

theorem gone_calls : (s.gone ev t).calls = s.calls := by
  unfold gone
  split
  · cases s.poller.removeEvent ev t <;> rfl
  · rfl

/-- What has been called stays in the log. -/
theorem step_calls {a : TimerLoopAction T} (hu : s.step ev a = some u) :
    ∃ calls, u.calls = s.calls ++ calls := by
  unfold TimerLoop.step at hu
  obtain ⟨-, hu⟩ := Option.ite_none_left_eq_some.mp hu
  cases a with
  | asyncWait t ms =>
    obtain ⟨-, hu⟩ := Option.ite_none_right_eq_some.mp hu
    cases hu
    exact ⟨_, rfl⟩
  | cancel t =>
    obtain ⟨-, hu⟩ := Option.ite_none_right_eq_some.mp hu
    cases hu
    exact ⟨_, update_calls⟩
  | deliver t now =>
    obtain ⟨-, hu⟩ := Option.ite_none_right_eq_some.mp hu
    obtain ⟨timer, -, rfl⟩ := Option.map_eq_some_iff.mp hu
    exact ⟨[], update_calls.trans (List.append_nil _).symm⟩
  | destroy t =>
    obtain ⟨-, hu⟩ := Option.ite_none_right_eq_some.mp hu
    cases hu
    unfold TimerLoop.destroy
    split
    · exact ⟨[], gone_calls.trans (List.append_nil _).symm⟩
    · exact ⟨_, rfl⟩
  | destroyed t =>
    obtain ⟨-, hu⟩ := Option.ite_none_right_eq_some.mp hu
    cases hu
    exact ⟨[], gone_calls.trans (List.append_nil _).symm⟩
  | poll now =>
    obtain ⟨-, hu⟩ := Option.ite_none_right_eq_some.mp hu
    cases hu
    exact ⟨[], (List.append_nil _).symm⟩
  | next =>
    simp only [TimerLoop.next] at hu
    split at hu
    next => cases hu
    next => cases hu; exact ⟨[], (List.append_nil _).symm⟩
    next t rest _ =>
      unfold TimerLoop.dispatch at hu
      split at hu
      next =>
        split at hu
        next =>
          split at hu
          next =>
            obtain ⟨r, -, rfl⟩ := Option.map_eq_some_iff.mp hu
            exact ⟨_, update_calls⟩
          next => cases hu; exact ⟨[], (List.append_nil _).symm⟩
        next => cases hu; exact ⟨[], (List.append_nil _).symm⟩
      next => cases hu; exact ⟨[], (List.append_nil _).symm⟩
    next => cases hu; exact ⟨[], (List.append_nil _).symm⟩

/-! ## The law -/

/-- A `Cancel` out of the destructor calls the handler of an event a second time. -/
theorem Inv.step_twice {a : TimerLoopAction T} (hs : s.Inv True ev)
    (houtside : ¬ s.CancelsOutside a) (hu : s.step ev a = some u) : ¬ u.handlers.Nodup := by
  cases a with
  | asyncWait | deliver | destroy | destroyed | poll | next => exact absurd True.intro houtside
  | cancel t =>
    obtain ⟨hlife, hevent⟩ := Classical.not_imp.mp houtside
    obtain ⟨e, he⟩ := Option.ne_none_iff_exists'.mp hevent
    unfold TimerLoop.step at hu
    obtain ⟨-, hu⟩ := Option.ite_none_left_eq_some.mp hu
    obtain ⟨-, hu⟩ := Option.ite_none_right_eq_some.mp hu
    cases hu
    cases hs.stage t with
    | unused hlife' => exact absurd hlife hlife'
    | waiting _ hlife' => exact absurd (hlife.symm.trans hlife') (by decide)
    | called n _ _ _ hdestroying =>
      rcases hdestroying hlife with hnone | ⟨hnot, -⟩
      · exact absurd hnone hevent
      · exact absurd True.intro hnot
    | destroying n _ harmed hcalls =>
      obtain ⟨-, -, hcalled⟩ := harmed.armed.cancelExpired_delivered he
      have hlog : (s.cancel ev t).handlers = s.handlers ++ [n] := by
        rw [TimerLoop.handlers, TimerLoop.cancel, update_calls, called, canceled_destroying hlife,
          hcalled, List.map_append]
        rfl
      rw [hlog, List.nodup_append]
      rintro ⟨-, -, hne⟩
      exact hne n hcalls n (List.mem_singleton.mpr rfl) rfl

/-- Whatever the threads, the handlers and the clock do: handlers are called once at most in the
runs in which none calls `Cancel` out of the destructor of its timer once the asyncer has been
delivered, and in no others, and the rest of the law holds in every run. -/
theorem timerLoopLaw_iff (ev : PolledEvents T) {as : List (TimerLoopAction T)}
    (hrun : ((system ev).run new as).isSome) :
    ((system ev).AllStates (TimerLoopLaw ev) new as ↔
        (system ev).AllSteps CancelsOutside new as) ∧
      (system ev).AllStates (TimerLoopOrder ev) new as := by
  constructor
  · refine System.allStates_iff_of_split (P := Inv True ev) (Q := fun s => ¬ s.handlers.Nodup)
      inv_new (fun _ _ _ hs hG hu => hs.step (fun _ => hG) hu)
      (fun _ _ _ hs hG hu => hs.step_twice hG hu) (fun s _ u htwice hu honce => htwice ?_)
      (fun _ hs => hs.law) (fun _ htwice hlaw => htwice hlaw.once) hrun
    obtain ⟨calls, hcalls⟩ := step_calls hu
    rw [handlers, hcalls, List.map_append] at honce
    exact honce.of_append_left
  · have hall : (system ev).AllStates (Inv False ev) new as :=
      (System.AllSteps.trivial (S := system ev)).allStates inv_new fun _ _ _ hs _ hu =>
        hs.step False.elim hu
    exact hall.imp fun _ => Inv.order

/-- The timers 0 and 1, whose events are due at 110 and 120. -/
def twoEvents : PolledEvents Bool :=
  ⟨fun t => if t then 120 else 110, fun t => if t then 1 else 0, by decide⟩

/-- A timer is let go before its asyncer is delivered, and its handler calls `AsyncWait`, which
refuses, and `Cancel`. The other one expires. -/
def oneExpires : List (TimerLoopAction Bool) :=
  [.asyncWait false 10, .asyncWait true 20, .destroy false, .asyncWait false 10, .cancel false,
    .destroyed false, .deliver true 100, .poll 110, .next, .poll 120, .next, .next, .next]

/-- A timer is let go when its asyncer has been delivered, and its handler calls `Cancel`. -/
def armedCanceled : List (TimerLoopAction Bool) :=
  [.asyncWait false 10, .deliver false 100, .destroy false, .cancel false, .destroyed false]

theorem timerLoopLaw_iff_canceled :
    (system twoEvents).AllStates (TimerLoopLaw twoEvents) new oneExpires ∧
    ¬ (system twoEvents).AllStates (TimerLoopLaw twoEvents) new armedCanceled :=
  ⟨(timerLoopLaw_iff twoEvents (by decide +kernel)).1.mpr (by decide +kernel), fun hlaw =>
    absurd ((timerLoopLaw_iff twoEvents (by decide +kernel)).1.mp hlaw) (by decide +kernel)⟩

end TimerLoop

end Sheep
