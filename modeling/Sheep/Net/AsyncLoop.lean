import Sheep.Lib.Response
import Sheep.Net.AsyncerPoller
import Sheep.Net.AsyncerRun
import Sheep.Net.EventLoop

/-!
# All asyncers of one loop

Any number of `Asyncer`s, the list of `AsyncerPoller`, and the loop of `doPoller` over the batch
that `Poll` returned. Threads and handlers call `AsyncDo` and `Cancel`, and let asyncers go, at any
time, also while a handler runs. The `n`-th call of `AsyncDo` passes the handler `n`, whichever
asyncer it is of.

`AsyncLoopLaw`: no handler is called twice, the loop runs the handlers in the order of the calls of
`AsyncDo`, and a handler that was accepted is called before its asyncer has been destroyed.
`asyncLoopLaw_iff`: a run keeps the law exactly if no handler calls `Cancel` of the asyncer whose
destructor calls it. Only the first part can fail: `~Asyncer` does not set `done_`, and `Cancel`
calls the handler again. `delivered_in_two_polls`: whatever else happens, a handler whose asyncer is
neither cancelled nor let go is run before the loop polls the asyncers for the second time.

The methods of an asyncer are those of `AsyncerObject`, and the poller's list changes by
`AsyncerPoller.order`, which the list with its map of iterators follows.
-/

namespace Sheep

structure AsyncLoop (A : Type) where
  asyncers : A → AsyncerObject
  life : A → AsyncerPhase
  /-- a `shared_ptr` to the asyncer exists outside of the callback of its event -/
  held : A → Bool
  /-- `AsyncerPoller::events_` -/
  events : List A
  phase : LoopPhase A
  /-- the number of calls of `AsyncDo` -/
  asyncDos : Nat
  calls : List AsyncerCall

inductive AsyncLoopAction (A : Type)
  | asyncDo (a : A)
  | cancel (a : A)
  /-- the `shared_ptr`s to the asyncer go -/
  | drop (a : A)
  /-- the handler returns to the destructor -/
  | destroyed (a : A)
  /-- `doPoller` calls `AsyncerPoller::Poll` -/
  | poll
  /-- `doPoller` goes on to the next event, or the callback returns -/
  | next
  deriving DecidableEq, Repr

namespace AsyncLoop

variable {A : Type} [DecidableEq A]

omit [DecidableEq A] in
/-- The constructors leave `done_` as it is. -/
def new (done : A → Bool) : AsyncLoop A :=
  ⟨fun a => .new (done a), fun _ => .live, fun _ => true, [], .idle, 0, []⟩

/-- A method has left the asyncer and called the handlers so. -/
def called (s : AsyncLoop A) (a : A) (r : AsyncerObject × List AsyncerCall) : AsyncLoop A :=
  { s with asyncers := Function.update s.asyncers a r.1, calls := s.calls ++ r.2 }

/-- `Event::update`. -/
def update (s : AsyncLoop A) (a : A) : AsyncLoop A :=
  match (s.asyncers a).event with
  | none => s
  | some e =>
    if e.readNotify then { s with events := AsyncerPoller.order s.events (.updateEvent a) }
    else { s with events := AsyncerPoller.order s.events (.removeEvent a) }

/-- An asyncer that is used already refuses. -/
def asyncDo (s : AsyncLoop A) (a : A) : AsyncLoop A :=
  let t := { s.called a ((s.asyncers a).asyncDo s.asyncDos) with asyncDos := s.asyncDos + 1 }
  if (s.asyncers a).used then t else t.update a

def cancel (s : AsyncLoop A) (a : A) : AsyncLoop A := (s.called a (s.asyncers a).cancel).update a

/-- The members of the asyncer are destroyed, its event among them. -/
def gone (s : AsyncLoop A) (a : A) : AsyncLoop A :=
  { s with
    life := Function.update s.life a .destroyed
    asyncers := Function.update s.asyncers a { s.asyncers a with event := none }
    events := AsyncerPoller.order s.events (.removeEvent a) }

/-- `~Asyncer` begins. -/
def destroy (s : AsyncLoop A) (a : A) : AsyncLoop A :=
  match (s.asyncers a).destroy with
  | [] => s.gone a
  | calls => { s with life := Function.update s.life a .destroying, calls := s.calls ++ calls }

/-- The callback of the event of `a` is running, and `realThis` holds the asyncer. -/
def Running (s : AsyncLoop A) (a : A) : Prop :=
  match s.phase with
  | .callback event _ _ => event = a
  | _ => False

instance decidableRunning (s : AsyncLoop A) (a : A) : Decidable (s.Running a) := by
  unfold Running
  split <;> infer_instance

def drop (s : AsyncLoop A) (a : A) : AsyncLoop A :=
  let t := { s with held := Function.update s.held a false }
  if s.Running a then t else t.destroy a

/-- A flag of the event of `a`. -/
def setReadAble (s : AsyncLoop A) (able : Bool) (a : A) : AsyncLoop A :=
  { s with
    asyncers := Function.update s.asyncers a
      { s.asyncers a with event := (s.asyncers a).event.map fun e => { e with readAble := able } } }

/-- `Poll`, while others hold the events. -/
def poll (s : AsyncLoop A) : AsyncLoop A :=
  { s.events.foldl (setReadAble · true) s with phase := .batch s.events }

/-- `Do` of the event of `a`. Once the destructor runs, the callback finds that `weakThis` has
expired. -/
def dispatch (s : AsyncLoop A) (a : A) (rest : List A) : AsyncLoop A :=
  match (s.asyncers a).event with
  | some ⟨true, true⟩ =>
    if s.life a = .live then
      { (s.called a (s.asyncers a).dispatch).update a with phase := .callback a .read rest }
    else { s.setReadAble false a with phase := .batch rest }
  | _ => { s with phase := .batch rest }

/-- The callback returns, and its `realThis` goes. -/
def returned (s : AsyncLoop A) (a : A) (rest : List A) : AsyncLoop A :=
  let t := { s.setReadAble false a with phase := .batch rest }
  if s.held a then t else t.destroy a

def next (s : AsyncLoop A) : Option (AsyncLoop A) :=
  match s.phase with
  | .idle => none
  | .batch [] => some { s with phase := .idle }
  | .batch (a :: rest) => some (s.dispatch a rest)
  | .callback a _ rest => some (s.returned a rest)

/-- The handler that `~Asyncer` calls may still use the asyncer. -/
def step (s : AsyncLoop A) : AsyncLoopAction A → Option (AsyncLoop A)
  | .asyncDo a => if s.life a ≠ .destroyed then some (s.asyncDo a) else none
  | .cancel a => if s.life a ≠ .destroyed then some (s.cancel a) else none
  | .drop a => if s.life a = .live ∧ s.held a = true then some (s.drop a) else none
  | .destroyed a => if s.life a = .destroying then some (s.gone a) else none
  | .poll => if s.phase = .idle then some s.poll else none
  | .next => s.next

def system (done : A → Bool) : System (AsyncLoop A) (AsyncLoopAction A) := ⟨new done, step⟩

/-- The condition on a step: a handler does not call `Cancel` of the asyncer whose destructor calls
it. -/
def CancelsOutside (s : AsyncLoop A) : AsyncLoopAction A → Prop
  | .cancel a => s.life a ≠ .destroying
  | _ => True

instance decidableCancelsOutside (s : AsyncLoop A) :
    ∀ action, Decidable (s.CancelsOutside action)
  | .cancel a => inferInstanceAs (Decidable (s.life a ≠ .destroying))
  | .asyncDo _ | .drop _ | .destroyed _ | .poll | .next => isTrue True.intro

/-- The handlers that the loop has run. -/
def delivered (s : AsyncLoop A) : List Handler := (s.calls.filter (·.2 = "")).map (·.1)

end AsyncLoop

/-- The handlers are called in their order, and before their asyncers are gone. -/
structure AsyncLoopOrder {A : Type} (s : AsyncLoop A) : Prop where
  fifo : s.delivered.Pairwise (· < ·)
  complete : ∀ a n, (s.asyncers a).handler = some n → s.life a = .destroyed → n ∈ s.calls.map (·.1)

structure AsyncLoopLaw {A : Type} (s : AsyncLoop A) : Prop extends AsyncLoopOrder s where
  once : (s.calls.map (·.1)).Nodup

namespace AsyncLoop

variable {A : Type} [DecidableEq A] {s t : AsyncLoop A} {a b : A} {n : Handler} {outside : Prop}

/-! ## What an asyncer is doing -/

/-- The stages of one asyncer, with its place in the poller's list and in the log. `outside` says
that `Cancel` was never called out of a destructor. -/
inductive Stage (outside : Prop) (s : AsyncLoop A) (a : A) : Prop
  | unused (hlife : s.life a ≠ .destroying) (hused : (s.asyncers a).used = false)
      (hhandler : (s.asyncers a).handler = none) (hevent : (s.asyncers a).event = none)
      (hevents : a ∉ s.events)
  | waiting (n : Handler) (able : Bool) (hlife : s.life a = .live)
      (hasyncer : s.asyncers a = ⟨some n, some ⟨true, able⟩, false, true⟩)
      (hevents : a ∈ s.events) (hcalls : n ∉ s.calls.map (·.1))
  | called (n : Handler) (hlife : outside → s.life a ≠ .destroying)
      (hhandler : (s.asyncers a).handler = some n) (hused : (s.asyncers a).used = true)
      (hdone : s.life a ≠ .destroyed → (s.asyncers a).done = true)
      (hevent : ∀ e ∈ (s.asyncers a).event, e.readNotify = false)
      (hevents : a ∉ s.events) (hcalls : n ∈ s.calls.map (·.1))
  | destroying (n : Handler) (able : Bool) (hlife : s.life a = .destroying)
      (hasyncer : s.asyncers a = ⟨some n, some ⟨true, able⟩, false, true⟩)
      (hevents : a ∈ s.events) (hcalls : n ∈ s.calls.map (·.1))

/-- The number that orders the events of used asyncers. -/
def number (s : AsyncLoop A) (a : A) : Nat := (s.asyncers a).handler.getD 0

/-- The asyncer has a handler that the loop may still run. -/
def Waits (s : AsyncLoop A) (a : A) : Prop := a ∈ s.events ∧ s.life a = .live

/-- The events that `doPoller` has still to look at. -/
def rest (s : AsyncLoop A) : List A :=
  match s.phase with
  | .idle => []
  | .batch weakEvents | .callback _ _ weakEvents => weakEvents

/-- The numbers of the handlers, and the order of what is waiting. -/
structure Ordered (outside : Prop) (s : AsyncLoop A) : Prop where
  numbered : ∀ a n, (s.asyncers a).handler = some n → n < s.asyncDos
  unique : ∀ a b n, (s.asyncers a).handler = some n → (s.asyncers b).handler = some n → a = b
  known : ∀ n ∈ s.calls.map (·.1), n < s.asyncDos
  once : outside → (s.calls.map (·.1)).Nodup
  sorted : s.events.Pairwise (s.number · < s.number ·)
  rest_sorted : s.rest.Pairwise (s.number · < s.number ·)
  rest_used : ∀ a ∈ s.rest, (s.asyncers a).used = true
  rest_able : ∀ a ∈ s.rest, s.Waits a → ∀ e ∈ (s.asyncers a).event, e.readAble = true
  /-- who is not in the batch has come later -/
  ahead : ∀ b, s.Waits b → b ∉ s.rest → ∀ a ∈ s.rest, s.number a < s.number b
  fifo : s.delivered.Pairwise (· < ·)
  fifo_ahead : ∀ n ∈ s.delivered, ∀ b, s.Waits b → n < s.number b
  /-- the handler that the loop runs is that of an asyncer that has no more to wait for -/
  running : ∀ a, s.Running a → s.life a = .live ∧ (s.asyncers a).used = true ∧ a ∉ s.events

structure Inv (outside : Prop) (s : AsyncLoop A) : Prop where
  stage : ∀ a, s.Stage outside a
  ordered : s.Ordered outside

/-! ## What a step leaves of the invariant -/

omit [DecidableEq A] in
/-- The stage of an asyncer that a step does not touch. -/
theorem Stage.frame (h : s.Stage outside b) (hasyncer : t.asyncers b = s.asyncers b)
    (hlife : t.life b = s.life b) (hevents : b ∈ t.events ↔ b ∈ s.events)
    (hcalls : ∀ n, (s.asyncers b).handler = some n →
      (n ∈ t.calls.map (·.1) ↔ n ∈ s.calls.map (·.1))) : t.Stage outside b := by
  cases h with
  | unused hlife' hused hhandler hevent hin =>
    exact .unused (hlife ▸ hlife') (hasyncer ▸ hused) (hasyncer ▸ hhandler) (hasyncer ▸ hevent)
      (mt hevents.mp hin)
  | waiting n able hlife' hasyncer' hin hnot =>
    exact .waiting n able (hlife.trans hlife') (hasyncer.trans hasyncer') (hevents.mpr hin)
      (mt (hcalls n (by rw [hasyncer'])).mp hnot)
  | called n hlife' hhandler hused hdone hevent hin hmem =>
    exact .called n (hlife ▸ hlife') (hasyncer ▸ hhandler) (hasyncer ▸ hused)
      (fun h => hasyncer ▸ hdone (hlife ▸ h)) (hasyncer ▸ hevent) (mt hevents.mp hin)
      ((hcalls n hhandler).mpr hmem)
  | destroying n able hlife' hasyncer' hin hmem =>
    exact .destroying n able (hlife.trans hlife') (hasyncer.trans hasyncer') (hevents.mpr hin)
      ((hcalls n (by rw [hasyncer'])).mpr hmem)

omit [DecidableEq A] in
theorem delivered_append {c : Option AsyncerCall} (hcalls : t.calls = s.calls ++ c.toList) :
    t.delivered = s.delivered ++ (c.toList.filter (·.2 = "")).map (·.1) := by
  rw [delivered, hcalls, List.filter_append, List.map_append]
  rfl

/-- A step that gives no asyncer a handler, puts no event into the list, and calls one handler at
most. -/
structure Quiet (outside : Prop) (s t : AsyncLoop A) (c : Option AsyncerCall) : Prop where
  handler : ∀ b, (t.asyncers b).handler = (s.asyncers b).handler
  used : ∀ b, (t.asyncers b).used = (s.asyncers b).used
  events : t.events.Sublist s.events
  life : ∀ b, t.life b = .live → s.life b = .live
  rest : t.rest.Sublist s.rest
  /-- who leaves the batch waits no more -/
  left : ∀ b ∈ s.rest, t.Waits b → b ∈ t.rest
  able : ∀ b ∈ t.rest, t.Waits b → ∀ e ∈ (t.asyncers b).event, e.readAble = true
  asyncDos : s.asyncDos ≤ t.asyncDos
  calls : t.calls = s.calls ++ c.toList
  fresh : ∀ call ∈ c, (outside → call.1 ∉ s.calls.map (·.1)) ∧ call.1 < t.asyncDos
  /-- a handler that the loop runs is the next one -/
  inTurn : ∀ call ∈ c, call.2 = "" →
    (∀ n ∈ s.delivered, n < call.1) ∧ ∀ b, t.Waits b → call.1 < s.number b
  running : ∀ b, t.Running b → t.life b = .live ∧ (s.Running b ∨
    ((s.asyncers b).used = true ∧ b ∉ t.events))

omit [DecidableEq A] in
theorem Quiet.waits {c : Option AsyncerCall} (hq : Quiet outside s t c) (hb : t.Waits b) :
    s.Waits b :=
  ⟨hq.events.subset hb.1, hq.life b hb.2⟩

omit [DecidableEq A] in
theorem Ordered.quiet {c : Option AsyncerCall} (hs : s.Ordered outside)
    (hq : Quiet outside s t c) : t.Ordered outside := by
  have hnumber : t.number = s.number := funext fun b => by rw [number, number, hq.handler]
  have hdelivered := delivered_append hq.calls
  refine ⟨fun b n hb => ?_, fun a b n ha hb => ?_, ?_, ?_, ?_, ?_, fun b hb => ?_, hq.able,
    fun b hb hnot a ha => ?_, ?_, fun n hn b hb => ?_, fun b hb => ?_⟩
  · exact Nat.lt_of_lt_of_le (hs.numbered b n (hq.handler b ▸ hb)) hq.asyncDos
  · exact hs.unique a b n (hq.handler a ▸ ha) (hq.handler b ▸ hb)
  · intro n hn
    rw [hq.calls, List.map_append, List.mem_append] at hn
    rcases hn with hn | hn
    · exact Nat.lt_of_lt_of_le (hs.known n hn) hq.asyncDos
    · obtain ⟨call, hcall, rfl⟩ := List.mem_map.mp hn
      exact (hq.fresh call (Option.mem_toList.mp hcall)).2
  · rw [hq.calls, List.map_append]
    intro hout
    cases c with
    | none => simpa using hs.once hout
    | some call => exact AsyncerPoller.nodup_push (hs.once hout) ((hq.fresh call rfl).1 hout)
  · rw [hnumber]
    exact hs.sorted.sublist hq.events
  · rw [hnumber]
    exact hs.rest_sorted.sublist hq.rest
  · rw [hq.used]
    exact hs.rest_used b (hq.rest.subset hb)
  · rw [hnumber]
    exact hs.ahead b (hq.waits hb) (fun hin => hnot (hq.left b hin hb)) a (hq.rest.subset ha)
  · rw [hdelivered]
    refine List.pairwise_append.mpr ⟨hs.fifo, ?_, fun m hm k hk => ?_⟩
    · cases c with
      | none => exact .nil
      | some call => cases h : decide (call.2 = "") <;> simp [h]
    · obtain ⟨call, hcall, rfl⟩ := List.mem_map.mp hk
      obtain ⟨hcall, hok⟩ := List.mem_filter.mp hcall
      exact (hq.inTurn call (Option.mem_toList.mp hcall) (of_decide_eq_true hok)).1 m hm
  · rw [hnumber]
    rw [hdelivered, List.mem_append] at hn
    rcases hn with hn | hn
    · exact hs.fifo_ahead n hn b (hq.waits hb)
    · obtain ⟨call, hcall, rfl⟩ := List.mem_map.mp hn
      obtain ⟨hcall, hok⟩ := List.mem_filter.mp hcall
      exact (hq.inTurn call (Option.mem_toList.mp hcall) (of_decide_eq_true hok)).2 b hb
  · obtain ⟨hlife, hold⟩ := hq.running b hb
    rw [hq.used]
    refine ⟨hlife, hold.elim (fun h => ?_) id⟩
    obtain ⟨-, hused, hnot⟩ := hs.running b h
    exact ⟨hused, fun hin => hnot (hq.events.subset hin)⟩

omit [DecidableEq A] in
/-- A handler that is called now is of no other asyncer. -/
theorem Inv.stage_of_quiet {c : Option AsyncerCall} (hs : s.Inv outside)
    (hq : Quiet outside s t c)
    (hother : ∀ b, b ≠ a → t.asyncers b = s.asyncers b ∧ t.life b = s.life b ∧
      (b ∈ t.events ↔ b ∈ s.events))
    (hown : ∀ call ∈ c, (s.asyncers a).handler = some call.1 ∨ s.asyncDos ≤ call.1)
    (hstage : t.Stage outside a) : t.Inv outside := by
  refine ⟨fun b => ?_, hs.ordered.quiet hq⟩
  rcases eq_or_ne b a with hba | hba
  · exact hba ▸ hstage
  · obtain ⟨hasyncer, hlife, hevents⟩ := hother b hba
    refine (hs.stage b).frame hasyncer hlife hevents fun n hn => ?_
    rw [hq.calls, List.map_append, List.mem_append]
    refine or_iff_left fun hmem => ?_
    obtain ⟨call, hcall, rfl⟩ := List.mem_map.mp hmem
    rcases hown call (Option.mem_toList.mp hcall) with hown | hlarge
    · exact hba (hs.ordered.unique b a call.1 hn hown)
    · exact absurd (hs.ordered.numbered b call.1 hn) (Nat.not_lt_of_le hlarge)

/-! ## `AsyncDo` -/

theorem asyncDo_used (hused : (s.asyncers a).used = true) : s.asyncDo a = { s with
    asyncDos := s.asyncDos + 1
    calls := s.calls ++ [(s.asyncDos, "Asyncer can't reuse")] } := by
  simp only [asyncDo, called, AsyncerObject.asyncDo, hused, if_true, Function.update_eq_self]

/-- What an `AsyncDo` that is accepted makes of the loop. -/
def accepted (s : AsyncLoop A) (a : A) : AsyncLoop A :=
  { s with
    asyncers := Function.update s.asyncers a ⟨some s.asyncDos, some ⟨true, false⟩, false, true⟩
    events := s.events.erase a ++ [a]
    asyncDos := s.asyncDos + 1 }

theorem asyncDo_unused (hused : (s.asyncers a).used = false)
    (hevent : (s.asyncers a).event = none) : s.asyncDo a = s.accepted a := by
  simp only [asyncDo, called, AsyncerObject.asyncDo, AsyncerObject.cancel, hused, hevent, update,
    Function.update_self, AsyncerPoller.order, List.append_nil, Bool.false_eq_true, if_false,
    if_true, accepted]

omit [DecidableEq A] in
/-- Who is in the poller's list has a handler. -/
theorem Stage.of_mem_events (h : s.Stage outside b) (hb : b ∈ s.events) :
    ∃ n able, s.asyncers b = ⟨some n, some ⟨true, able⟩, false, true⟩ := by
  cases h with
  | unused _ _ _ _ hnot | called _ _ _ _ _ _ hnot _ => exact absurd hb hnot
  | waiting n able _ hasyncer _ _ | destroying n able _ hasyncer _ _ => exact ⟨n, able, hasyncer⟩

omit [DecidableEq A] in
theorem Inv.number_lt (hs : s.Inv outside) (hb : b ∈ s.events) : s.number b < s.asyncDos := by
  obtain ⟨n, able, hasyncer⟩ := (hs.stage b).of_mem_events hb
  have hhandler : (s.asyncers b).handler = some n := by rw [hasyncer]
  rw [number, hhandler]
  exact hs.ordered.numbered b n hhandler

theorem accepted_asyncer (hba : b ≠ a) : (s.accepted a).asyncers b = s.asyncers b :=
  Function.update_of_ne hba ..

theorem mem_accepted (hnot : a ∉ s.events) : b ∈ (s.accepted a).events ↔ b ∈ s.events ∨ b = a := by
  show b ∈ s.events.erase a ++ [a] ↔ _
  rw [List.erase_of_not_mem hnot, List.mem_append, List.mem_singleton]

theorem number_accepted_of_ne (hba : b ≠ a) : (s.accepted a).number b = s.number b := by
  rw [number, accepted_asyncer hba, number]

theorem number_accepted : (s.accepted a).number a = s.asyncDos := by
  show (Function.update s.asyncers a _ a).handler.getD 0 = s.asyncDos
  rw [Function.update_self]
  rfl

theorem Inv.accepted (hs : s.Inv outside) (hlife : s.life a = .live)
    (hused : (s.asyncers a).used = false) (hnot : a ∉ s.events) : (s.accepted a).Inv outside := by
  have hself : (s.accepted a).asyncers a = ⟨some s.asyncDos, some ⟨true, false⟩, false, true⟩ :=
    Function.update_self ..
  have hne : ∀ {b : A}, b ∈ s.events → b ≠ a := fun hb h => hnot (h ▸ hb)
  have hrest : ∀ {b : A}, b ∈ s.rest → b ≠ a := by
    rintro b hb rfl
    exact absurd (hused.symm.trans (hs.ordered.rest_used b hb)) (by decide)
  have hhandler : ∀ b n, ((s.accepted a).asyncers b).handler = some n →
      (b = a ∧ n = s.asyncDos) ∨ (b ≠ a ∧ (s.asyncers b).handler = some n) := by
    intro b n hb
    rcases eq_or_ne b a with rfl | hba
    · rw [hself] at hb
      exact .inl ⟨rfl, (Option.some.inj hb).symm⟩
    · exact .inr ⟨hba, by rwa [accepted_asyncer hba] at hb⟩
  have hwaits : ∀ b, (s.accepted a).Waits b → b = a ∨ (b ≠ a ∧ s.Waits b) := by
    rintro b ⟨hb, hblife⟩
    rcases (mem_accepted hnot).mp hb with hb | rfl
    · exact .inr ⟨hne hb, hb, hblife⟩
    · exact .inl rfl
  refine ⟨fun b => ?_, fun b n hb => ?_, fun b c n hb hc => ?_, fun n hn => ?_, hs.ordered.once,
    ?_, ?_, fun b hb => ?_, fun b hb hwait e he => ?_, fun b hwait hout c hc => ?_,
    hs.ordered.fifo, fun n hn b hwait => ?_, fun b hb => ?_⟩
  · rcases eq_or_ne b a with rfl | hba
    · refine .waiting s.asyncDos false hlife hself ((mem_accepted hnot).mpr (.inr rfl)) fun h => ?_
      exact Nat.lt_irrefl _ (hs.ordered.known _ h)
    · refine (hs.stage b).frame (accepted_asyncer hba) rfl ?_ fun _ _ => Iff.rfl
      rw [mem_accepted hnot]
      exact or_iff_left hba
  · rcases hhandler b n hb with ⟨-, rfl⟩ | ⟨-, hb⟩
    · exact Nat.lt_succ_self _
    · exact Nat.lt_succ_of_lt (hs.ordered.numbered b n hb)
  · rcases hhandler b n hb with ⟨hba, rfl⟩ | ⟨-, hb'⟩
    · rcases hhandler c _ hc with ⟨hca, -⟩ | ⟨-, hc'⟩
      · exact hba.trans hca.symm
      · exact absurd (hs.ordered.numbered c _ hc') (Nat.lt_irrefl _)
    · rcases hhandler c _ hc with ⟨-, rfl⟩ | ⟨-, hc'⟩
      · exact absurd (hs.ordered.numbered b _ hb') (Nat.lt_irrefl _)
      · exact hs.ordered.unique b c n hb' hc'
  · exact Nat.lt_succ_of_lt (hs.ordered.known n hn)
  · show (s.events.erase a ++ [a]).Pairwise _
    rw [List.erase_of_not_mem hnot]
    refine List.pairwise_append.mpr ⟨?_, List.pairwise_singleton _ a, fun b hb c hc => ?_⟩
    · refine hs.ordered.sorted.imp_of_mem fun hb hc hlt => ?_
      rwa [number_accepted_of_ne (hne hb), number_accepted_of_ne (hne hc)]
    · rw [List.mem_singleton.mp hc, number_accepted, number_accepted_of_ne (hne hb)]
      exact hs.number_lt hb
  · refine hs.ordered.rest_sorted.imp_of_mem fun hb hc hlt => ?_
    rwa [number_accepted_of_ne (hrest hb), number_accepted_of_ne (hrest hc)]
  · rw [accepted_asyncer (hrest hb)]
    exact hs.ordered.rest_used b hb
  · rw [accepted_asyncer (hrest hb)] at he
    obtain rfl | ⟨-, hwait⟩ := hwaits b hwait
    · exact absurd rfl (hrest hb)
    · exact hs.ordered.rest_able b hb hwait e he
  · rw [number_accepted_of_ne (hrest hc)]
    obtain rfl | ⟨hba, hwait⟩ := hwaits b hwait
    · rw [number_accepted]
      cases hnum : (s.asyncers c).handler with
      | none =>
        cases hs.stage c with
        | unused _ hunused => exact absurd (hunused.symm.trans (hs.ordered.rest_used c hc)) nofun
        | waiting n able _ hasyncer => rw [hasyncer] at hnum; cases hnum
        | called n _ hhandler => exact absurd (hhandler.symm.trans hnum) nofun
        | destroying n able _ hasyncer => rw [hasyncer] at hnum; cases hnum
      | some n =>
        rw [number, hnum]
        exact hs.ordered.numbered c n hnum
    · rw [number_accepted_of_ne hba]
      exact hs.ordered.ahead b hwait hout c hc
  · obtain rfl | ⟨hba, hwait⟩ := hwaits b hwait
    · rw [number_accepted]
      obtain ⟨call, hcall, rfl⟩ := List.mem_map.mp hn
      exact hs.ordered.known _ (List.mem_map_of_mem (List.mem_filter.mp hcall).1)
    · rw [number_accepted_of_ne hba]
      exact hs.ordered.fifo_ahead n hn b hwait
  · obtain ⟨hlive, hused', hout⟩ := hs.ordered.running b hb
    have hba : b ≠ a := by
      rintro rfl
      exact absurd (hused.symm.trans hused') (by decide)
    rw [accepted_asyncer hba, mem_accepted hnot, not_or]
    exact ⟨hlive, hused', hout, hba⟩

theorem Inv.asyncDo (hs : s.Inv outside) (hlife : s.life a ≠ .destroyed) :
    (s.asyncDo a).Inv outside := by
  by_cases hused : (s.asyncers a).used = true
  · rw [asyncDo_used hused]
    refine ⟨fun b => ?_, hs.ordered.quiet (c := some (s.asyncDos, "Asyncer can't reuse"))
      ⟨fun _ => rfl, fun _ => rfl, List.Sublist.refl _, fun _ => id, List.Sublist.refl _,
        fun _ hb _ => hb, hs.ordered.rest_able, Nat.le_succ _, rfl, ?_, ?_,
        fun b hb => ⟨(hs.ordered.running b hb).1, .inl hb⟩⟩⟩
    · refine (hs.stage b).frame rfl rfl Iff.rfl fun n hn => ?_
      rw [List.map_append, List.mem_append]
      refine or_iff_left fun hmem => ?_
      rw [List.mem_singleton.mp hmem] at hn
      exact absurd (hs.ordered.numbered b _ hn) (Nat.lt_irrefl _)
    · rintro call ⟨⟩
      exact ⟨fun _ h => absurd (hs.ordered.known _ h) (Nat.lt_irrefl _), Nat.lt_succ_self _⟩
    · rintro call ⟨⟩ hok
      exact absurd (show "Asyncer can't reuse" = "" from hok) (by decide)
  · rw [Bool.not_eq_true] at hused
    cases hs.stage a with
    | unused hlife' _ _ hevent hnot =>
      have hlive : s.life a = .live := by
        cases h : s.life a with
        | live => rfl
        | destroying => exact absurd h hlife'
        | destroyed => exact absurd h hlife
      rw [asyncDo_unused hused hevent]
      exact hs.accepted hlive hused hnot
    | called n _ _ hused' => exact absurd (hused.symm.trans hused') (by decide)
    | waiting n able _ hasyncer | destroying n able _ hasyncer =>
      rw [hasyncer] at hused
      cases hused

/-! ## The handler is called -/

omit [DecidableEq A] in
theorem Ordered.events_nodup (hs : s.Ordered outside) : s.events.Nodup :=
  List.Pairwise.imp (S := (· ≠ ·)) (fun hlt heq => Nat.lt_irrefl _ (heq ▸ hlt)) hs.sorted

/-- The asyncer `a` calls its handler `n`, and its event is out of the list. -/
def completed (s : AsyncLoop A) (a : A) (n : Handler) (able : Bool) (errMsg : String)
    (phase : LoopPhase A) : AsyncLoop A :=
  { s with
    asyncers := Function.update s.asyncers a ⟨some n, some ⟨false, able⟩, true, true⟩
    events := s.events.erase a
    phase := phase
    calls := s.calls ++ [(n, errMsg)] }

theorem Inv.completed (hs : s.Inv outside) {able able' : Bool} {errMsg : String}
    {phase : LoopPhase A} (hasyncer : s.asyncers a = ⟨some n, some ⟨true, able⟩, false, true⟩)
    (hlife : outside → s.life a ≠ .destroying) (hcalls : outside → n ∉ s.calls.map (·.1))
    (hrest : (s.completed a n able' errMsg phase).rest.Sublist s.rest)
    (hleft : ∀ b ∈ s.rest, b ≠ a → b ∈ (s.completed a n able' errMsg phase).rest)
    (hturn : errMsg = "" →
      (∀ k ∈ s.delivered, k < n) ∧ ∀ b, b ≠ a → s.Waits b → n < s.number b)
    (hrunning : ∀ b, (s.completed a n able' errMsg phase).Running b →
      (b = a ∧ s.life a = .live) ∨ s.Running b) :
    (s.completed a n able' errMsg phase).Inv outside := by
  have hself : (s.completed a n able' errMsg phase).asyncers a =
      ⟨some n, some ⟨false, able'⟩, true, true⟩ := Function.update_self ..
  have hother : ∀ b, b ≠ a →
      (s.completed a n able' errMsg phase).asyncers b = s.asyncers b := fun b hb =>
    Function.update_of_ne hb ..
  have hout : a ∉ s.events.erase a := hs.ordered.events_nodup.not_mem_erase
  have hwaits : ∀ b, (s.completed a n able' errMsg phase).Waits b → b ≠ a ∧ s.Waits b := by
    rintro b ⟨hb, hblife⟩
    exact ⟨fun h => hout (h ▸ hb), List.mem_of_mem_erase hb, hblife⟩
  refine hs.stage_of_quiet (c := some (n, errMsg)) (a := a) ⟨fun b => ?_, fun b => ?_,
    List.erase_sublist, fun _ => id, hrest, fun b hb hwait => hleft b hb (hwaits b hwait).1,
    fun b hb hwait e he => ?_, Nat.le_refl _, rfl, ?_, ?_, fun b hb => ?_⟩ (fun b hb => ?_) ?_ ?_
  · rcases eq_or_ne b a with hba | hba
    · rw [hba, hself, hasyncer]
    · rw [hother b hba]
  · rcases eq_or_ne b a with hba | hba
    · rw [hba, hself, hasyncer]
    · rw [hother b hba]
  · obtain ⟨hba, hwait⟩ := hwaits b hwait
    rw [hother b hba] at he
    exact hs.ordered.rest_able b (hrest.subset hb) hwait e he
  · rintro call ⟨⟩
    exact ⟨hcalls, hs.ordered.numbered a n (by rw [hasyncer])⟩
  · rintro call ⟨⟩ hok
    exact ⟨(hturn hok).1, fun b hb => (hturn hok).2 b (hwaits b hb).1 (hwaits b hb).2⟩
  · rcases hrunning b hb with ⟨rfl, hlive⟩ | hb
    · exact ⟨hlive, .inr ⟨by rw [hasyncer], hout⟩⟩
    · exact ⟨(hs.ordered.running b hb).1, .inl hb⟩
  · exact ⟨hother b hb, rfl, List.mem_erase_of_ne hb⟩
  · rintro call ⟨⟩
    exact .inl (by rw [hasyncer])
  · refine .called n hlife (by rw [hself]) (by rw [hself]) (fun _ => by rw [hself]) ?_ hout ?_
    · rw [hself]
      rintro e ⟨⟩
      rfl
    · show n ∈ (s.calls ++ [(n, errMsg)]).map (·.1)
      rw [List.map_append, List.mem_append]
      exact .inr (List.mem_singleton.mpr rfl)

theorem cancel_waiting {able : Bool}
    (hasyncer : s.asyncers a = ⟨some n, some ⟨true, able⟩, false, true⟩) :
    s.cancel a = s.completed a n able "Asyncer Canceled" s.phase := by
  simp only [cancel, called, AsyncerObject.cancel, AsyncerObject.complete, hasyncer,
    AsyncerObject.callHandler, Option.toList, List.map_cons, List.map_nil, Bool.false_eq_true,
    if_false, update, Function.update_self, AsyncerPoller.order, AsyncLoop.completed]

/-- After the handler has been called, `Cancel` and the callback of the event do nothing. -/
theorem complete_done {x : AsyncerObject} {e : AsyncerEvent} {errMsg : String}
    (hdone : x.done = true) (he : x.event = some e) (hoff : e.readNotify = false) :
    x.complete e errMsg = (x, []) := by
  obtain ⟨handler, event, done, used⟩ := x
  obtain ⟨readNotify, readAble⟩ := e
  cases hoff
  cases he
  cases hdone
  rfl

theorem cancel_called (hdone : (s.asyncers a).done = true)
    (hevent : ∀ e ∈ (s.asyncers a).event, e.readNotify = false) (hnot : a ∉ s.events) :
    s.cancel a = s := by
  cases he : (s.asyncers a).event with
  | none =>
    simp only [cancel, called, AsyncerObject.cancel, he, Function.update_eq_self, List.append_nil,
      update]
  | some e =>
    have hoff : e.readNotify = false := hevent e he
    simp only [cancel, called, AsyncerObject.cancel, he, complete_done hdone he hoff,
      Function.update_eq_self, List.append_nil, update, hoff, Bool.false_eq_true, if_false,
      AsyncerPoller.order, List.erase_of_not_mem hnot]

theorem Inv.cancel (hs : s.Inv outside) (hlife : s.life a ≠ .destroyed)
    (houtside : outside → s.life a ≠ .destroying) : (s.cancel a).Inv outside := by
  cases hs.stage a with
  | unused _ _ _ hevent _ =>
    have heq : s.cancel a = s := by
      simp only [AsyncLoop.cancel, AsyncLoop.called, AsyncerObject.cancel, hevent,
        Function.update_eq_self, List.append_nil, AsyncLoop.update]
    rwa [heq]
  | waiting n able _ hasyncer _ hcalls =>
    rw [cancel_waiting hasyncer]
    exact hs.completed hasyncer houtside (fun _ => hcalls) (List.Sublist.refl _) (fun _ hb _ => hb)
      (fun h => absurd h (by decide)) fun _ hb => .inr hb
  | called n _ _ _ hdone hevent hnot _ => rwa [cancel_called (hdone hlife) hevent hnot]
  | destroying n able hlife' hasyncer =>
    -- `done_` is not set, so that the handler is called again
    rw [cancel_waiting hasyncer]
    exact hs.completed hasyncer houtside (fun h => absurd hlife' (houtside h))
      (List.Sublist.refl _) (fun _ hb _ => hb) (fun h => absurd h (by decide)) fun _ hb => .inr hb

/-! ## The destructor -/

theorem Inv.gone (hs : s.Inv outside) (hnot : ¬ s.Waits a) (hidle : ¬ s.Running a) :
    (s.gone a).Inv outside := by
  have hself : (s.gone a).asyncers a = { s.asyncers a with event := none } :=
    Function.update_self ..
  have hother : ∀ b, b ≠ a → (s.gone a).asyncers b = s.asyncers b := fun b hb =>
    Function.update_of_ne hb ..
  have hlife : (s.gone a).life a = .destroyed := Function.update_self ..
  have hlife' : ∀ b, b ≠ a → (s.gone a).life b = s.life b := fun b hb =>
    Function.update_of_ne hb ..
  have hout : a ∉ s.events.erase a := hs.ordered.events_nodup.not_mem_erase
  have hne : ∀ b, (s.gone a).life b = .live → b ≠ a := by
    rintro b hb rfl
    rw [hlife] at hb
    cases hb
  refine hs.stage_of_quiet (c := none) (a := a) ⟨fun b => ?_, fun b => ?_,
    List.erase_sublist, fun b hb => hlife' b (hne b hb) ▸ hb, List.Sublist.refl _,
    fun _ hb _ => hb, fun b hb hwait e he => ?_, Nat.le_refl _, (List.append_nil _).symm, nofun,
    nofun, fun b hb => ?_⟩
    (fun b hb => ⟨hother b hb, hlife' b hb, List.mem_erase_of_ne hb⟩) nofun ?_
  · rcases eq_or_ne b a with hba | hba
    · rw [hba, hself]
    · rw [hother b hba]
  · rcases eq_or_ne b a with hba | hba
    · rw [hba, hself]
    · rw [hother b hba]
  · have hba := hne b hwait.2
    rw [hother b hba] at he
    exact hs.ordered.rest_able b hb ⟨List.mem_of_mem_erase hwait.1, hlife' b hba ▸ hwait.2⟩ e he
  · have hba : b ≠ a := fun h => hidle (h ▸ hb)
    exact ⟨(hlife' b hba).trans (hs.ordered.running b hb).1, .inl hb⟩
  · have hnotd : (s.gone a).life a ≠ .destroying := by rw [hlife]; decide
    have hnone : ∀ e ∈ ((s.gone a).asyncers a).event, e.readNotify = false := by
      rw [hself]
      nofun
    cases hs.stage a with
    | unused _ hused hhandler _ _ =>
      exact .unused hnotd (by rw [hself]; exact hused) (by rw [hself]; exact hhandler)
        (by rw [hself]) hout
    | waiting n able hlive _ hin _ => exact absurd ⟨hin, hlive⟩ hnot
    | called n _ hhandler hused _ _ _ hmem =>
      exact .called n (fun _ => hnotd) (by rw [hself]; exact hhandler) (by rw [hself]; exact hused)
        (fun h => absurd hlife h) hnone hout hmem
    | destroying n able _ hasyncer _ hmem =>
      exact .called n (fun _ => hnotd) (by rw [hself, hasyncer]) (by rw [hself, hasyncer])
        (fun h => absurd hlife h) hnone hout hmem

theorem destroy_waiting {able : Bool}
    (hasyncer : s.asyncers a = ⟨some n, some ⟨true, able⟩, false, true⟩) :
    s.destroy a = { s with
      life := Function.update s.life a .destroying
      calls := s.calls ++ [(n, "Asyncer Canceled")] } := by
  simp only [destroy, AsyncerObject.destroy, hasyncer, AsyncerObject.callHandler, Option.toList,
    List.map_cons, List.map_nil, Bool.false_eq_true, if_false]

theorem destroy_silent (h : (s.asyncers a).destroy = []) : s.destroy a = s.gone a := by
  simp only [destroy, h]

theorem Inv.destroy (hs : s.Inv outside) (hlife : s.life a = .live) (hidle : ¬ s.Running a) :
    (s.destroy a).Inv outside := by
  cases hs.stage a with
  | unused _ _ hhandler _ hnot =>
    have hsilent : (s.asyncers a).destroy = [] := by
      simp only [AsyncerObject.destroy, AsyncerObject.callHandler, hhandler, Option.toList,
        List.map_nil, ite_self]
    rw [destroy_silent hsilent]
    exact hs.gone (fun h => hnot h.1) hidle
  | called n _ _ _ hdone _ hnot _ =>
    have hsilent : (s.asyncers a).destroy = [] := if_pos (hdone (by rw [hlife]; decide))
    rw [destroy_silent hsilent]
    exact hs.gone (fun h => hnot h.1) hidle
  | destroying n able hlife' => exact absurd (hlife.symm.trans hlife') (by decide)
  | waiting n able _ hasyncer hin hcalls =>
    rw [destroy_waiting hasyncer]
    have hne : ∀ b, Function.update s.life a .destroying b = .live → b ≠ a ∧ s.life b = .live := by
      intro b hb
      rcases eq_or_ne b a with rfl | hba
      · rw [Function.update_self] at hb
        cases hb
      · rw [Function.update_of_ne hba] at hb
        exact ⟨hba, hb⟩
    refine hs.stage_of_quiet (c := some (n, "Asyncer Canceled")) (a := a) ⟨fun _ => rfl,
      fun _ => rfl, List.Sublist.refl _, fun b hb => (hne b hb).2, List.Sublist.refl _,
      fun _ hb _ => hb, fun b hb hwait => hs.ordered.rest_able b hb ⟨hwait.1, (hne b hwait.2).2⟩,
      Nat.le_refl _, rfl, ?_, ?_, fun b hb => ?_⟩
      (fun b hb => ⟨rfl, Function.update_of_ne hb .., Iff.rfl⟩) ?_ ?_
    · rintro call ⟨⟩
      exact ⟨fun _ => hcalls, hs.ordered.numbered a n (by rw [hasyncer])⟩
    · rintro call ⟨⟩ hok
      exact absurd (show "Asyncer Canceled" = "" from hok) (by decide)
    · have hba : b ≠ a := fun h => hidle (h ▸ hb)
      have hlive := (hs.ordered.running b hb).1
      exact ⟨(Function.update_of_ne hba ..).trans hlive, .inl hb⟩
    · rintro call ⟨⟩
      exact .inl (by rw [hasyncer])
    · refine .destroying n able (Function.update_self ..) hasyncer hin ?_
      rw [List.map_append, List.mem_append]
      exact .inr (List.mem_singleton.mpr rfl)

theorem Inv.drop (hs : s.Inv outside) (hlife : s.life a = .live) : (s.drop a).Inv outside := by
  have hheld : Inv outside { s with held := Function.update s.held a false } :=
    ⟨fun b => (hs.stage b).frame rfl rfl Iff.rfl fun _ _ => Iff.rfl, { hs.ordered with }⟩
  unfold AsyncLoop.drop
  split
  next => exact hheld
  next hidle => exact hheld.destroy hlife hidle

/-! ## The loop -/

theorem setReadAble_self (able : Bool) : (s.setReadAble able a).asyncers a =
    { s.asyncers a with event := (s.asyncers a).event.map fun e => { e with readAble := able } } :=
  Function.update_self ..

theorem setReadAble_of_ne (able : Bool) (hba : b ≠ a) :
    (s.setReadAble able a).asyncers b = s.asyncers b :=
  Function.update_of_ne hba ..

/-- A flag alone does not change what the asyncer is doing. -/
theorem Stage.setReadAble (h : s.Stage outside b) (able : Bool) :
    (s.setReadAble able a).Stage outside b := by
  rcases eq_or_ne b a with rfl | hba
  · have hself : (s.setReadAble able b).asyncers b = { s.asyncers b with
        event := (s.asyncers b).event.map fun e => { e with readAble := able } } :=
      Function.update_self ..
    cases h with
    | unused hlife hused hhandler hevent hnot =>
      exact .unused hlife (by rw [hself]; exact hused) (by rw [hself]; exact hhandler)
        (by rw [hself, hevent]; rfl) hnot
    | waiting n able' hlife hasyncer hin hcalls =>
      exact .waiting n able hlife (by rw [hself, hasyncer]; rfl) hin hcalls
    | called n hlife hhandler hused hdone hevent hnot hmem =>
      refine .called n hlife (by rw [hself]; exact hhandler) (by rw [hself]; exact hused)
        (fun h => by rw [hself]; exact hdone h) ?_ hnot hmem
      rw [hself]
      intro e he
      obtain ⟨e', he', rfl⟩ := Option.map_eq_some_iff.mp he
      exact hevent e' he'
    | destroying n able' hlife hasyncer hin hmem =>
      exact .destroying n able hlife (by rw [hself, hasyncer]; rfl) hin hmem
  · exact h.frame (setReadAble_of_ne able hba) rfl Iff.rfl fun _ _ => Iff.rfl

theorem setReadAble_handler (able : Bool) :
    ((s.setReadAble able a).asyncers b).handler = (s.asyncers b).handler := by
  rcases eq_or_ne b a with rfl | hba
  · rw [setReadAble_self]
  · rw [setReadAble_of_ne able hba]

theorem setReadAble_used (able : Bool) :
    ((s.setReadAble able a).asyncers b).used = (s.asyncers b).used := by
  rcases eq_or_ne b a with rfl | hba
  · rw [setReadAble_self]
  · rw [setReadAble_of_ne able hba]

/-- What `Poll` does to the events in the list, for any list of them. -/
theorem setReadAble_all (l : List A) : ∃ asyncers, l.foldl (setReadAble · true) s =
      { s with asyncers := asyncers } ∧
    (∀ b, (asyncers b).handler = (s.asyncers b).handler ∧ (asyncers b).used = (s.asyncers b).used) ∧
    (∀ outside b, s.Stage outside b → Stage outside { s with asyncers := asyncers } b) ∧
    (∀ b, (∀ e ∈ (s.asyncers b).event, e.readAble = true) ∨ b ∈ l →
      ∀ e ∈ (asyncers b).event, e.readAble = true) := by
  induction l generalizing s with
  | nil => exact ⟨s.asyncers, rfl, fun _ => ⟨rfl, rfl⟩, fun _ _ => id, fun b hb =>
      hb.resolve_right List.not_mem_nil⟩
  | cons a l ih =>
    obtain ⟨asyncers, heq, hsame, hstage, hable⟩ := ih (s := s.setReadAble true a)
    refine ⟨asyncers, heq, fun b => ⟨?_, ?_⟩,
      fun outside b hb => hstage outside b (hb.setReadAble true),
      fun b hb => hable b ?_⟩
    · exact (hsame b).1.trans (setReadAble_handler true)
    · exact (hsame b).2.trans (setReadAble_used true)
    · rcases eq_or_ne b a with rfl | hba
      · refine .inl fun e he => ?_
        rw [setReadAble_self] at he
        obtain ⟨e', -, rfl⟩ := Option.map_eq_some_iff.mp he
        rfl
      · rw [setReadAble_of_ne true hba]
        exact hb.imp_right fun h => (List.mem_cons.mp h).resolve_left hba

theorem Inv.poll (hs : s.Inv outside) : s.poll.Inv outside := by
  obtain ⟨asyncers, heq, hsame, hstage, hable⟩ := setReadAble_all (s := s) s.events
  have hpoll : s.poll = { s with asyncers := asyncers, phase := .batch s.events } := by
    rw [AsyncLoop.poll, heq]
  rw [hpoll]
  have hnumber : number { s with asyncers := asyncers, phase := .batch s.events } = s.number :=
    funext fun b => by rw [number, number, (hsame b).1]
  refine ⟨fun b => (hstage outside b (hs.stage b)).frame rfl rfl Iff.rfl fun _ _ => Iff.rfl,
    fun b n hb => hs.ordered.numbered b n ((hsame b).1 ▸ hb),
    fun b c n hb hc => hs.ordered.unique b c n ((hsame b).1 ▸ hb) ((hsame c).1 ▸ hc),
    hs.ordered.known, hs.ordered.once, ?_, ?_, fun b hb => ?_,
    fun b hb _ => hable b (.inr hb), fun b hb hnot => absurd hb.1 hnot, hs.ordered.fifo, ?_, nofun⟩
  · rw [hnumber]
    exact hs.ordered.sorted
  · rw [hnumber]
    exact hs.ordered.sorted
  · obtain ⟨n, able, hasyncer⟩ := (hs.stage b).of_mem_events hb
    exact (hsame b).2.trans (by rw [hasyncer])
  · rw [hnumber]
    exact hs.ordered.fifo_ahead

omit [DecidableEq A] in
/-- The loop goes on after the event of `a`, which is done with, with at most a flag changed. -/
theorem Inv.goOn (hs : s.Inv outside) {t : AsyncLoop A}
    (hphase : s.rest = t.rest ∨ s.rest = a :: t.rest)
    (hidle : ∀ b, ¬ t.Running b) (hstage : ∀ b, t.Stage outside b)
    (hsame : t = { s with asyncers := t.asyncers, phase := t.phase })
    (hflag : ∀ b, (t.asyncers b).handler = (s.asyncers b).handler ∧
      (t.asyncers b).used = (s.asyncers b).used ∧ (b ≠ a → t.asyncers b = s.asyncers b))
    (hnot : ¬ t.Waits a) : t.Inv outside := by
  have hwaits : ∀ b, t.Waits b → b ≠ a ∧ s.Waits b := by
    intro b hb
    refine ⟨fun h => hnot (h ▸ hb), ?_⟩
    rw [hsame] at hb
    exact hb
  have hsub : t.rest.Sublist s.rest := by
    rcases hphase with hphase | hphase <;> rw [hphase]
    exact List.sublist_cons_self ..
  refine ⟨hstage, hs.ordered.quiet (c := none) ⟨fun b => (hflag b).1, fun b => (hflag b).2.1,
    ?_, ?_, hsub, fun b hb hwait => ?_, fun b hb hwait e he => ?_, ?_, ?_, nofun, nofun,
    fun b hb => absurd hb (hidle b)⟩⟩
  · rw [hsame]
  · rw [hsame]
    exact fun _ => id
  · rcases hphase with hphase | hphase <;> rw [hphase] at hb
    · exact hb
    · exact (List.mem_cons.mp hb).resolve_left (hwaits b hwait).1
  · obtain ⟨hba, hwait⟩ := hwaits b hwait
    rw [(hflag b).2.2 hba] at he
    exact hs.ordered.rest_able b (hsub.subset hb) hwait e he
  · rw [hsame]
  · rw [hsame]
    exact (List.append_nil _).symm

theorem dispatch_waiting {rest : List A} (hlife : s.life a = .live)
    (hasyncer : s.asyncers a = ⟨some n, some ⟨true, true⟩, false, true⟩) :
    s.dispatch a rest = s.completed a n false "" (.callback a .read rest) := by
  simp only [dispatch, called, AsyncerObject.dispatch, AsyncerObject.complete, hasyncer, hlife,
    AsyncerObject.callHandler, Option.toList, List.map_cons, List.map_nil, Bool.false_eq_true,
    if_false, if_true, update, Function.update_self, AsyncerPoller.order, AsyncLoop.completed]

/-- The event is gone, cancelled, or of an asyncer that is being destroyed. -/
theorem Inv.dispatch_idle (hs : s.Inv outside) {rest : List A}
    (hphase : s.phase = .batch (a :: rest)) (hnot : ¬ s.Waits a) :
    (s.dispatch a rest).Inv outside := by
  have hrest : s.rest = a :: rest := by rw [AsyncLoop.rest, hphase]
  unfold AsyncLoop.dispatch
  split
  next hevent =>
    have hlife : s.life a ≠ .live := fun hlife => by
      cases hs.stage a with
      | unused _ _ _ hnone => exact absurd (hnone.symm.trans hevent) nofun
      | waiting n able _ _ hin _ => exact hnot ⟨hin, hlife⟩
      | called n _ _ _ _ hoff => exact absurd (hoff _ hevent) (by decide)
      | destroying n able hlife' => exact absurd (hlife.symm.trans hlife') (by decide)
    rw [if_neg hlife]
    refine hs.goOn (a := a) (.inr hrest) (fun _ => id) (fun b => ?_) rfl
      (fun b => ⟨?_, ?_, ?_⟩) hnot
    · exact ((hs.stage b).setReadAble false).frame rfl rfl Iff.rfl fun _ _ => Iff.rfl
    · exact setReadAble_handler false
    · exact setReadAble_used false
    · exact setReadAble_of_ne false
  next =>
    exact hs.goOn (a := a) (.inr hrest) (fun _ => id)
      (fun b => (hs.stage b).frame rfl rfl Iff.rfl fun _ _ => Iff.rfl) rfl
      (fun _ => ⟨rfl, rfl, fun _ => rfl⟩) hnot

omit [DecidableEq A] in
/-- In a batch the event of an asyncer that waits is ready. -/
theorem Inv.ready (hs : s.Inv outside) (ha : a ∈ s.rest) (hwait : s.Waits a) : ∃ n,
    s.asyncers a = ⟨some n, some ⟨true, true⟩, false, true⟩ ∧ n ∉ s.calls.map (·.1) := by
  cases hs.stage a with
  | unused _ _ _ _ hnot | called _ _ _ _ _ _ hnot _ => exact absurd hwait.1 hnot
  | destroying n able hlife => exact absurd (hwait.2.symm.trans hlife) (by decide)
  | waiting n able _ hasyncer _ hcalls =>
    have hable := hs.ordered.rest_able a ha hwait ⟨true, able⟩ (by rw [hasyncer]; rfl)
    cases hable
    exact ⟨n, hasyncer, hcalls⟩

theorem Inv.dispatch (hs : s.Inv outside) {rest : List A} (hphase : s.phase = .batch (a :: rest)) :
    (s.dispatch a rest).Inv outside := by
  have hrest : s.rest = a :: rest := by rw [AsyncLoop.rest, hphase]
  by_cases hwait : s.Waits a
  · obtain ⟨n, hasyncer, hcalls⟩ := hs.ready (hrest ▸ List.mem_cons_self) hwait
    have hnumber : s.number a = n := by rw [number, hasyncer]; rfl
    rw [dispatch_waiting hwait.2 hasyncer]
    have hlife : s.life a ≠ .destroying := by
      rw [hwait.2]
      decide
    refine hs.completed hasyncer (fun _ => hlife) (fun _ => hcalls)
      (hrest ▸ List.sublist_cons_self ..) (fun b hb hba => ?_)
      (fun _ => ⟨fun k hk => ?_, fun b hba hb => ?_⟩) fun b hb => .inl ⟨hb.symm, hwait.2⟩
    · rw [hrest] at hb
      exact (List.mem_cons.mp hb).resolve_left hba
    · exact hnumber ▸ hs.ordered.fifo_ahead k hk a hwait
    · rw [← hnumber]
      by_cases hin : b ∈ rest
      · have hsorted := hs.ordered.rest_sorted
        rw [hrest] at hsorted
        exact (List.pairwise_cons.mp hsorted).1 b hin
      · refine hs.ordered.ahead b hb ?_ a (hrest ▸ List.mem_cons_self)
        rw [hrest, List.mem_cons, not_or]
        exact ⟨hba, hin⟩
  · exact hs.dispatch_idle hphase hwait

theorem Inv.returned (hs : s.Inv outside) {kind : Readiness} {rest : List A}
    (hphase : s.phase = .callback a kind rest) : (s.returned a rest).Inv outside := by
  obtain ⟨hlife, -, hnot⟩ := hs.ordered.running a (by rw [Running, hphase])
  have hrest : s.rest = rest := by rw [AsyncLoop.rest, hphase]
  have ht : Inv outside { s.setReadAble false a with phase := .batch rest } := by
    refine hs.goOn (a := a) (.inl hrest) (fun _ => id) (fun b => ?_) rfl (fun b => ⟨?_, ?_, ?_⟩)
      fun h => hnot h.1
    · exact ((hs.stage b).setReadAble false).frame rfl rfl Iff.rfl fun _ _ => Iff.rfl
    · exact setReadAble_handler false
    · exact setReadAble_used false
    · exact setReadAble_of_ne false
  unfold AsyncLoop.returned
  split
  · exact ht
  · exact ht.destroy hlife id

theorem Inv.step {action : AsyncLoopAction A} (hs : s.Inv outside)
    (houtside : outside → s.CancelsOutside action) (ht : s.step action = some t) :
    t.Inv outside := by
  cases action with
  | asyncDo a =>
    obtain ⟨hlife, rfl⟩ := Option.ite_none_right_eq_some.mp ht |>.imp_right Option.some.inj
    exact hs.asyncDo hlife
  | cancel a =>
    obtain ⟨hlife, rfl⟩ := Option.ite_none_right_eq_some.mp ht |>.imp_right Option.some.inj
    exact hs.cancel hlife houtside
  | drop a =>
    obtain ⟨hlife, rfl⟩ := Option.ite_none_right_eq_some.mp ht |>.imp_right Option.some.inj
    exact hs.drop hlife.1
  | destroyed a =>
    obtain ⟨hlife, rfl⟩ := Option.ite_none_right_eq_some.mp ht |>.imp_right Option.some.inj
    refine hs.gone (fun h => ?_) fun h => ?_
    · exact absurd (hlife.symm.trans h.2) (by decide)
    · exact absurd (hlife.symm.trans (hs.ordered.running a h).1) (by decide)
  | poll =>
    obtain ⟨-, rfl⟩ := Option.ite_none_right_eq_some.mp ht |>.imp_right Option.some.inj
    exact hs.poll
  | next =>
    simp only [AsyncLoop.step, AsyncLoop.next] at ht
    split at ht
    next => cases ht
    next hphase =>
      cases ht
      refine ⟨fun b => (hs.stage b).frame rfl rfl Iff.rfl fun _ _ => Iff.rfl,
        { hs.ordered with
          rest_sorted := .nil, rest_used := nofun, rest_able := nofun, running := nofun
          ahead := fun b _ _ a ha => absurd ha List.not_mem_nil }⟩
    next a rest hphase =>
      cases ht
      exact hs.dispatch hphase
    next a kind rest hphase =>
      cases ht
      exact hs.returned hphase

/-! ## The law -/

theorem update_calls : (s.update b).calls = s.calls := by
  unfold update
  split
  · rfl
  · split <;> rfl

theorem destroy_calls : ∃ calls, (s.destroy b).calls = s.calls ++ calls := by
  unfold destroy
  split
  · exact ⟨[], (List.append_nil _).symm⟩
  · exact ⟨_, rfl⟩

theorem dispatch_calls (rest : List A) : ∃ calls, (s.dispatch b rest).calls = s.calls ++ calls := by
  unfold dispatch
  split
  · split
    · exact ⟨_, update_calls⟩
    · exact ⟨[], (List.append_nil _).symm⟩
  · exact ⟨[], (List.append_nil _).symm⟩

/-- What has been called stays in the log. -/
theorem step_calls {action : AsyncLoopAction A} (ht : s.step action = some t) :
    ∃ calls, t.calls = s.calls ++ calls := by
  cases action with
  | asyncDo b =>
    obtain ⟨-, rfl⟩ := Option.ite_none_right_eq_some.mp ht |>.imp_right Option.some.inj
    unfold asyncDo
    split
    · exact ⟨_, rfl⟩
    · exact ⟨_, update_calls⟩
  | cancel b =>
    obtain ⟨-, rfl⟩ := Option.ite_none_right_eq_some.mp ht |>.imp_right Option.some.inj
    exact ⟨_, update_calls⟩
  | drop b =>
    obtain ⟨-, rfl⟩ := Option.ite_none_right_eq_some.mp ht |>.imp_right Option.some.inj
    unfold drop
    split
    · exact ⟨[], (List.append_nil _).symm⟩
    · exact destroy_calls
  | destroyed b =>
    obtain ⟨-, rfl⟩ := Option.ite_none_right_eq_some.mp ht |>.imp_right Option.some.inj
    exact ⟨[], (List.append_nil _).symm⟩
  | poll =>
    obtain ⟨-, rfl⟩ := Option.ite_none_right_eq_some.mp ht |>.imp_right Option.some.inj
    obtain ⟨asyncers, heq, -⟩ := setReadAble_all (s := s) s.events
    refine ⟨[], ?_⟩
    rw [poll, heq, List.append_nil]
  | next =>
    simp only [AsyncLoop.step, AsyncLoop.next] at ht
    split at ht
    next => cases ht
    next => cases ht; exact ⟨[], (List.append_nil _).symm⟩
    next b rest _ => cases ht; exact dispatch_calls rest
    next b kind rest _ =>
      cases ht
      unfold returned
      split
      · exact ⟨[], (List.append_nil _).symm⟩
      · exact destroy_calls

/-- A `Cancel` out of the destructor calls the handler a second time. -/
theorem Inv.step_twice {action : AsyncLoopAction A} (hs : s.Inv True)
    (houtside : ¬ s.CancelsOutside action) (ht : s.step action = some t) :
    ¬ (t.calls.map (·.1)).Nodup := by
  cases action with
  | asyncDo a | drop a | destroyed a | poll | next => exact absurd True.intro houtside
  | cancel a =>
    have hlife : s.life a = .destroying := Classical.not_not.mp houtside
    obtain ⟨-, rfl⟩ := Option.ite_none_right_eq_some.mp ht |>.imp_right Option.some.inj
    cases hs.stage a with
    | unused hlife' => exact absurd hlife hlife'
    | waiting n able hlife' => exact absurd (hlife.symm.trans hlife') (by decide)
    | called n hlife' => exact absurd hlife (hlife' True.intro)
    | destroying n able _ hasyncer _ hmem =>
      rw [cancel_waiting hasyncer]
      show ¬ ((s.calls ++ [(n, "Asyncer Canceled")]).map (·.1)).Nodup
      rw [List.map_append, List.nodup_append]
      rintro ⟨-, -, hne⟩
      exact hne n hmem n (List.mem_singleton.mpr rfl) rfl

omit [DecidableEq A] in
theorem inv_new (done : A → Bool) : (new done).Inv outside :=
  ⟨fun _ => .unused nofun rfl rfl rfl nofun, nofun, nofun, nofun, fun _ => .nil, .nil, .nil, nofun,
    nofun, nofun, .nil, nofun, nofun⟩

omit [DecidableEq A] in
theorem Inv.order (hs : s.Inv outside) : AsyncLoopOrder s where
  fifo := hs.ordered.fifo
  complete a n hn hlife := by
    cases hs.stage a with
    | unused _ _ hnone => exact absurd (hnone.symm.trans hn) nofun
    | waiting n able hlife' => exact absurd (hlife.symm.trans hlife') (by decide)
    | called n _ hhandler _ _ _ _ hmem => exact Option.some.inj (hhandler.symm.trans hn) ▸ hmem
    | destroying n able hlife' => exact absurd (hlife.symm.trans hlife') (by decide)

omit [DecidableEq A] in
theorem Inv.law (hs : s.Inv True) : AsyncLoopLaw s := ⟨hs.order, hs.ordered.once True.intro⟩

/-- What a step leaves of an asyncer that waits, its place in the batch included. -/
structure Untouched (s t : AsyncLoop A) (a : A) : Prop where
  handler : (t.asyncers a).handler = (s.asyncers a).handler
  waits : s.Waits a → t.Waits a
  rest : a ∈ s.rest → a ∈ t.rest

omit [DecidableEq A] in
theorem Untouched.trans {u : AsyncLoop A} (h : Untouched s t a) (h' : Untouched t u a) :
    Untouched s u a :=
  ⟨h'.handler.trans h.handler, h'.waits ∘ h.waits, h'.rest ∘ h.rest⟩

theorem untouched_called {r : AsyncerObject × List AsyncerCall} (hba : b ≠ a) :
    Untouched s (s.called b r) a :=
  ⟨congrArg AsyncerObject.handler (Function.update_of_ne hba.symm ..), id, id⟩

theorem untouched_update (hba : b ≠ a) : Untouched s (s.update b) a := by
  unfold update
  split
  · exact ⟨rfl, id, id⟩
  · split
    · refine ⟨rfl, fun h => ⟨?_, h.2⟩, id⟩
      exact List.mem_append_left _ ((List.mem_erase_of_ne hba.symm).mpr h.1)
    · exact ⟨rfl, fun h => ⟨(List.mem_erase_of_ne hba.symm).mpr h.1, h.2⟩, id⟩

theorem untouched_gone (hba : b ≠ a) : Untouched s (s.gone b) a := by
  refine ⟨congrArg AsyncerObject.handler (Function.update_of_ne hba.symm ..), fun h => ?_, id⟩
  exact ⟨(List.mem_erase_of_ne hba.symm).mpr h.1, (Function.update_of_ne hba.symm ..).trans h.2⟩

theorem untouched_destroy (hba : b ≠ a) : Untouched s (s.destroy b) a := by
  unfold destroy
  split
  · exact untouched_gone hba
  · exact ⟨rfl, fun h => ⟨h.1, (Function.update_of_ne hba.symm ..).trans h.2⟩, id⟩

theorem untouched_asyncDo (hused : (s.asyncers a).used = true) : Untouched s (s.asyncDo b) a := by
  rcases eq_or_ne b a with rfl | hba
  · rw [asyncDo_used hused]
    exact ⟨rfl, id, id⟩
  · have ht : Untouched s
        { s.called b ((s.asyncers b).asyncDo s.asyncDos) with asyncDos := s.asyncDos + 1 } a :=
      (untouched_called hba).trans ⟨rfl, id, id⟩
    unfold asyncDo
    split
    · exact ht
    · exact ht.trans (untouched_update hba)

theorem untouched_dispatch {rest : List A} (hphase : s.phase = .batch (b :: rest)) (hba : b ≠ a) :
    Untouched s (s.dispatch b rest) a := by
  have hrest : a ∈ s.rest → a ∈ rest := fun ha => by
    rw [AsyncLoop.rest, hphase] at ha
    exact (List.mem_cons.mp ha).resolve_left hba.symm
  have hcalled : Untouched s ((s.called b (s.asyncers b).dispatch).update b) a :=
    (untouched_called hba).trans (untouched_update hba)
  unfold dispatch
  split
  · split
    · exact ⟨hcalled.handler, hcalled.waits, hrest⟩
    · exact ⟨setReadAble_handler false, id, hrest⟩
  · exact ⟨rfl, id, hrest⟩

/-- Nobody cancels the asyncer or lets it go. -/
def Undisturbed (a : A) (action : AsyncLoopAction A) : Prop := action ≠ .cancel a ∧ action ≠ .drop a

instance decidableUndisturbed (a : A) (action : AsyncLoopAction A) :
    Decidable (Undisturbed a action) :=
  inferInstanceAs (Decidable (action ≠ .cancel a ∧ action ≠ .drop a))

/-- A step leaves a handler waiting, in the batch if it was there or a poll has come, or runs it. -/
theorem Inv.waits_step {action : AsyncLoopAction A} (hs : s.Inv outside) (hwait : s.Waits a)
    (hn : (s.asyncers a).handler = some n) (haction : Undisturbed a action)
    (ht : s.step action = some t) :
    (n, "") ∈ t.calls ∨ (Untouched s t a ∧ (action = .poll → a ∈ t.rest)) := by
  cases action with
  | asyncDo b =>
    obtain ⟨-, rfl⟩ := Option.ite_none_right_eq_some.mp ht |>.imp_right Option.some.inj
    obtain ⟨n, able, hasyncer⟩ := (hs.stage a).of_mem_events hwait.1
    exact .inr ⟨untouched_asyncDo (by rw [hasyncer]), nofun⟩
  | cancel b =>
    obtain ⟨-, rfl⟩ := Option.ite_none_right_eq_some.mp ht |>.imp_right Option.some.inj
    have hba : b ≠ a := fun h => haction.1 (h ▸ rfl)
    exact .inr ⟨(untouched_called hba).trans (untouched_update hba), nofun⟩
  | drop b =>
    obtain ⟨-, rfl⟩ := Option.ite_none_right_eq_some.mp ht |>.imp_right Option.some.inj
    have hba : b ≠ a := fun h => haction.2 (h ▸ rfl)
    have hheld : Untouched s { s with held := Function.update s.held b false } a := ⟨rfl, id, id⟩
    refine .inr ⟨?_, nofun⟩
    unfold AsyncLoop.drop
    split
    · exact hheld
    · exact hheld.trans (untouched_destroy hba)
  | destroyed b =>
    obtain ⟨hlife, rfl⟩ := Option.ite_none_right_eq_some.mp ht |>.imp_right Option.some.inj
    have hba : b ≠ a := fun h => absurd (hwait.2.symm.trans (h ▸ hlife)) (by decide)
    exact .inr ⟨untouched_gone hba, nofun⟩
  | poll =>
    obtain ⟨hidle, rfl⟩ := Option.ite_none_right_eq_some.mp ht |>.imp_right Option.some.inj
    obtain ⟨asyncers, heq, hsame, -, -⟩ := setReadAble_all (s := s) s.events
    refine .inr ⟨⟨?_, ?_, fun h => ?_⟩, fun _ => hwait.1⟩
    · rw [AsyncLoop.poll, heq]
      exact (hsame a).1
    · rw [AsyncLoop.poll, heq]
      exact id
    · exact hwait.1
  | next =>
    simp only [AsyncLoop.step, AsyncLoop.next] at ht
    split at ht
    next => cases ht
    next hphase =>
      cases ht
      refine .inr ⟨⟨rfl, id, fun h => ?_⟩, nofun⟩
      rw [AsyncLoop.rest, hphase] at h
      exact absurd h List.not_mem_nil
    next b rest hphase =>
      cases ht
      rcases eq_or_ne b a with rfl | hba
      · obtain ⟨m, hasyncer, -⟩ := hs.ready (by rw [AsyncLoop.rest, hphase]; exact
          List.mem_cons_self) hwait
        rw [hasyncer] at hn
        cases hn
        rw [dispatch_waiting hwait.2 hasyncer]
        exact .inl (List.mem_append_right _ (List.mem_singleton.mpr rfl))
      · exact .inr ⟨untouched_dispatch hphase hba, nofun⟩
    next b kind rest hphase =>
      cases ht
      have hba : b ≠ a := by
        rintro rfl
        exact (hs.ordered.running b (by rw [Running, hphase])).2.2 hwait.1
      have hback : Untouched s { s.setReadAble false b with phase := .batch rest } a := by
        refine ⟨setReadAble_handler false, id, fun h => ?_⟩
        rwa [AsyncLoop.rest, hphase] at h
      refine .inr ⟨?_, nofun⟩
      unfold AsyncLoop.returned
      split
      · exact hback
      · exact hback.trans (untouched_destroy hba)

/-- The loop begins to look for asyncers. -/
def isPoll (_ : AsyncLoop A) (action : AsyncLoopAction A) : Bool := action = .poll

/-- The handler `n` of `a` waits, and the loop polls at most `k` times before it runs it. -/
def WaitsFor (a : A) (n : Handler) : Nat → AsyncLoop A → Prop
  | 0, s => s.Inv False ∧ s.Waits a ∧ (s.asyncers a).handler = some n ∧ a ∈ s.rest
  | _ + 1, s => s.Inv False ∧ s.Waits a ∧ (s.asyncers a).handler = some n

theorem WaitsFor.keep {k : Nat} {action : AsyncLoopAction A} (h : WaitsFor a n k s)
    (haction : Undisturbed a action) (ht : s.step action = some t) :
    WaitsFor a n k t ∨ (n, "") ∈ t.calls := by
  cases k with
  | zero =>
    obtain ⟨hs, hwait, hn, hrest⟩ := h
    refine (hs.waits_step hwait hn haction ht).symm.imp_left fun ⟨htouch, _⟩ => ?_
    exact ⟨hs.step False.elim ht, htouch.waits hwait, htouch.handler.trans hn, htouch.rest hrest⟩
  | succ k =>
    obtain ⟨hs, hwait, hn⟩ := h
    refine (hs.waits_step hwait hn haction ht).symm.imp_left fun ⟨htouch, _⟩ => ?_
    exact ⟨hs.step False.elim ht, htouch.waits hwait, htouch.handler.trans hn⟩

/-- A poll takes who waits into the batch. -/
theorem WaitsFor.poll {k : Nat} {action : AsyncLoopAction A} (h : WaitsFor a n (k + 1) s)
    (ht : s.step action = some t) (hpoll : isPoll s action = true) : WaitsFor a n k t := by
  obtain rfl : action = .poll := of_decide_eq_true hpoll
  obtain ⟨hs, hwait, hn⟩ := h
  have haction : Undisturbed a (.poll : AsyncLoopAction A) := ⟨nofun, nofun⟩
  rcases hs.waits_step hwait hn haction ht with hcalled | ⟨htouch, hrest⟩
  · -- a poll runs no handler
    obtain ⟨-, rfl⟩ := Option.ite_none_right_eq_some.mp ht |>.imp_right Option.some.inj
    obtain ⟨asyncers, heq, -⟩ := setReadAble_all (s := s) s.events
    rw [AsyncLoop.poll, heq] at hcalled
    have hdelivered : n ∈ s.delivered :=
      List.mem_map.mpr ⟨(n, ""), List.mem_filter.mpr ⟨hcalled, rfl⟩, rfl⟩
    have hnumber : s.number a = n := by rw [number, hn]; rfl
    exact absurd (hs.ordered.fifo_ahead n hdelivered a hwait) (hnumber ▸ Nat.lt_irrefl _)
  · have hwaits := htouch.waits hwait
    have hhandler := htouch.handler.trans hn
    cases k with
    | zero => exact ⟨hs.step False.elim ht, hwaits, hhandler, hrest rfl⟩
    | succ k => exact ⟨hs.step False.elim ht, hwaits, hhandler⟩

/-- The loop does not poll before it is through with its batch. -/
theorem WaitsFor.last {action : AsyncLoopAction A} (h : WaitsFor a n 0 s)
    (ht : s.step action = some t) : isPoll s action = false := by
  refine decide_eq_false ?_
  rintro rfl
  obtain ⟨hidle, -⟩ := Option.ite_none_right_eq_some.mp ht
  obtain ⟨-, -, -, hrest⟩ := h
  rw [AsyncLoop.rest, hidle] at hrest
  exact List.not_mem_nil hrest

/-- Let the handler `n` of `a` wait in a reachable state. In every run from there in which nobody
cancels `a` or lets it go, the loop has run the handler when it polls for the second time. -/
theorem delivered_in_two_polls (done : A → Bool) (s t : AsyncLoop A)
    (hs : (system done).Reachable s) (a : A) (n : Handler)
    (hn : (s.asyncers a).handler = some n) (hlife : s.life a = .live)
    (hcalls : n ∉ s.calls.map (·.1)) (actions : List (AsyncLoopAction A))
    (hactions : ∀ action ∈ actions, Undisturbed a action)
    (hrun : (system done).run s actions = some t)
    (hpolls : 2 ≤ (system done).ticks isPoll s actions) : (n, "") ∈ t.calls := by
  have hinv : s.Inv False :=
    hs.invariant (inv_new done) fun _ _ _ h _ ht => h.step False.elim ht
  have hwait : s.Waits a := by
    cases hinv.stage a with
    | unused _ _ hnone => exact absurd (hnone.symm.trans hn) nofun
    | waiting _ _ _ _ hin _ => exact ⟨hin, hlife⟩
    | called m _ hhandler _ _ _ _ hmem =>
      exact absurd (Option.some.inj (hhandler.symm.trans hn) ▸ hmem) hcalls
    | destroying _ _ hlife' => exact absurd (hlife.symm.trans hlife') (by decide)
  refine System.reached_of_ticks (W := WaitsFor a n) (Q := fun t => (n, "") ∈ t.calls)
    (L := Undisturbed a) (C := isPoll) ?_ ?_ ?_ ?_ (n := 1) ⟨hinv, hwait, hn⟩ hactions hrun hpolls
  · rintro s action t hmem ht
    obtain ⟨calls, hcalls⟩ := step_calls ht
    exact hcalls ▸ List.mem_append_left _ hmem
  · exact fun _ _ _ _ hW haction ht _ => hW.keep haction ht
  · exact fun _ _ _ _ hW _ ht hpoll => .inl (hW.poll ht hpoll)
  · exact fun _ _ _ hW _ ht => hW.last ht

/-- Two asyncers: the second `AsyncDo` comes while the loop goes over a batch without it. -/
def lateAsyncDo : List (AsyncLoopAction Bool) := [.asyncDo false, .poll, .asyncDo true]

def twoPolls : List (AsyncLoopAction Bool) :=
  [.next, .next, .next, .poll, .next, .next, .next, .poll]

theorem delivered_in_two_polls_late :
    ∃ s t, (system fun _ : Bool => false).run (system fun _ => false).init lateAsyncDo = some s ∧
      (system fun _ => false).run s twoPolls = some t ∧ (1, "") ∈ t.calls := by
  obtain ⟨s, hs⟩ : ∃ s, (system fun _ : Bool => false).run (system fun _ => false).init
    lateAsyncDo = some s := ⟨_, rfl⟩
  have hs' := hs
  cases hs'
  have hreachable := System.reachable_of_run hs
  exact ⟨_, _, hs, rfl, delivered_in_two_polls (fun _ => false) _ _ hreachable true 1 rfl rfl
    (by decide) twoPolls (by decide) rfl (by decide)⟩

end AsyncLoop

end Sheep
