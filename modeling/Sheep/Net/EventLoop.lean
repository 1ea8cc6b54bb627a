import Mathlib.Logic.Function.Basic
import Sheep.Lib.System

/-!
# `EventLoop::doPoller` and `Event::Do`

The dispatch of a batch of events (`net/common/event_loop.cpp`, `net/common/event.cpp`). A poll sets
`readAble_` or `writeAble_` of the events that it returns. `Do` runs a callback when that flag and
the notification are both on, and clears the flag after the callback. The callbacks turn
notifications on and off, create events and drop them.

A flag whose notification is off stays set: it is cleared by nothing but the callback. `NoStale`: a
flag that `Do` would go by comes from a poll since the notification was turned on.
-/

namespace Sheep

/-- The two sides of an event: `readAble_`, `readNotify_`, `readCb_`, and `writeAble_`,
`writeNotify_`, `writeCb_`. -/
inductive Readiness
  | read
  | write
  deriving DecidableEq, Repr

structure ReadyEvent where
  able : Readiness → Bool
  notify : Readiness → Bool
  /-- a poll has reported it since the notification was turned on last -/
  reported : Readiness → Bool

namespace ReadyEvent

def new : ReadyEvent := ⟨fun _ => false, fun _ => false, fun _ => false⟩

/-- `SetReadAble` and `SetWriteAble`. -/
def setAble (ev : ReadyEvent) (kind : Readiness) : ReadyEvent :=
  { ev with
    able := Function.update ev.able kind true
    reported := Function.update ev.reported kind true }

/-- After the callback. -/
def clearAble (ev : ReadyEvent) (kind : Readiness) : ReadyEvent :=
  { ev with able := Function.update ev.able kind false }

/-- `EnableReadNotify` and `EnableWriteNotify`. -/
def enable (ev : ReadyEvent) (kind : Readiness) : ReadyEvent :=
  { ev with
    notify := Function.update ev.notify kind true
    reported := Function.update ev.reported kind (ev.notify kind && ev.reported kind) }

/-- `DisableReadNotify` and `DisableWriteNotify`. -/
def disable (ev : ReadyEvent) (kind : Readiness) : ReadyEvent :=
  { ev with notify := Function.update ev.notify kind false }

variable (ev : ReadyEvent) (kind : Readiness)

@[simp] theorem setAble_able : (ev.setAble kind).able = Function.update ev.able kind true := rfl

@[simp] theorem setAble_reported :
    (ev.setAble kind).reported = Function.update ev.reported kind true := rfl

@[simp] theorem clearAble_able : (ev.clearAble kind).able = Function.update ev.able kind false :=
  rfl

@[simp] theorem enable_notify : (ev.enable kind).notify = Function.update ev.notify kind true := rfl

@[simp] theorem enable_reported : (ev.enable kind).reported =
    Function.update ev.reported kind (ev.notify kind && ev.reported kind) := rfl

@[simp] theorem disable_notify : (ev.disable kind).notify = Function.update ev.notify kind false :=
  rfl

/-- The callback that `Do` runs. The write callback has its turn only where the read callback has
not. -/
def callback : Option Readiness :=
  if ev.able .read && ev.notify .read then some .read
  else if ev.able .write && ev.notify .write then some .write
  else none

end ReadyEvent

inductive LoopPhase (E : Type)
  /-- between two calls of `doPoller` -/
  | idle
  /-- the loop of `doPoller`, with the events that are left -/
  | batch (weakEvents : List E)
  /-- `Do` of the event is running a callback -/
  | callback (event : E) (kind : Readiness) (weakEvents : List E)
  deriving DecidableEq, Repr

/-- A callback that `Do` has run: what was so when it began. -/
structure CallbackCall (E : Type) where
  event : E
  kind : Readiness
  alive : Bool
  notify : Bool
  reported : Bool
  deriving DecidableEq, Repr

structure EventLoopRun (E : Type) where
  /-- the `Event` objects that exist -/
  events : E → Option ReadyEvent
  created : E → Bool
  /-- a `shared_ptr` to the event exists outside of `doPoller` -/
  held : E → Bool
  phase : LoopPhase E
  calls : List (CallbackCall E)

inductive EventLoopAction (E : Type)
  | create (e : E)
  | enable (e : E) (kind : Readiness)
  | disable (e : E) (kind : Readiness)
  /-- the `shared_ptr`s outside of `doPoller` go -/
  | drop (e : E)
  /-- somebody gets a `shared_ptr` of an event that exists -/
  | hold (e : E)
  /-- `doPoller` calls `Poll`: the events returned, each with the flag that is set -/
  | poll (reports : List (E × Readiness))
  /-- `doPoller` goes on to the next event, or the callback returns -/
  | next
  deriving DecidableEq, Repr

namespace EventLoopRun

variable {E : Type} [DecidableEq E]

def new : EventLoopRun E := ⟨fun _ => none, fun _ => false, fun _ => false, .idle, []⟩

def setEvent (s : EventLoopRun E) (e : E) (ev : Option ReadyEvent) : EventLoopRun E :=
  { s with events := Function.update s.events e ev }

/-- The event is with a poller: one of its notifications is on. -/
def Registered (s : EventLoopRun E) (e : E) : Prop :=
  ∃ ev, s.events e = some ev ∧ (ev.notify .read || ev.notify .write) = true

instance (s : EventLoopRun E) (e : E) : Decidable (s.Registered e) :=
  match h : s.events e with
  | none => isFalse fun ⟨_, hev, _⟩ => absurd (h.symm.trans hev) nofun
  | some ev => decidable_of_iff ((ev.notify .read || ev.notify .write) = true)
      ⟨fun hev => ⟨ev, h, hev⟩, fun ⟨_, hev, hn⟩ => Option.some.inj (hev.symm.trans h) ▸ hn⟩

/-- `Poll` sets a flag. -/
def report (s : EventLoopRun E) (r : E × Readiness) : EventLoopRun E :=
  s.setEvent r.1 ((s.events r.1).map fun ev => ev.setAble r.2)

/-- `doPoller` holds the event until its iteration is over. -/
def Running (s : EventLoopRun E) (e : E) : Prop :=
  match s.phase with
  | .callback event _ _ => event = e
  | _ => False

instance (s : EventLoopRun E) (e : E) : Decidable (s.Running e) := by
  unfold Running
  split <;> infer_instance

def next (s : EventLoopRun E) : Option (EventLoopRun E) :=
  match s.phase with
  | .idle => none
  | .batch [] => some { s with phase := .idle }
  | .batch (e :: rest) =>
    match s.events e with
    -- the event has been destroyed
    | none => some { s with phase := .batch rest }
    | some ev =>
      match ev.callback with
      | none => some { s with phase := .batch rest }
      | some kind =>
        some { s with
          phase := .callback e kind rest
          calls := s.calls ++ [⟨e, kind, (s.events e).isSome, ev.notify kind, ev.reported kind⟩] }
  | .callback e kind rest =>
    let ev := (s.events e).map fun ev => ev.clearAble kind
    some { s.setEvent e (if s.held e then ev else none) with phase := .batch rest }

def step (s : EventLoopRun E) : EventLoopAction E → Option (EventLoopRun E)
  | .create e =>
    if s.created e = false then
      some { s.setEvent e (some .new) with
        created := Function.update s.created e true
        held := Function.update s.held e true }
    else none
  | .enable e kind => (s.events e).map fun ev => s.setEvent e (some (ev.enable kind))
  | .disable e kind => (s.events e).map fun ev => s.setEvent e (some (ev.disable kind))
  | .drop e =>
    if s.Running e then some { s with held := Function.update s.held e false }
    else some { s.setEvent e none with held := Function.update s.held e false }
  | .hold e =>
    (s.events e).map fun _ => { s with held := Function.update s.held e true }
  | .poll reports =>
    if s.phase = .idle ∧ ∀ r ∈ reports, s.Registered r.1 then
      some { reports.foldl report s with phase := .batch (reports.map Prod.fst) }
    else none
  | .next => s.next

def system : System (EventLoopRun E) (EventLoopAction E) := ⟨new, step⟩

/-- Every callback was run for an event that was alive, with its notification on, and after a poll
had reported it since that notification was turned on. -/
def RightCalls (s : EventLoopRun E) : Prop :=
  ∀ call ∈ s.calls, call.alive = true ∧ call.notify = true ∧ call.reported = true

/-- The callback that is running. Its flag is cleared when it returns. -/
def InCallback (s : EventLoopRun E) (e : E) (kind : Readiness) : Prop :=
  match s.phase with
  | .callback event kind' _ => event = e ∧ kind' = kind
  | _ => False

instance (s : EventLoopRun E) (e : E) (kind : Readiness) : Decidable (s.InCallback e kind) := by
  unfold InCallback
  split <;> infer_instance

/-- A flag that `Do` will go by was set by a poll since the notification was turned on. -/
def NoStale (s : EventLoopRun E) : Prop :=
  ∀ e ev kind, s.events e = some ev → ev.able kind = true → ev.notify kind = true →
    ev.reported kind = true ∨ s.InCallback e kind

/-- A notification is turned on only while the flag is off, or by the callback of that flag. -/
def EnablesCleared (s : EventLoopRun E) (a : EventLoopAction E) : Prop :=
  match a with
  | .enable e kind => ∀ ev ∈ s.events e, ev.notify kind = false → ev.able kind = true →
      s.InCallback e kind
  | _ => True

instance (s : EventLoopRun E) (a : EventLoopAction E) : Decidable (s.EnablesCleared a) := by
  unfold EnablesCleared
  split <;> infer_instance

variable {s t : EventLoopRun E}

omit [DecidableEq E] in
theorem inCallback_iff {e : E} {kind : Readiness} :
    s.InCallback e kind ↔ ∃ rest, s.phase = .callback e kind rest := by
  unfold InCallback
  split
  next event kind' rest hphase =>
    rw [hphase]
    simp only [LoopPhase.callback.injEq, ← and_assoc, exists_and_left, exists_eq', and_true]
  next hphase => exact iff_of_false id fun ⟨rest, h⟩ => hphase _ _ _ h

/-! ## Stale flags -/

omit [DecidableEq E] in
theorem NoStale.mono (hs : s.NoStale) (hevents : t.events = s.events)
    (hin : ∀ e kind, s.InCallback e kind → t.InCallback e kind) : t.NoStale := by
  intro e ev kind hev hable hnotify
  rw [hevents] at hev
  exact (hs e ev kind hev hable hnotify).imp_right (hin e kind)

/-- One event becomes another one. -/
theorem NoStale.of {e : E} {x : Option ReadyEvent} (hs : s.NoStale)
    (hevents : t.events = Function.update s.events e x)
    (hin : ∀ e' kind, e' ≠ e → s.InCallback e' kind → t.InCallback e' kind)
    (hx : ∀ ev ∈ x, ∀ kind, ev.able kind = true → ev.notify kind = true →
      ev.reported kind = true ∨ t.InCallback e kind) : t.NoStale := by
  intro e' ev kind hev hable hnotify
  rw [hevents] at hev
  rcases eq_or_ne e' e with rfl | hne
  · rw [Function.update_self] at hev
    exact hx ev hev kind hable hnotify
  · rw [Function.update_of_ne hne] at hev
    exact (hs e' ev kind hev hable hnotify).imp_right (hin e' kind hne)

omit [DecidableEq E] in
theorem noStale_new : (new : EventLoopRun E).NoStale := fun _ _ _ hev => nomatch hev

/-- A report only adds. -/
theorem NoStale.report (hs : s.NoStale) (r : E × Readiness) : (s.report r).NoStale := by
  refine hs.of rfl (fun _ _ _ h => h) fun ev hev kind hable hnotify => ?_
  obtain ⟨old, hold, rfl⟩ := Option.map_eq_some_iff.mp hev
  rcases eq_or_ne kind r.2 with rfl | hne
  · exact .inl (Function.update_self ..)
  · rw [ReadyEvent.setAble_able, Function.update_of_ne hne] at hable
    rw [ReadyEvent.setAble_reported, Function.update_of_ne hne]
    exact hs r.1 old kind hold hable hnotify

theorem NoStale.reports (hs : s.NoStale) (reports : List (E × Readiness)) :
    (reports.foldl EventLoopRun.report s).NoStale := by
  induction reports generalizing s with
  | nil => exact hs
  | cons r reports ih => exact ih (hs.report r)

theorem foldl_report_phase (reports : List (E × Readiness)) :
    (reports.foldl EventLoopRun.report s).phase = s.phase ∧
      (reports.foldl EventLoopRun.report s).calls = s.calls := by
  induction reports generalizing s with
  | nil => exact ⟨rfl, rfl⟩
  | cons r reports ih => exact ih

/-- `doPoller` goes on: the flag of the callback that returns is cleared. -/
theorem NoStale.next (hs : s.NoStale) (hnext : s.next = some t) : t.NoStale := by
  unfold EventLoopRun.next at hnext
  split at hnext
  next => cases hnext
  next hphase =>
    cases hnext
    exact hs.mono rfl fun e kind h => by
      obtain ⟨rest, h⟩ := inCallback_iff.mp h
      exact absurd (hphase.symm.trans h) nofun
  next e rest hphase =>
    have hnone : ∀ e kind, ¬ s.InCallback e kind := fun e kind h => by
      obtain ⟨rest, h⟩ := inCallback_iff.mp h
      exact absurd (hphase.symm.trans h) nofun
    split at hnext
    next =>
      cases hnext
      exact hs.mono rfl fun e kind h => absurd h (hnone e kind)
    next =>
      split at hnext
      all_goals
        cases hnext
        exact hs.mono rfl fun e kind h => absurd h (hnone e kind)
  next e kind rest hphase =>
    cases hnext
    have honly : ∀ e' kind', s.InCallback e' kind' → e' = e ∧ kind' = kind := by
      intro e' kind' h
      obtain ⟨rest', h⟩ := inCallback_iff.mp h
      cases hphase.symm.trans h
      exact ⟨rfl, rfl⟩
    refine hs.of rfl (fun e' kind' hne h => absurd (honly e' kind' h).1 hne) ?_
    intro ev hev kind' hable hnotify
    split at hev
    next =>
      obtain ⟨old, hold, rfl⟩ := Option.map_eq_some_iff.mp hev
      rcases eq_or_ne kind' kind with rfl | hne
      · rw [ReadyEvent.clearAble_able, Function.update_self] at hable
        cases hable
      · rw [ReadyEvent.clearAble_able, Function.update_of_ne hne] at hable
        rcases hs e old kind' hold hable hnotify with h | h
        · exact .inl h
        · exact absurd (honly e kind' h).2 hne
    next => cases hev

/-- A step leaves no stale flag exactly when it does not turn a notification on over a flag. -/
theorem noStale_iff {a : EventLoopAction E} (hs : s.NoStale) (hstep : s.step a = some t) :
    t.NoStale ↔ s.EnablesCleared a := by
  cases a with
  | create e =>
    obtain ⟨-, ht⟩ := Option.ite_none_right_eq_some.mp hstep
    cases ht
    refine iff_of_true (hs.of rfl (fun _ _ _ h => h) fun ev hev kind hable => ?_) trivial
    cases hev
    cases hable
  | enable e kind =>
    obtain ⟨ev, hev, rfl⟩ := Option.map_eq_some_iff.mp hstep
    constructor
    · intro ht ev' hev' hoff hable
      obtain rfl := Option.some.inj (hev.symm.trans hev')
      have hstale := ht e (ev.enable kind) kind (Function.update_self ..) hable
        (Function.update_self ..)
      refine hstale.resolve_left fun h => ?_
      rw [ReadyEvent.enable_reported, Function.update_self, hoff] at h
      cases h
    · intro hG
      refine hs.of rfl (fun _ _ _ h => h) fun ev' hev' kind' hable hnotify => ?_
      cases hev'
      rcases eq_or_ne kind' kind with rfl | hne
      · cases hon : ev.notify kind' with
        | false => exact .inr (hG ev hev hon hable)
        | true =>
          rw [ReadyEvent.enable_reported, Function.update_self, hon, Bool.true_and]
          exact hs e ev kind' hev hable hon
      · rw [ReadyEvent.enable_notify, Function.update_of_ne hne] at hnotify
        rw [ReadyEvent.enable_reported, Function.update_of_ne hne]
        exact hs e ev kind' hev hable hnotify
  | disable e kind =>
    obtain ⟨ev, hev, rfl⟩ := Option.map_eq_some_iff.mp hstep
    refine iff_of_true (hs.of rfl (fun _ _ _ h => h) fun ev' hev' kind' hable hnotify => ?_) trivial
    cases hev'
    rcases eq_or_ne kind' kind with rfl | hne
    · rw [ReadyEvent.disable_notify, Function.update_self] at hnotify
      cases hnotify
    · rw [ReadyEvent.disable_notify, Function.update_of_ne hne] at hnotify
      exact hs e ev kind' hev hable hnotify
  | drop e =>
    refine iff_of_true ?_ trivial
    simp only [step] at hstep
    split at hstep
    next =>
      cases hstep
      exact hs.mono rfl fun _ _ h => h
    next =>
      cases hstep
      exact hs.of rfl (fun _ _ _ h => h) nofun
  | hold e =>
    obtain ⟨ev, -, rfl⟩ := Option.map_eq_some_iff.mp hstep
    exact iff_of_true (hs.mono rfl fun _ _ h => h) trivial
  | poll reports =>
    obtain ⟨⟨hphase, -⟩, ht⟩ := Option.ite_none_right_eq_some.mp hstep
    cases ht
    refine iff_of_true ((hs.reports reports).mono rfl fun e kind h => ?_) trivial
    obtain ⟨rest, h⟩ := inCallback_iff.mp h
    rw [(foldl_report_phase reports).1, hphase] at h
    cases h
  | next => exact iff_of_true (hs.next hstep) trivial

/-! ## The callbacks -/

theorem callback_eq_some {ev : ReadyEvent} {kind : Readiness} (h : ev.callback = some kind) :
    ev.able kind = true ∧ ev.notify kind = true := by
  unfold ReadyEvent.callback at h
  split at h
  next hread =>
    cases h
    exact (Bool.and_eq_true ..).mp hread
  next =>
    split at h
    next hwrite =>
      cases h
      exact (Bool.and_eq_true ..).mp hwrite
    next => cases h

/-- A step runs no callback, or `Do` of the next event runs one. -/
theorem step_calls {a : EventLoopAction E} (hstep : s.step a = some t) :
    t.calls = s.calls ∨ ∃ e rest ev kind, s.phase = .batch (e :: rest) ∧ s.events e = some ev ∧
      ev.callback = some kind ∧
      t.calls = s.calls ++ [⟨e, kind, true, ev.notify kind, ev.reported kind⟩] := by
  cases a with
  | create e =>
    obtain ⟨-, ht⟩ := Option.ite_none_right_eq_some.mp hstep
    cases ht
    exact .inl rfl
  | enable e kind | disable e kind | hold e =>
    obtain ⟨ev, -, rfl⟩ := Option.map_eq_some_iff.mp hstep
    exact .inl rfl
  | drop e =>
    simp only [step] at hstep
    split at hstep
    all_goals
      cases hstep
      exact .inl rfl
  | poll reports =>
    obtain ⟨-, ht⟩ := Option.ite_none_right_eq_some.mp hstep
    cases ht
    exact .inl (foldl_report_phase reports).2
  | next =>
    simp only [step, EventLoopRun.next] at hstep
    split at hstep
    next => cases hstep
    next =>
      cases hstep
      exact .inl rfl
    next e rest hphase =>
      split at hstep
      next =>
        cases hstep
        exact .inl rfl
      next ev hev =>
        split at hstep
        next =>
          cases hstep
          exact .inl rfl
        next kind hkind =>
          cases hstep
          exact .inr ⟨e, rest, ev, kind, hphase, hev, hkind, by rw [hev]; rfl⟩
    next =>
      cases hstep
      exact .inl rfl

theorem RightCalls.step {a : EventLoopAction E} (h : s.RightCalls) (hs : s.NoStale)
    (hstep : s.step a = some t) : t.RightCalls := by
  rcases step_calls hstep with hcalls | ⟨e, rest, ev, kind, hphase, hev, hkind, hcalls⟩
  · rwa [RightCalls, hcalls]
  · intro call hcall
    rw [hcalls] at hcall
    rcases List.mem_append.mp hcall with hcall | hcall
    · exact h call hcall
    · obtain rfl := List.mem_singleton.mp hcall
      obtain ⟨hable, hnotify⟩ := callback_eq_some hkind
      -- between two iterations no callback is running
      refine ⟨rfl, hnotify, (hs e ev kind hev hable hnotify).resolve_right fun hin => ?_⟩
      obtain ⟨rest', hin⟩ := inCallback_iff.mp hin
      exact absurd (hphase.symm.trans hin) nofun

/-! ## Runs -/

/-- No state of a run has a stale flag exactly when no step turns a notification on while its flag
is set, the callback of that flag apart; and then every callback of the run is run for an event that
is alive, with its notification on, and reported since that was turned on. -/
theorem eventLoop_law {as : List (EventLoopAction E)}
    (hrun : ((system (E := E)).run new as).isSome) :
    (system.AllStates NoStale new as ↔ system.AllSteps EnablesCleared new as) ∧
      (system.AllSteps EnablesCleared new as → system.AllStates RightCalls new as) := by
  refine ⟨?_, fun hG => ?_⟩
  · exact System.allStates_iff_allSteps (I := fun _ => True) (L := fun _ => True)
      noStale_new trivial (fun _ _ _ _ _ => trivial)
      (fun s a t _ hs _ hstep => noStale_iff hs hstep) (fun _ _ => trivial) hrun
  · have hboth := hG.allStates (P := fun s => NoStale s ∧ RightCalls s) ⟨noStale_new, nofun⟩
      fun s a t hs hG hstep => ⟨(noStale_iff hs.1 hstep).mpr hG, hs.2.step hs.1 hstep⟩
    exact hboth.imp fun s hs => hs.2

/-- Events 0 and 1 wait until they can be read. Both are reported, and the callback of event 0 turns
the notification of event 1 off. -/
def turnsOff : List (EventLoopAction Nat) :=
  [.create 0, .create 1, .enable 0 .read, .enable 1 .read, .poll [(0, .read), (1, .read)], .next,
    .disable 1 .read, .next, .next, .next]

/-- Event 1 is turned on again by its own callback. -/
theorem eventLoop_law_ownCallback :
    system.AllStates RightCalls new (turnsOff.take 6 ++ [.next, .next, .disable 1 .read,
      .enable 1 .read, .next, .next, .poll [(1, .read)], .next]) :=
  (eventLoop_law (by decide)).2 (by decide)

/-- Later the notifications of event 1 are turned on and it is reported as writable. Its read
callback runs, and nobody has reported that it can be read. -/
theorem stale_read_callback : ∃ s, system.Reachable s ∧ ¬ RightCalls s ∧
    (⟨1, .read, true, true, false⟩ : CallbackCall Nat) ∈ s.calls := by
  obtain ⟨s, hrun⟩ := Option.isSome_iff_exists.mp (show (system.run new (turnsOff ++
    [.enable 1 .read, .enable 1 .write, .poll [(1, .write)], .next])).isSome by decide)
  have hcalls : (system.run new (turnsOff ++
      [.enable 1 .read, .enable 1 .write, .poll [(1, .write)], .next])).map EventLoopRun.calls =
      some [⟨0, .read, true, true, true⟩, ⟨1, .read, true, true, false⟩] := by decide
  rw [hrun] at hcalls
  have hmem : (⟨1, .read, true, true, false⟩ : CallbackCall Nat) ∈ s.calls := by
    rw [Option.some.inj hcalls]
    decide
  exact ⟨s, System.reachable_of_run hrun, fun h => absurd (h _ hmem).2.2 nofun, hmem⟩

end EventLoopRun

end Sheep
