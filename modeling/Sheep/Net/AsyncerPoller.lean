import Mathlib.Data.Fintype.EquivFin
import Mathlib.Data.List.Nodup
import Sheep.Net.TimerPoller

/-!
# `AsyncerPoller`

The poller of the asyncers' events (`net/common/poller/asyncer_poller.cpp`): a list of weak
pointers, and a map from the ids to the list's iterators. An iterator is the address of a node. An
address that was freed may be given to a later node, so an iterator that is kept too long may point
to a node that is not the one it was made for.

`Holds`: the two structures hold a list of events without repetitions, oldest update first.

`Poll` goes over a copy of the list. It holds a `shared_ptr` to one event after the other, and where
that one is the last, `~Event` calls `RemoveEvent` before the loop goes on; the lock is recursive.
-/

namespace Sheep

/-- The addresses of the list's nodes: the `n`-th one is any that is not in use. -/
structure NodeAllocator (A : Type) where
  alloc : Nat → List A → A
  fresh : ∀ n used, alloc n used ∉ used

structure EventNode (A E : Type) where
  addr : A
  event : E
  deriving DecidableEq, Repr

structure AsyncerPoller (A E : Type) where
  events : List (EventNode A E)
  eventMap : Int64 → Option A
  /-- the nodes made so far -/
  nodes : Nat

/-- What `weakEvent.lock()` finds in an iteration of `Poll`: no event, one that others hold until
the iteration is over, or one whose last other `shared_ptr` goes in between. -/
inductive Locked
  | expired
  | kept
  | dropped
  deriving DecidableEq, Repr

inductive AsyncerPollerAction (E : Type)
  | updateEvent (e : E)
  | removeEvent (e : E)
  /-- `readNotify` is what `~Event` looks at -/
  | poll (lock : E → Locked) (readNotify : E → Bool)

namespace AsyncerPoller

variable {A E : Type} [DecidableEq A] (al : NodeAllocator A) (ev : PolledEvents E)

def new : AsyncerPoller A E := ⟨[], fun _ => none, 0⟩

/-- `std::list::erase`; `none` is an iterator that does not point to a node of the list. -/
def erase (iter : A) (events : List (EventNode A E)) : Option (List (EventNode A E)) :=
  if iter ∈ events.map EventNode.addr then
    some (events.filter fun node => decide (node.addr ≠ iter))
  else none

def removeEvent (e : E) (p : AsyncerPoller A E) : Option (AsyncerPoller A E) :=
  let id := ev.getId e
  match p.eventMap id with
  | none => some p
  | some iter =>
    (erase iter p.events).map fun events =>
      { p with events := events, eventMap := Function.update p.eventMap id none }

/-- `updateEvent` of an event whose id is not in the map. The iterator is that of the last node. -/
def addEvent (e : E) (p : AsyncerPoller A E) : AsyncerPoller A E :=
  let events := p.events ++ [⟨al.alloc p.nodes (p.events.map EventNode.addr), e⟩]
  let iter := events.getLast?.map EventNode.addr
  ⟨events, Function.update p.eventMap (ev.getId e) iter, p.nodes + 1⟩

theorem removeEvent_eventMap {e : E} {p q : AsyncerPoller A E}
    (h : p.removeEvent ev e = some q) : q.eventMap (ev.getId e) = none := by
  simp only [removeEvent] at h
  split at h
  next hnone =>
    cases h
    exact hnone
  next =>
    obtain ⟨events, -, rfl⟩ := Option.map_eq_some_iff.mp h
    exact Function.update_self ..

/-- `updateEvent`: an event that exists is removed and added. -/
def updateEvent (e : E) (p : AsyncerPoller A E) : Option (AsyncerPoller A E) :=
  if (p.eventMap (ev.getId e)).isSome then
    match _h : p.removeEvent ev e with
    | none => none
    | some q => q.updateEvent e
  else some (p.addEvent al ev e)
termination_by (p.eventMap (ev.getId e)).isSome.toNat
decreasing_by
  simp [removeEvent_eventMap ev _h, *]

/-- The loop of `Poll` over `tmpEvents`, with the `readAble_` flags and the events to return. -/
def pollLoop [DecidableEq E] (lock : E → Locked) (readNotify : E → Bool) :
    List E → AsyncerPoller A E → (E → Bool) → List E →
      Option (AsyncerPoller A E × (E → Bool) × List E)
  | [], p, readAble, events => some (p, readAble, events)
  | e :: tmpEvents, p, readAble, events =>
    match lock e with
    | .expired => pollLoop lock readNotify tmpEvents p readAble events
    | .kept =>
      pollLoop lock readNotify tmpEvents p (Function.update readAble e true) (events ++ [e])
    | .dropped =>
      -- `~Event` at the end of the iteration
      (if readNotify e then p.removeEvent ev e else some p).bind fun p =>
        pollLoop lock readNotify tmpEvents p (Function.update readAble e true) (events ++ [e])

def poll [DecidableEq E] (lock : E → Locked) (readNotify readAble : E → Bool)
    (p : AsyncerPoller A E) : Option (AsyncerPoller A E × (E → Bool) × List E) :=
  pollLoop ev lock readNotify (p.events.map EventNode.event) p readAble []

def step [DecidableEq E] (p : AsyncerPoller A E) :
    AsyncerPollerAction E → Option (AsyncerPoller A E)
  | .updateEvent e => p.updateEvent al ev e
  | .removeEvent e => p.removeEvent ev e
  | .poll lock readNotify => (p.poll ev lock readNotify fun _ => false).map Prod.fst

def system [DecidableEq E] : System (AsyncerPoller A E) (AsyncerPollerAction E) := ⟨new, step al ev⟩

/-! ## The insertion-ordered set -/

/-- The events after an action, by what the action is for: an update moves the event to the back,
and `Poll` takes out the events that remove themselves. -/
def order [DecidableEq E] (l : List E) : AsyncerPollerAction E → List E
  | .updateEvent e => l.erase e ++ [e]
  | .removeEvent e => l.erase e
  | .poll lock readNotify => l.filter fun e => decide (lock e = .dropped → readNotify e = false)

/-- The nodes of the list are those of `l`, and the map has the iterator of each. -/
structure Holds (p : AsyncerPoller A E) (l : List E) : Prop where
  events : p.events.map EventNode.event = l
  nodup : l.Nodup
  addrs : (p.events.map EventNode.addr).Nodup
  eventMap : ∀ id iter, p.eventMap id = some iter ↔
    ∃ node ∈ p.events, node.addr = iter ∧ ev.getId node.event = id

variable {al ev} {p : AsyncerPoller A E} {l : List E}

omit [DecidableEq A] in
theorem holds_new : (new : AsyncerPoller A E).Holds ev [] where
  events := rfl
  nodup := .nil
  addrs := .nil
  eventMap := by simp [new]

/-! ## The methods -/

omit [DecidableEq A] in
theorem Holds.mem_iff (h : p.Holds ev l) (e : E) :
    e ∈ l ↔ (p.eventMap (ev.getId e)).isSome := by
  rw [← h.events, List.mem_map, Option.isSome_iff_exists]
  constructor
  · rintro ⟨node, hnode, rfl⟩
    exact ⟨node.addr, (h.eventMap _ _).mpr ⟨node, hnode, rfl, rfl⟩⟩
  · rintro ⟨iter, hiter⟩
    obtain ⟨node, hnode, -, hid⟩ := (h.eventMap _ _).mp hiter
    exact ⟨node, hnode, ev.unique hid⟩

omit [DecidableEq A] in
/-- Two nodes of the list are the same when their addresses are, and when their events are. -/
theorem Holds.addr_eq_iff (h : p.Holds ev l) {node node' : EventNode A E} (hnode : node ∈ p.events)
    (hnode' : node' ∈ p.events) : node.addr = node'.addr ↔ node.event = node'.event := by
  constructor
  · exact fun heq => congrArg _ (List.inj_on_of_nodup_map h.addrs hnode hnode' heq)
  · have hnodup : (p.events.map EventNode.event).Nodup := h.events ▸ h.nodup
    exact fun heq => congrArg _ (List.inj_on_of_nodup_map hnodup hnode hnode' heq)

variable [DecidableEq E]

/-- A removal deletes the event, and its iterator is one of the list. -/
theorem Holds.removeEvent (h : p.Holds ev l) (e : E) :
    ∃ q, p.removeEvent ev e = some q ∧ q.Holds ev (l.erase e) := by
  simp only [AsyncerPoller.removeEvent]
  split
  next hnone =>
    have he : e ∉ l := by rw [h.mem_iff, hnone]; exact nofun
    exact ⟨p, rfl, by rwa [List.erase_of_not_mem he]⟩
  next iter hiter =>
    obtain ⟨node, hnode, rfl, hid⟩ := (h.eventMap _ _).mp hiter
    obtain rfl := ev.unique hid
    have hin : node.addr ∈ p.events.map EventNode.addr := List.mem_map_of_mem hnode
    have hsub := List.filter_sublist (p := fun x => decide (x.addr ≠ node.addr)) (l := p.events)
    refine ⟨_, by rw [erase, if_pos hin]; rfl, ?_, h.nodup.erase _,
      h.addrs.sublist (hsub.map _), ?_⟩
    · rw [h.nodup.erase_eq_filter, ← h.events, List.filter_map]
      congr 1
      refine List.filter_congr fun x hx => ?_
      simp only [ne_eq, Function.comp, h.addr_eq_iff hx hnode, bne, decide_not, beq_eq_decide]
    · intro id iter
      simp only [List.mem_filter, decide_eq_true_eq]
      rcases eq_or_ne id (ev.getId node.event) with rfl | hne
      · rw [Function.update_self]
        refine iff_of_false nofun ?_
        rintro ⟨x, ⟨hx, hne⟩, -, hid⟩
        exact hne ((h.addr_eq_iff hx hnode).mpr (ev.unique hid))
      · rw [Function.update_of_ne hne, h.eventMap]
        constructor
        · rintro ⟨x, hx, hiter, rfl⟩
          refine ⟨x, ⟨hx, fun heq => hne ?_⟩, hiter, rfl⟩
          rw [(h.addr_eq_iff hx hnode).mp heq]
        · rintro ⟨x, ⟨hx, -⟩, hiter, hid⟩
          exact ⟨x, hx, hiter, hid⟩

theorem nodup_push {α : Type*} {xs : List α} {x : α} (h : xs.Nodup) (hx : x ∉ xs) :
    (xs ++ [x]).Nodup := by
  rw [← List.concat_eq_append]
  exact List.Nodup.concat hx h

omit [DecidableEq A] [DecidableEq E] in
theorem Holds.addEvent (h : p.Holds ev l) {e : E} (he : e ∉ l) :
    (p.addEvent al ev e).Holds ev (l ++ [e]) := by
  have hfresh := al.fresh p.nodes (p.events.map EventNode.addr)
  refine ⟨?_, ?_, ?_, fun id iter => ?_⟩
  · simp only [AsyncerPoller.addEvent, List.map_append, h.events, List.map_cons, List.map_nil]
  · exact nodup_push h.nodup he
  · simp only [AsyncerPoller.addEvent, List.map_append, List.map_cons, List.map_nil]
    exact nodup_push h.addrs hfresh
  · simp only [AsyncerPoller.addEvent, List.getLast?_concat, Option.map_some, List.mem_append,
      List.mem_singleton]
    rcases eq_or_ne id (ev.getId e) with rfl | hne
    · rw [Function.update_self]
      constructor
      · rintro ⟨⟩
        exact ⟨_, .inr rfl, rfl, rfl⟩
      · rintro ⟨x, hx | rfl, hiter, hid⟩
        · have hmem : x.event ∈ l := h.events ▸ List.mem_map_of_mem hx
          exact absurd (ev.unique hid ▸ hmem) he
        · exact congrArg some hiter
    · rw [Function.update_of_ne hne, h.eventMap]
      constructor
      · rintro ⟨x, hx, hx'⟩
        exact ⟨x, .inl hx, hx'⟩
      · rintro ⟨x, hx | rfl, hiter, hid⟩
        · exact ⟨x, hx, hiter, hid⟩
        · exact absurd hid.symm hne

/-- An update moves the event to the back. -/
theorem Holds.updateEvent (h : p.Holds ev l) (e : E) :
    ∃ q, p.updateEvent al ev e = some q ∧ q.Holds ev (l.erase e ++ [e]) := by
  rw [AsyncerPoller.updateEvent]
  split
  next he =>
    obtain ⟨r, hr, hholds⟩ := h.removeEvent e
    have hnot : e ∉ l.erase e := h.nodup.not_mem_erase
    refine ⟨r.addEvent al ev e, ?_, hholds.addEvent hnot⟩
    split
    next hnone => exact absurd (hnone.symm.trans hr) nofun
    next r' hr' =>
      obtain rfl := Option.some.inj (hr.symm.trans hr')
      rw [AsyncerPoller.updateEvent, if_neg fun hid => hnot ((hholds.mem_iff e).mpr hid)]
  next he =>
    have hnot : e ∉ l := fun hin => he ((h.mem_iff e).mp hin)
    rw [List.erase_of_not_mem hnot]
    exact ⟨_, rfl, h.addEvent hnot⟩

/-- What is left of the events after `Poll` has been over those of `tmpEvents`. -/
def left (lock : E → Locked) (readNotify : E → Bool) (tmpEvents l : List E) : List E :=
  l.filter fun e => decide (e ∈ tmpEvents → lock e = .dropped → readNotify e = false)

theorem left_cons_of_stays {lock : E → Locked} {readNotify : E → Bool} {e : E}
    (h : lock e = .dropped → readNotify e = false) (tmpEvents l : List E) :
    left lock readNotify (e :: tmpEvents) l = left lock readNotify tmpEvents l := by
  refine List.filter_congr fun e' _ => ?_
  simp only [List.mem_cons, decide_eq_decide]
  constructor
  · exact fun h' hin => h' (.inr hin)
  · rintro h' (rfl | hin)
    · exact h
    · exact h' hin

theorem left_cons_of_goes {lock : E → Locked} {readNotify : E → Bool} {e : E}
    (hlock : lock e = .dropped) (hnotify : readNotify e = true) (tmpEvents : List E) {l : List E}
    (hl : l.Nodup) :
    left lock readNotify (e :: tmpEvents) l = left lock readNotify tmpEvents (l.erase e) := by
  rw [hl.erase_eq_filter, left, left, List.filter_filter]
  refine List.filter_congr fun e' _ => ?_
  rw [Bool.eq_iff_iff, Bool.and_eq_true, bne_iff_ne, decide_eq_true_eq, decide_eq_true_eq,
    List.mem_cons]
  constructor
  · intro h
    refine ⟨fun hin => h (.inr hin), ?_⟩
    rintro rfl
    exact absurd ((h (.inl rfl) hlock).symm.trans hnotify) nofun
  · rintro ⟨h, hne⟩ (rfl | hin)
    · exact absurd rfl hne
    · exact h hin

/-- What `Poll` gives back: the poller has `l`, the events returned are `found`, and the flags of
these are on. -/
structure Polled (ev : PolledEvents E) (readAble : E → Bool) (l found : List E)
    (out : AsyncerPoller A E × (E → Bool) × List E) : Prop where
  holds : out.1.Holds ev l
  events : out.2.2 = found
  readAble : ∀ e, out.2.1 e = true ↔ readAble e = true ∨ e ∈ found

/-- The loop of `Poll` over the rest of the copy, with the events found so far. -/
theorem Holds.pollLoop (h : p.Holds ev l) (lock : E → Locked) (readNotify : E → Bool)
    (readAble : E → Bool) (events : List E) (hevents : ∀ e ∈ events, readAble e = true)
    (tmpEvents : List E) :
    ∃ out, AsyncerPoller.pollLoop ev lock readNotify tmpEvents p readAble events = some out ∧
      Polled ev readAble (left lock readNotify tmpEvents l)
        (events ++ tmpEvents.filter fun e => decide (lock e ≠ .expired)) out := by
  induction tmpEvents generalizing p l readAble events with
  | nil =>
    refine ⟨_, rfl, by simpa [left] using h, by simp, fun e => ?_⟩
    simpa using hevents e
  | cons e tmpEvents ih =>
    rw [AsyncerPoller.pollLoop]
    -- the iterations that find the event, with what they leave of the poller
    have hfound : ∀ {q : AsyncerPoller A E} {l' : List E}, q.Holds ev l' → lock e ≠ .expired →
        left lock readNotify tmpEvents l' = left lock readNotify (e :: tmpEvents) l →
        ∃ out, AsyncerPoller.pollLoop ev lock readNotify tmpEvents q
            (Function.update readAble e true) (events ++ [e]) = some out ∧
          Polled ev readAble (left lock readNotify (e :: tmpEvents) l)
            (events ++ (e :: tmpEvents).filter fun e => decide (lock e ≠ .expired)) out := by
      intro q l' hq hlock hl
      have hevents' : ∀ e' ∈ events ++ [e], Function.update readAble e true e' = true := by
        intro e' he'
        rcases eq_or_ne e' e with rfl | hne
        · exact Function.update_self ..
        · rw [Function.update_of_ne hne]
          rcases List.mem_append.mp he' with he' | he'
          · exact hevents e' he'
          · exact absurd (List.mem_singleton.mp he') hne
      obtain ⟨out, hout, hpolled⟩ := ih hq _ _ hevents'
      rw [List.filter_cons_of_pos (by simpa using hlock), ← hl]
      refine ⟨out, hout, hpolled.holds, by rw [hpolled.events]; simp, fun e' => ?_⟩
      rw [hpolled.readAble e']
      rcases eq_or_ne e' e with rfl | hne
      · simp
      · rw [Function.update_of_ne hne]
        simp [hne]
    split
    next hlock =>
      rw [List.filter_cons_of_neg (by simp [hlock]), left_cons_of_stays (by simp [hlock])]
      exact ih h _ _ hevents
    next hlock => exact hfound h (by simp [hlock]) (left_cons_of_stays (by simp [hlock]) ..).symm
    next hlock =>
      cases hnotify : readNotify e with
      | false =>
        exact hfound h (by simp [hlock]) (left_cons_of_stays (fun _ => hnotify) ..).symm
      | true =>
        -- `~Event` takes the event out of the list, and not out of the copy
        obtain ⟨q, hq, hholds⟩ := h.removeEvent e
        rw [if_pos rfl, hq]
        exact hfound hholds (by simp [hlock]) (left_cons_of_goes hlock hnotify _ h.nodup).symm

theorem Holds.poll (h : p.Holds ev l) (lock : E → Locked) (readNotify readAble : E → Bool) :
    ∃ out, p.poll ev lock readNotify readAble = some out ∧
      Polled ev readAble (order l (.poll lock readNotify))
        (l.filter fun e => decide (lock e ≠ .expired)) out := by
  have hleft : left lock readNotify l l = order l (.poll lock readNotify) :=
    List.filter_congr fun e he => decide_eq_decide.mpr ⟨fun h => h he, fun h _ => h⟩
  have hloop := h.pollLoop lock readNotify readAble [] nofun l
  rw [hleft, List.nil_append] at hloop
  rwa [AsyncerPoller.poll, h.events]

/-! ## Runs -/

theorem Holds.step (h : p.Holds ev l) (a : AsyncerPollerAction E) :
    ∃ q, p.step al ev a = some q ∧ q.Holds ev (order l a) := by
  cases a with
  | updateEvent e => exact h.updateEvent e
  | removeEvent e => exact h.removeEvent e
  | poll lock readNotify =>
    obtain ⟨out, hout, hpolled⟩ := h.poll lock readNotify fun _ => false
    exact ⟨out.1, by rw [AsyncerPoller.step, hout]; rfl, hpolled.holds⟩

theorem Holds.run (h : p.Holds ev l) (as : List (AsyncerPollerAction E)) :
    ∃ q, (system al ev).run p as = some q ∧ q.Holds ev (as.foldl order l) := by
  induction as generalizing p l with
  | nil => exact ⟨p, rfl, h⟩
  | cons a as ih =>
    obtain ⟨q, hq, hholds⟩ := h.step a
    obtain ⟨r, hr, hholds'⟩ := ih hholds
    exact ⟨r, Option.bind_eq_some_iff.mpr ⟨q, hq, hr⟩, hholds'⟩

/-- Whatever is updated, removed and polled, in any order, with any addresses of the nodes: no
iterator is erased that does not point into the list, the list has the events in the order of their
latest updates, and the map has the iterator of each. `Poll` returns those that it finds alive, in
that order, and what is left are those that did not remove themselves under way. -/
theorem asyncerPoller_law (al : NodeAllocator A) (ev : PolledEvents E)
    (as : List (AsyncerPollerAction E)) :
    ∃ p, (system al ev).run new as = some p ∧ p.Holds ev (as.foldl order []) ∧
      ∀ lock readNotify readAble, ∃ out, p.poll ev lock readNotify readAble = some out ∧
        Polled ev readAble (order (as.foldl order []) (.poll lock readNotify))
          ((as.foldl order []).filter fun e => decide (lock e ≠ .expired)) out := by
  obtain ⟨p, hrun, hholds⟩ : ∃ q, (system al ev).run new as = some q ∧
      q.Holds ev (as.foldl order []) := holds_new.run as
  exact ⟨p, hrun, hholds, hholds.poll⟩

/-- Gives out the lowest address that is free, also one that was in use before. -/
def lowestFree : NodeAllocator Nat where
  alloc _ used := Nat.find (Infinite.exists_notMem_finset used.toFinset)
  fresh _ used h :=
    Nat.find_spec (Infinite.exists_notMem_finset used.toFinset) (List.mem_toFinset.mpr h)

def numbered : PolledEvents Int64 := ⟨id, id, Function.injective_id⟩

/-- The event 3 gets the address that the event 1 had, and the event 2 moves behind it. -/
theorem asyncerPoller_law_addressAgain :
    ∃ p, (system lowestFree numbered).run new
        [.updateEvent 1, .updateEvent 2, .removeEvent 1, .updateEvent 3, .updateEvent 2] = some p ∧
      p.Holds numbered [3, 2] ∧
      ∃ out, p.poll numbered (fun _ => .kept) (fun _ => true) (fun _ => false) = some out ∧
        out.2.2 = [3, 2] := by
  obtain ⟨p, hrun, hholds, hpoll⟩ := asyncerPoller_law lowestFree numbered
    [.updateEvent 1, .updateEvent 2, .removeEvent 1, .updateEvent 3, .updateEvent 2]
  obtain ⟨out, hout, hpolled⟩ := hpoll (fun _ => .kept) (fun _ => true) fun _ => false
  exact ⟨p, hrun, hholds, out, hout, hpolled.events⟩

end AsyncerPoller

end Sheep
