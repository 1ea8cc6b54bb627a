import Mathlib.Data.Finset.Card
import Mathlib.Logic.Function.Basic
import Sheep.Lib.OrderedMap
import Sheep.Lib.System

/-!
# `TimerPoller`

The poller of the timers' events (`net/common/poller/timer_poller.cpp`). An event is kept under its
deadline and its id in a map of maps, and its id also in a set.

`Keeps`: the two structures hold a set of events. The methods do to it what they say: an update
adds the event and a removal takes it out, whatever the poller held before.
-/

namespace Sheep

instance linearOrderInt64 : LinearOrder Int64 where
  le_refl _ := Int64.le_refl _
  le_trans _ _ _ := Int64.le_trans
  le_antisymm _ _ := Int64.le_antisymm
  le_total := Int64.le_total
  lt_iff_le_not_ge a b := by
    rw [Int64.not_le]
    exact ⟨fun h => ⟨Int64.le_of_lt h, h⟩, fun h => h.2⟩
  toDecidableLE := inferInstance
  toDecidableEq := inferInstance
  toDecidableLT := inferInstance

/-- The events that a poller is given. `GetFd` and `GetId` of an event never change, and no two
events have one id. -/
structure PolledEvents (E : Type) where
  getFd : E → Int64
  getId : E → Int64
  unique : Function.Injective getId

structure TimerPoller (E : Type) where
  /-- deadline, id, event -/
  events : OrderedMap Int64 (OrderedMap Int64 E)
  eventSet : Finset Int64

inductive PollerAction (E : Type)
  | updateEvent (e : E)
  | removeEvent (e : E)
  deriving DecidableEq, Repr

namespace TimerPoller

variable {E : Type} (ev : PolledEvents E)

def new : TimerPoller E := ⟨.empty, ∅⟩

/-- `removeEvent`; `none` is `LOG(FATAL)`. -/
def removeEvent (e : E) (p : TimerPoller E) : Option (TimerPoller E) :=
  let timeFd := ev.getFd e
  let id := ev.getId e
  if id ∈ p.eventSet then
    match p.events.find timeFd with
    | none => none
    | some map =>
      -- map has one element, delete map
      if map.size = 1 then some ⟨p.events.erase timeFd, p.eventSet.erase id⟩
      else some ⟨p.events.modify timeFd fun map => map.erase id, p.eventSet.erase id⟩
  else some p

/-- `updateEvent` of an event whose id is not in the set. -/
def addEvent (e : E) (p : TimerPoller E) : TimerPoller E :=
  let timeFd := ev.getFd e
  let id := ev.getId e
  let events :=
    match p.events.find timeFd with
    | none => p.events.insert timeFd (OrderedMap.empty.insert id e)
    | some _ => p.events.modify timeFd fun map => map.insert id e
  ⟨events, insert id p.eventSet⟩

theorem removeEvent_eventSet {e : E} {p q : TimerPoller E} (h : p.removeEvent ev e = some q) :
    q.eventSet = p.eventSet.erase (ev.getId e) := by
  simp only [removeEvent] at h
  split at h
  next =>
    split at h
    next => cases h
    next =>
      split at h
      all_goals
        cases h
        rfl
  next hid =>
    cases h
    exact (Finset.erase_eq_of_notMem hid).symm

/-- `updateEvent`: an event that exists is removed and added. -/
def updateEvent (e : E) (p : TimerPoller E) : Option (TimerPoller E) :=
  if ev.getId e ∈ p.eventSet then
    match _h : p.removeEvent ev e with
    | none => none
    | some q => q.updateEvent e
  else some (p.addEvent ev e)
termination_by p.eventSet.card
decreasing_by
  rw [removeEvent_eventSet ev _h]
  exact Finset.card_erase_lt_of_mem ‹_›

def step (p : TimerPoller E) : PollerAction E → Option (TimerPoller E)
  | .updateEvent e => p.updateEvent ev e
  | .removeEvent e => p.removeEvent ev e

def system : System (TimerPoller E) (PollerAction E) := ⟨new, step ev⟩

/-- The events before `upper_bound(now)`, in the order of the maps. -/
def tmpEvents (now : Int64) (p : TimerPoller E) : List E :=
  (p.events.upTo now).flatMap fun x => x.2.entries.map Prod.snd

/-- The loop over `tmpEvents`; `live` is whether `weakEvent.lock()` finds the event. -/
def pollLoop [DecidableEq E] (live : E → Bool) : List E → (E → Bool) → List E → (E → Bool) × List E
  | [], readAble, events => (readAble, events)
  | e :: rest, readAble, events =>
    if live e then pollLoop live rest (Function.update readAble e true) (events ++ [e])
    else pollLoop live rest readAble events

/-- `Poll`: the poller, the `readAble_` flags of the events and the events returned. -/
def poll [DecidableEq E] (now : UInt64) (live readAble : E → Bool) (p : TimerPoller E) :
    TimerPoller E × (E → Bool) × List E :=
  (p, pollLoop live (p.tmpEvents now.toInt64) readAble [])

/-! ## What the poller holds -/

/-- The set of events after an action, by what the action is for. -/
def hold [DecidableEq E] (S : Finset E) : PollerAction E → Finset E
  | .updateEvent e => insert e S
  | .removeEvent e => S.erase e

/-- The event is in the map of its deadline, under its id. -/
def Present (p : TimerPoller E) (e : E) : Prop :=
  ∃ map, p.events.find (ev.getFd e) = some map ∧ map.find (ev.getId e) = some e

/-- The set and the maps agree, every id is in one map, that of its event's deadline, and no map is
empty. -/
structure InStep (p : TimerPoller E) : Prop where
  ids : ∀ id, id ∈ p.eventSet ↔ ∃ timeFd map e,
    p.events.find timeFd = some map ∧ map.find id = some e
  own : ∀ timeFd map id e, p.events.find timeFd = some map → map.find id = some e →
    ev.getId e = id ∧ ev.getFd e = timeFd
  once : ∀ id ∈ p.eventSet, ∃! timeFd, ∃ map,
    p.events.find timeFd = some map ∧ (map.find id).isSome
  nonempty : ∀ timeFd map, p.events.find timeFd = some map → map.entries ≠ []

/-- `a` is due before `b`, or at the same time and has the smaller id. -/
def Before (a b : E) : Prop :=
  ev.getFd a < ev.getFd b ∨ ev.getFd a = ev.getFd b ∧ ev.getId a < ev.getId b

/-- The poller holds the events of `S`. -/
structure Keeps (p : TimerPoller E) (S : Finset E) : Prop where
  ids : ∀ id, id ∈ p.eventSet ↔ ∃ e ∈ S, ev.getId e = id
  mem : ∀ e ∈ S, p.Present ev e
  own : ∀ timeFd map id e, p.events.find timeFd = some map → map.find id = some e →
    e ∈ S ∧ ev.getId e = id ∧ ev.getFd e = timeFd
  nonempty : ∀ timeFd map, p.events.find timeFd = some map → map.entries ≠ []

variable {ev} {p : TimerPoller E} {S : Finset E}

theorem Keeps.inStep (h : p.Keeps ev S) : p.InStep ev where
  ids id := by
    rw [h.ids]
    constructor
    · rintro ⟨e, he, rfl⟩
      obtain ⟨map, hmap, hfind⟩ := h.mem e he
      exact ⟨_, map, e, hmap, hfind⟩
    · rintro ⟨timeFd, map, e, hmap, hfind⟩
      obtain ⟨he, hid, -⟩ := h.own timeFd map id e hmap hfind
      exact ⟨e, he, hid⟩
  own timeFd map id e hmap hfind := (h.own timeFd map id e hmap hfind).2
  once id hid := by
    obtain ⟨e, he, rfl⟩ := (h.ids id).mp hid
    obtain ⟨map, hmap, hfind⟩ := h.mem e he
    refine ⟨ev.getFd e, ⟨map, hmap, by rw [hfind]; rfl⟩, ?_⟩
    rintro timeFd ⟨map', hmap', hsome⟩
    obtain ⟨e', hfind'⟩ := Option.isSome_iff_exists.mp hsome
    obtain ⟨-, hid', hfd'⟩ := h.own timeFd map' _ e' hmap' hfind'
    rw [← hfd', ev.unique hid']
  nonempty := h.nonempty

theorem Keeps.present_iff (h : p.Keeps ev S) (e : E) : p.Present ev e ↔ e ∈ S :=
  ⟨fun ⟨map, hmap, hfind⟩ => (h.own _ map _ e hmap hfind).1, h.mem e⟩

theorem keeps_new : (new : TimerPoller E).Keeps ev ∅ where
  ids := by simp [new]
  mem := by simp
  own := by simp [new]
  nonempty := by simp [new]

/-! ## The methods -/

theorem Keeps.id_mem_iff (h : p.Keeps ev S) (e : E) : ev.getId e ∈ p.eventSet ↔ e ∈ S := by
  rw [h.ids]
  constructor
  · rintro ⟨e', he', hid⟩
    exact ev.unique hid ▸ he'
  · exact fun he => ⟨e, he, rfl⟩

/-- Only the map of one deadline becomes another one, and it holds the events of `T` with that
deadline. -/
theorem Keeps.replace (h : p.Keeps ev S) {q : TimerPoller E} {T : Finset E} {timeFd : Int64}
    (bucket : Option (OrderedMap Int64 E))
    (hids : ∀ id, id ∈ q.eventSet ↔ ∃ e ∈ T, ev.getId e = id)
    (hfind : ∀ d, q.events.find d = if d = timeFd then bucket else p.events.find d)
    (hother : ∀ e, ev.getFd e ≠ timeFd → (e ∈ T ↔ e ∈ S))
    (hmem : ∀ e ∈ T, ev.getFd e = timeFd →
      ∃ map, bucket = some map ∧ map.find (ev.getId e) = some e)
    (hown : ∀ map, bucket = some map → map.entries ≠ [] ∧
      ∀ id e, map.find id = some e → e ∈ T ∧ ev.getId e = id ∧ ev.getFd e = timeFd) :
    q.Keeps ev T where
  ids := hids
  mem e he := by
    rcases eq_or_ne (ev.getFd e) timeFd with hfd | hfd
    · obtain ⟨map, hmap, hid⟩ := hmem e he hfd
      exact ⟨map, by rw [hfind, if_pos hfd, hmap], hid⟩
    · obtain ⟨map, hmap, hid⟩ := h.mem e ((hother e hfd).mp he)
      exact ⟨map, by rw [hfind, if_neg hfd, hmap], hid⟩
  own d map id e hmap hid := by
    rw [hfind] at hmap
    split at hmap
    next hd => exact hd ▸ (hown map hmap).2 id e hid
    next hd =>
      obtain ⟨he, hid, hfd⟩ := h.own d map id e hmap hid
      exact ⟨(hother e (hfd ▸ hd)).mpr he, hid, hfd⟩
  nonempty d map hmap := by
    rw [hfind] at hmap
    split at hmap
    next => exact (hown map hmap).1
    next => exact h.nonempty d map hmap

variable [DecidableEq E]

theorem Keeps.ids_erase (h : p.Keeps ev S) (e : E) (id : Int64) :
    id ∈ p.eventSet.erase (ev.getId e) ↔ ∃ e' ∈ S.erase e, ev.getId e' = id := by
  rw [Finset.mem_erase, h.ids]
  constructor
  · rintro ⟨hne, e', he', rfl⟩
    exact ⟨e', Finset.mem_erase.mpr ⟨fun heq => hne (heq ▸ rfl), he'⟩, rfl⟩
  · rintro ⟨e', he', rfl⟩
    obtain ⟨hne, he'⟩ := Finset.mem_erase.mp he'
    exact ⟨fun hid => hne (ev.unique hid), e', he', rfl⟩

theorem Keeps.ids_insert (h : p.Keeps ev S) (e : E) (id : Int64) :
    id ∈ insert (ev.getId e) p.eventSet ↔ ∃ e' ∈ insert e S, ev.getId e' = id := by
  rw [Finset.mem_insert, h.ids]
  constructor
  · rintro (rfl | ⟨e', he', rfl⟩)
    · exact ⟨e, Finset.mem_insert_self e S, rfl⟩
    · exact ⟨e', Finset.mem_insert_of_mem he', rfl⟩
  · rintro ⟨e', he', rfl⟩
    rcases Finset.mem_insert.mp he' with rfl | he'
    · exact .inl rfl
    · exact .inr ⟨e', he', rfl⟩

theorem mem_erase_of_getFd_ne {e e' : E} (h : ev.getFd e' ≠ ev.getFd e) :
    e' ∈ S.erase e ↔ e' ∈ S := by
  rw [Finset.mem_erase]
  exact ⟨fun h' => h'.2, fun he => ⟨fun heq => h (heq ▸ rfl), he⟩⟩

/-- A removal takes the event out. `LOG(FATAL)` is not reached. -/
theorem Keeps.removeEvent (h : p.Keeps ev S) (e : E) :
    ∃ q, p.removeEvent ev e = some q ∧ q.Keeps ev (S.erase e) := by
  simp only [TimerPoller.removeEvent, h.id_mem_iff]
  split
  next he =>
    obtain ⟨map, hmap, hid⟩ := h.mem e he
    simp only [hmap]
    split
    next hsize =>
      -- the only entry of the map is that of the event
      refine ⟨_, rfl, h.replace none (h.ids_erase e) (p.events.find_erase _)
        (fun _ => mem_erase_of_getFd_ne) ?_ nofun⟩
      intro e' he' hfd
      obtain ⟨hne, he'⟩ := Finset.mem_erase.mp he'
      obtain ⟨map', hmap', hid'⟩ := h.mem e' he'
      rw [hfd, hmap] at hmap'
      cases hmap'
      exact absurd (OrderedMap.eq_of_size_one hsize hid hid').2 hne
    next hsize =>
      refine ⟨_, rfl, h.replace (some (map.erase (ev.getId e))) (h.ids_erase e)
        (fun d => ?_) (fun _ => mem_erase_of_getFd_ne) ?_ ?_⟩
      · rw [OrderedMap.find_modify, hmap]
        rfl
      · intro e' he' hfd
        obtain ⟨hne, he'⟩ := Finset.mem_erase.mp he'
        obtain ⟨map', hmap', hid'⟩ := h.mem e' he'
        rw [hfd, hmap] at hmap'
        cases hmap'
        exact ⟨_, rfl, by rw [OrderedMap.find_erase, if_neg fun h => hne (ev.unique h), hid']⟩
      · rintro _ ⟨⟩
        refine ⟨OrderedMap.erase_entries_ne_nil hid hsize, fun id e' hid' => ?_⟩
        rw [OrderedMap.find_erase] at hid'
        split at hid'
        next => cases hid'
        next hne =>
          obtain ⟨he', rfl, hfd⟩ := h.own _ map id e' hmap hid'
          exact ⟨Finset.mem_erase.mpr ⟨fun heq => hne (heq ▸ rfl), he'⟩, rfl, hfd⟩
  next he =>
    rw [Finset.erase_eq_of_notMem he]
    exact ⟨p, rfl, h⟩

/-- The map of the deadline gets the entry of a new event. -/
theorem Keeps.addEvent_bucket (h : p.Keeps ev S) {e : E} (he : e ∉ S) {q : TimerPoller E}
    (map : OrderedMap Int64 E)
    (hmap : p.events.find (ev.getFd e) = some map ∨
      p.events.find (ev.getFd e) = none ∧ map = .empty)
    (hset : q.eventSet = insert (ev.getId e) p.eventSet)
    (hfind : ∀ d, q.events.find d =
      if d = ev.getFd e then some (map.insert (ev.getId e) e) else p.events.find d) :
    q.Keeps ev (insert e S) := by
  have hown : ∀ id e', map.find id = some e' →
      e' ∈ S ∧ ev.getId e' = id ∧ ev.getFd e' = ev.getFd e := by
    rcases hmap with hmap | ⟨-, rfl⟩
    · exact fun id e' hid => h.own _ map id e' hmap hid
    · exact nofun
  have habsent : map.find (ev.getId e) = none := by
    rw [Option.eq_none_iff_forall_ne_some]
    intro e' hid
    obtain ⟨he', hid', -⟩ := hown _ e' hid
    exact he (ev.unique hid' ▸ he')
  refine h.replace _ (fun id => hset ▸ h.ids_insert e id) hfind (fun e' hfd => ?_) ?_ ?_
  · have hne : e' ≠ e := fun heq => hfd (by rw [heq])
    rw [Finset.mem_insert, or_iff_right hne]
  · intro e' he' hfd
    refine ⟨_, rfl, ?_⟩
    rw [OrderedMap.find_insert habsent]
    rcases Finset.mem_insert.mp he' with rfl | he'
    · rw [if_pos rfl]
    · have hne : ev.getId e' ≠ ev.getId e := fun hid => he (ev.unique hid ▸ he')
      rw [if_neg hne]
      obtain ⟨map', hmap', hid'⟩ := h.mem e' he'
      rw [hfd] at hmap'
      rcases hmap with hmap | ⟨hmap, -⟩
      · rw [hmap] at hmap'
        cases hmap'
        exact hid'
      · rw [hmap] at hmap'
        cases hmap'
  · rintro _ ⟨⟩
    refine ⟨?_, fun id e' hid => ?_⟩
    · exact List.ne_nil_of_mem ((OrderedMap.mem_insert habsent).mpr (.inl rfl))
    · rw [OrderedMap.find_insert habsent] at hid
      split at hid
      next heq =>
        cases hid
        exact ⟨Finset.mem_insert_self _ _, heq.symm, rfl⟩
      next =>
        obtain ⟨he', hid', hfd⟩ := hown id e' hid
        exact ⟨Finset.mem_insert_of_mem he', hid', hfd⟩

theorem Keeps.addEvent (h : p.Keeps ev S) {e : E} (he : e ∉ S) :
    (p.addEvent ev e).Keeps ev (insert e S) := by
  cases hmap : p.events.find (ev.getFd e) with
  | none =>
    refine h.addEvent_bucket he .empty (.inr ⟨hmap, rfl⟩) rfl fun d => ?_
    simp only [TimerPoller.addEvent, hmap, OrderedMap.find_insert hmap]
  | some map =>
    refine h.addEvent_bucket he map (.inl hmap) rfl fun d => ?_
    simp only [TimerPoller.addEvent, hmap, OrderedMap.find_modify, Option.map_some]

/-- An update adds the event, or leaves it where it is. -/
theorem Keeps.updateEvent (h : p.Keeps ev S) (e : E) :
    ∃ q, p.updateEvent ev e = some q ∧ q.Keeps ev (insert e S) := by
  rw [TimerPoller.updateEvent]
  split
  next he =>
    obtain ⟨r, hr, hkeeps⟩ := h.removeEvent e
    have hnot : e ∉ S.erase e := Finset.notMem_erase e S
    refine ⟨r.addEvent ev e, ?_, ?_⟩
    · split
      next hnone => exact absurd (hnone.symm.trans hr) nofun
      next r' hr' =>
        obtain rfl := Option.some.inj (hr.symm.trans hr')
        rw [TimerPoller.updateEvent, if_neg fun hid => hnot ((hkeeps.id_mem_iff e).mp hid)]
    · have hadd := hkeeps.addEvent hnot
      rwa [Finset.insert_erase ((h.id_mem_iff e).mp he), ← Finset.insert_eq_of_mem
        ((h.id_mem_iff e).mp he)] at hadd
  next he => exact ⟨_, rfl, h.addEvent fun hin => he ((h.id_mem_iff e).mpr hin)⟩

theorem Keeps.step (h : p.Keeps ev S) (a : PollerAction E) :
    ∃ q, p.step ev a = some q ∧ q.Keeps ev (hold S a) := by
  cases a with
  | updateEvent e => exact h.updateEvent e
  | removeEvent e => exact h.removeEvent e

theorem Keeps.run (h : p.Keeps ev S) (as : List (PollerAction E)) :
    ∃ q, (system ev).run p as = some q ∧ q.Keeps ev (as.foldl hold S) := by
  induction as generalizing p S with
  | nil => exact ⟨p, rfl, h⟩
  | cons a as ih =>
    obtain ⟨q, hq, hkeeps⟩ := h.step a
    obtain ⟨r, hr, hkeeps'⟩ := ih hkeeps
    exact ⟨r, Option.bind_eq_some_iff.mpr ⟨q, hq, hr⟩, hkeeps'⟩

/-! ## `Poll` -/

theorem pollLoop_eq (live : E → Bool) (tmpEvents : List E) (readAble : E → Bool)
    (events : List E) :
    pollLoop live tmpEvents readAble events =
      (fun e => readAble e || decide (e ∈ tmpEvents.filter live),
        events ++ tmpEvents.filter live) := by
  induction tmpEvents generalizing readAble events with
  | nil => simp [pollLoop]
  | cons e rest ih =>
    rw [pollLoop]
    cases hlive : live e with
    | false => simp [ih, hlive]
    | true =>
      rw [if_pos rfl, ih]
      simp only [hlive, List.filter_cons_of_pos, List.append_assoc, List.singleton_append,
        Prod.mk.injEq, and_true]
      funext e'
      rcases eq_or_ne e' e with rfl | hne
      · simp
      · simp [hne]

omit [DecidableEq E] in
theorem Keeps.mem_tmpEvents (h : p.Keeps ev S) (now : Int64) (e : E) :
    e ∈ p.tmpEvents now ↔ e ∈ S ∧ ev.getFd e ≤ now := by
  simp only [tmpEvents, List.mem_flatMap, List.mem_map, OrderedMap.mem_upTo, Prod.exists]
  constructor
  · rintro ⟨timeFd, map, ⟨hmap, hle⟩, id, e', hid, rfl⟩
    rw [OrderedMap.mem_iff] at hmap hid
    obtain ⟨he, -, rfl⟩ := h.own timeFd map id e' hmap hid
    exact ⟨he, hle⟩
  · rintro ⟨he, hle⟩
    obtain ⟨map, hmap, hid⟩ := h.mem e he
    rw [← OrderedMap.mem_iff] at hmap hid
    exact ⟨_, map, ⟨hmap, hle⟩, _, e, hid, rfl⟩

omit [DecidableEq E] in
theorem Keeps.tmpEvents_sorted (h : p.Keeps ev S) (now : Int64) :
    (p.tmpEvents now).Pairwise (Before ev) := by
  refine List.pairwise_flatMap.mpr ⟨fun ⟨timeFd, map⟩ hmap => ?_, ?_⟩
  · -- in one map the deadlines are equal and the ids grow
    have hmap' := OrderedMap.mem_iff.mp (OrderedMap.mem_upTo.mp hmap).1
    refine List.pairwise_map.mpr (map.sorted.imp_of_mem fun {x y} hx hy hlt => .inr ?_)
    obtain ⟨-, hidx, hfdx⟩ := h.own timeFd map x.1 x.2 hmap' (OrderedMap.mem_iff.mp hx)
    obtain ⟨-, hidy, hfdy⟩ := h.own timeFd map y.1 y.2 hmap' (OrderedMap.mem_iff.mp hy)
    exact ⟨hfdx.trans hfdy.symm, by rwa [hidx, hidy]⟩
  · -- an earlier map has an earlier deadline
    refine (p.events.sorted.sublist (p.events.upTo_sublist now)).imp_of_mem ?_
    rintro ⟨timeFd, map⟩ ⟨timeFd', map'⟩ hmap hmap' hlt a ha b hb
    obtain ⟨⟨id, a⟩, hx, rfl⟩ := List.mem_map.mp ha
    obtain ⟨⟨id', b⟩, hy, rfl⟩ := List.mem_map.mp hb
    have hfd := (h.own timeFd map id a (OrderedMap.mem_iff.mp (OrderedMap.mem_upTo.mp hmap).1)
      (OrderedMap.mem_iff.mp hx)).2.2
    have hfd' := (h.own timeFd' map' id' b (OrderedMap.mem_iff.mp (OrderedMap.mem_upTo.mp hmap').1)
      (OrderedMap.mem_iff.mp hy)).2.2
    exact .inl (by rwa [hfd, hfd'])

/-- `Poll` returns the live events that are present and due, in the order of their deadlines and
ids, sets the flag of these, and changes nothing in the poller. -/
structure Polls (ev : PolledEvents E) (p : TimerPoller E) (now : UInt64)
    (live readAble : E → Bool) : Prop where
  stays : (p.poll now live readAble).1 = p
  mem : ∀ e, e ∈ (p.poll now live readAble).2.2 ↔
    p.Present ev e ∧ live e = true ∧ ev.getFd e ≤ now.toInt64
  sorted : (p.poll now live readAble).2.2.Pairwise (Before ev)
  readAble : ∀ e, (p.poll now live readAble).2.1 e = true ↔
    readAble e = true ∨ e ∈ (p.poll now live readAble).2.2

theorem Keeps.polls (h : p.Keeps ev S) (now : UInt64) (live readAble : E → Bool) :
    p.Polls ev now live readAble := by
  have hpoll : p.poll now live readAble =
      (p, fun e => readAble e || decide (e ∈ (p.tmpEvents now.toInt64).filter live),
        (p.tmpEvents now.toInt64).filter live) := by
    rw [poll, pollLoop_eq]
    rfl
  refine ⟨by rw [hpoll], fun e => ?_, ?_, fun e => ?_⟩
  · rw [hpoll, List.mem_filter, h.mem_tmpEvents, h.present_iff]
    exact ⟨fun ⟨⟨he, hle⟩, hlive⟩ => ⟨he, hlive, hle⟩, fun ⟨he, hlive, hle⟩ => ⟨⟨he, hle⟩, hlive⟩⟩
  · rw [hpoll]
    exact (h.tmpEvents_sorted _).filter _
  · rw [hpoll]
    simp

/-- Whatever is updated and removed, in any order: `LOG(FATAL)` is not reached, the set and the maps
agree, the events present are those whose last update comes after their last removal, and `Poll`
returns those of them that are alive and due. -/
theorem timerPoller_law (ev : PolledEvents E) (as : List (PollerAction E)) :
    ∃ p, (system ev).run new as = some p ∧ p.InStep ev ∧
      (∀ e, p.Present ev e ↔ e ∈ as.foldl hold ∅) ∧
      ∀ now live readAble, p.Polls ev now live readAble := by
  obtain ⟨p, hrun, hkeeps⟩ := keeps_new.run as
  exact ⟨p, hrun, hkeeps.inStep, hkeeps.present_iff, fun now live readAble =>
    hkeeps.polls now live readAble⟩

end TimerPoller

end Sheep
