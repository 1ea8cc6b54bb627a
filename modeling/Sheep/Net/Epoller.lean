import Mathlib.Data.Option.Basic
import Mathlib.Logic.Function.Basic
import Sheep.Lib.System
import Sheep.Net.TcpConnection

/-!
# `Epoller`

The events of one epoll poller (`net/common/event.cpp`, `net/common/poller/epoller.cpp`) and the
interest set of the kernel. `Epoller::events_` holds a weak pointer for each descriptor, and
`UpdateEvent` chooses `EPOLL_CTL_ADD` or `EPOLL_CTL_MOD` by whether that pointer is alive. The
result of `epoll_ctl` is not looked at.

`Follows`: the interest set is the one that the flags of the live events ask for.
`interest_follows`: it is so after every operation, and no call of `epoll_ctl` adds a descriptor
that is there or modifies one that is not. What carries it is `Tracks.slot`: the weak pointer of a
descriptor is alive exactly when its event has a flag.
-/

namespace Sheep

/-- The identity of an `Event` object: `id_`, from `EventIdCreator`. -/
abbrev EventId := Nat

/-- The bits of `epoll_event.events` that the code sets. -/
structure EpollMask where
  epollin : Bool
  epollout : Bool
  deriving DecidableEq, Repr

/-- An `Event` with the descriptor that it asks the poller for. -/
structure FdEvent extends Event where
  fd : Int
  deriving DecidableEq, Repr

namespace FdEvent

def notified (e : FdEvent) : Bool := e.readNotify || e.writeNotify

def mask (e : FdEvent) : EpollMask := ⟨e.readNotify, e.writeNotify⟩

end FdEvent

inductive EpollOp
  | add
  | mod
  | del
  deriving DecidableEq, Repr

/-- One call of `epoll_ctl`; `present`: whether the descriptor was in the interest set. -/
structure EpollCtl where
  op : EpollOp
  fd : Int
  present : Bool
  deriving DecidableEq, Repr

/-- The call is one that the kernel does not refuse with `EEXIST` or `ENOENT`. A `del` is issued for
every event that loses its flags, also for one that never had any. -/
def EpollCtl.Right (c : EpollCtl) : Prop :=
  match c.op with
  | .add => c.present = false
  | .mod => c.present = true
  | .del => True

instance (c : EpollCtl) : Decidable c.Right := by
  obtain ⟨op, fd, present⟩ := c
  cases op <;> simp only [EpollCtl.Right] <;> infer_instance

structure Epoller where
  /-- the live `Event` objects -/
  live : EventId → Option FdEvent
  /-- the next new `Event` object -/
  nextId : EventId
  /-- `events_`: the object that the weak pointer of a descriptor was made of -/
  events : Int → Option EventId
  /-- the interest set of the kernel -/
  interest : Int → Option EpollMask
  /-- the calls of `epoll_ctl` so far -/
  ctls : List EpollCtl

inductive EpollerAction
  /-- `make_shared<Event>` -/
  | create (fd : Int)
  | enableReadNotify (id : EventId)
  | enableWriteNotify (id : EventId)
  | disableReadNotify (id : EventId)
  | disableWriteNotify (id : EventId)
  /-- the last `shared_ptr` to the event goes -/
  | destroy (id : EventId)
  deriving DecidableEq, Repr

namespace Epoller

/-- `MaxSize_`, the size of `events_`. -/
def maxSize : Int := 100000

def new : Epoller := ⟨fun _ => none, 0, fun _ => none, fun _ => none, []⟩

/-- `events_[fd].lock()`. -/
def lock (s : Epoller) (fd : Int) : Option FdEvent := (s.events fd).bind s.live

/-- The kernel: `EPOLL_CTL_ADD` inserts only an absent descriptor, `EPOLL_CTL_MOD` changes only a
present one, `EPOLL_CTL_DEL` removes. -/
def ctl (s : Epoller) (op : EpollOp) (fd : Int) (mask : EpollMask) : Epoller :=
  let interest :=
    match op, s.interest fd with
    | .add, none => Function.update s.interest fd (some mask)
    | .add, some _ => s.interest
    | .mod, some _ => Function.update s.interest fd (some mask)
    | .mod, none => s.interest
    | .del, _ => Function.update s.interest fd none
  { s with interest := interest, ctls := s.ctls ++ [⟨op, fd, (s.interest fd).isSome⟩] }

def setSlot (s : Epoller) (fd : Int) (id : Option EventId) : Epoller :=
  { s with events := Function.update s.events fd id }

def setLive (s : Epoller) (id : EventId) (e : Option FdEvent) : Epoller :=
  { s with live := Function.update s.live id e }

/-- `UpdateEvent`. -/
def updateEvent (s : Epoller) (id : EventId) (e : FdEvent) : Epoller :=
  if s.lock e.fd = none then (s.setSlot e.fd (some id)).ctl .add e.fd e.mask
  else s.ctl .mod e.fd e.mask

/-- `RemoveEvent`. -/
def removeEvent (s : Epoller) (e : FdEvent) : Epoller :=
  (s.setSlot e.fd none).ctl .del e.fd ⟨false, false⟩

/-- `Event::update` after the flags have become those of `e`. The loop holds its pollers, so
`poller_.lock()` succeeds. -/
def update (s : Epoller) (id : EventId) (e : FdEvent) : Epoller :=
  if e.notified then (s.setLive id (some e)).updateEvent id e
  else (s.setLive id (some e)).removeEvent e

/-- `Event::~Event`. The weak pointers to the event are dead by then. -/
def destroy (s : Epoller) (id : EventId) (e : FdEvent) : Epoller :=
  if e.notified then (s.setLive id none).removeEvent e else s.setLive id none

/-- The descriptor of a new event is one that `events_` has room for and no live event has. -/
def CanCreate (s : Epoller) (fd : Int) : Prop :=
  0 ≤ fd ∧ fd < maxSize ∧ ∀ id < s.nextId, ∀ e ∈ s.live id, e.fd ≠ fd

instance (s : Epoller) (fd : Int) : Decidable (s.CanCreate fd) := by
  unfold CanCreate; infer_instance

def step (s : Epoller) : EpollerAction → Option Epoller
  | .create fd =>
    if s.CanCreate fd then
      some { s.setLive s.nextId (some ⟨⟨false, false⟩, fd⟩) with nextId := s.nextId + 1 }
    else none
  | .enableReadNotify id => (s.live id).map fun e => s.update id { e with readNotify := true }
  | .enableWriteNotify id => (s.live id).map fun e => s.update id { e with writeNotify := true }
  | .disableReadNotify id => (s.live id).map fun e => s.update id { e with readNotify := false }
  | .disableWriteNotify id => (s.live id).map fun e => s.update id { e with writeNotify := false }
  | .destroy id => (s.live id).map fun e => s.destroy id e

def system : System Epoller EpollerAction := ⟨new, step⟩

/-- The interest set contains a descriptor exactly when a live event with that descriptor has a
flag, and the mask is the flags. -/
def Follows (s : Epoller) : Prop :=
  ∀ fd mask, s.interest fd = some mask ↔
    ∃ id e, s.live id = some e ∧ e.fd = fd ∧ e.notified = true ∧ mask = e.mask

/-! ## The invariant -/

structure Tracks (s : Epoller) : Prop where
  fresh : ∀ id e, s.live id = some e → id < s.nextId
  distinct : ∀ id id' e e', s.live id = some e → s.live id' = some e' → e.fd = e'.fd → id = id'
  slot : ∀ fd id, s.events fd = some id ↔
    ∃ e, s.live id = some e ∧ e.fd = fd ∧ e.notified = true
  interest : ∀ fd, s.interest fd = (s.lock fd).map FdEvent.mask
  ctls : ∀ c ∈ s.ctls, c.Right

theorem Tracks.follows {s : Epoller} (h : s.Tracks) : s.Follows := by
  intro fd mask
  rw [h.interest fd, Option.map_eq_some_iff]
  constructor
  · rintro ⟨e, hlock, rfl⟩
    obtain ⟨id, hslot, hlive⟩ := Option.bind_eq_some_iff.mp hlock
    obtain ⟨e', hlive', hfd, hflag⟩ := (h.slot fd id).mp hslot
    obtain rfl : e' = e := Option.some.inj (hlive'.symm.trans hlive)
    exact ⟨id, e', hlive, hfd, hflag, rfl⟩
  · rintro ⟨id, e, hlive, hfd, hflag, rfl⟩
    have hslot := (h.slot fd id).mpr ⟨e, hlive, hfd, hflag⟩
    exact ⟨e, Option.bind_eq_some_iff.mpr ⟨id, hslot, hlive⟩, rfl⟩

theorem tracks_new : new.Tracks where
  fresh := by simp [new]
  distinct := by simp [new]
  slot := by simp [new]
  interest := by simp [new, lock]
  ctls := by simp [new]

/-- The weak pointer of the descriptor of a live event points to it if it has a flag, and to nothing
otherwise. -/
theorem Tracks.slot_of_live {s : Epoller} (h : s.Tracks) {id : EventId} {e : FdEvent}
    (hlive : s.live id = some e) : s.events e.fd = if e.notified then some id else none := by
  split
  · next hflag => exact (h.slot e.fd id).mpr ⟨e, hlive, rfl, hflag⟩
  · next hflag =>
    rw [Option.eq_none_iff_forall_ne_some]
    intro id' hslot
    obtain ⟨e', hlive', hfd, hflag'⟩ := (h.slot e.fd id').mp hslot
    obtain rfl := h.distinct id' id e' e hlive' hlive hfd
    obtain rfl : e' = e := Option.some.inj (hlive'.symm.trans hlive)
    exact absurd hflag' hflag

theorem Tracks.interest_of_live {s : Epoller} (h : s.Tracks) {id : EventId} {e : FdEvent}
    (hlive : s.live id = some e) : s.interest e.fd = if e.notified then some e.mask else none := by
  rw [h.interest, lock, h.slot_of_live hlive]
  cases e.notified with
  | true => simp [hlive]
  | false => rfl

/-- The event `id` gets new flags or goes: the weak pointer and the interest of its descriptor have
to become those of `e'`, and the rest stays. -/
theorem Tracks.replace {s t : Epoller} (h : s.Tracks) {id : EventId} {e : FdEvent}
    (hlive : s.live id = some e) (e' : Option FdEvent) (hfd : ∀ x ∈ e', x.fd = e.fd)
    (hl : t.live = Function.update s.live id e') (hn : t.nextId = s.nextId)
    (he : t.events = Function.update s.events e.fd ((e'.filter FdEvent.notified).map fun _ => id))
    (hi : t.interest =
      Function.update s.interest e.fd ((e'.filter FdEvent.notified).map FdEvent.mask))
    (hc : ∀ c ∈ t.ctls, c.Right) : t.Tracks := by
  -- another event has another descriptor
  have hother : ∀ id' x, id' ≠ id → s.live id' = some x → x.fd ≠ e.fd :=
    fun id' x hne hx hfd' => hne (h.distinct id' id x e hx hlive hfd')
  refine ⟨?_, ?_, ?_, ?_, hc⟩
  · intro id' x hx
    rw [hn]
    by_cases hid : id' = id
    · exact hid ▸ h.fresh id e hlive
    · rw [hl, Function.update_of_ne hid] at hx
      exact h.fresh id' x hx
  · intro i j x y hx hy hxy
    rw [hl] at hx hy
    by_cases hi : i = id <;> by_cases hj : j = id
    · rw [hi, hj]
    · subst hi
      rw [Function.update_self] at hx
      rw [Function.update_of_ne hj] at hy
      exact absurd (hxy.symm.trans (hfd x hx)) (hother j y hj hy)
    · subst hj
      rw [Function.update_self] at hy
      rw [Function.update_of_ne hi] at hx
      exact absurd (hxy.trans (hfd y hy)) (hother i x hi hx)
    · rw [Function.update_of_ne hi] at hx
      rw [Function.update_of_ne hj] at hy
      exact h.distinct i j x y hx hy hxy
  · intro fd i
    rw [he, hl]
    rcases eq_or_ne fd e.fd with rfl | hf
    · rw [Function.update_self]
      constructor
      · intro hs
        obtain ⟨x, hx, rfl⟩ := Option.map_eq_some_iff.mp hs
        obtain ⟨hx, hflag⟩ := Option.filter_eq_some_iff.mp hx
        exact ⟨x, by rw [Function.update_self, hx], hfd x hx, hflag⟩
      · rintro ⟨x, hx, hxfd, hflag⟩
        rcases eq_or_ne i id with rfl | hi
        · rw [Function.update_self] at hx
          simp [hx, hflag]
        · rw [Function.update_of_ne hi] at hx
          exact absurd hxfd (hother i x hi hx)
    · rw [Function.update_of_ne hf, h.slot fd i]
      rcases eq_or_ne i id with rfl | hi
      · rw [Function.update_self]
        constructor
        · rintro ⟨x, hx, hxfd, -⟩
          obtain rfl : x = e := Option.some.inj (hx.symm.trans hlive)
          exact absurd hxfd.symm hf
        · rintro ⟨x, hx, hxfd, -⟩
          exact absurd (hxfd.symm.trans (hfd x hx)) hf
      · rw [Function.update_of_ne hi]
  · intro fd
    rw [hi, lock, he, hl]
    rcases eq_or_ne fd e.fd with rfl | hf
    · simp only [Function.update_self]
      cases e' with
      | none => rfl
      | some x => cases hx : x.notified <;> simp [Option.filter, hx]
    · simp only [Function.update_of_ne hf]
      rw [h.interest fd, lock]
      cases hslot : s.events fd with
      | none => rfl
      | some i =>
        have hne : i ≠ id := by
          rintro rfl
          obtain ⟨x, hx, hxfd, -⟩ := (h.slot fd i).mp hslot
          obtain rfl : x = e := Option.some.inj (hx.symm.trans hlive)
          exact hf hxfd.symm
        simp [Function.update_of_ne hne]

/-! ## The operations -/

theorem ctl_add {s : Epoller} {fd : Int} (habsent : s.interest fd = none) (mask : EpollMask) :
    s.ctl .add fd mask = { s with
      interest := Function.update s.interest fd (some mask)
      ctls := s.ctls ++ [⟨.add, fd, false⟩] } := by
  simp [ctl, habsent]

theorem ctl_mod {s : Epoller} {fd : Int} {old : EpollMask} (hpresent : s.interest fd = some old)
    (mask : EpollMask) :
    s.ctl .mod fd mask = { s with
      interest := Function.update s.interest fd (some mask)
      ctls := s.ctls ++ [⟨.mod, fd, true⟩] } := by
  simp [ctl, hpresent]

theorem Tracks.ctls_append {s : Epoller} (h : s.Tracks) {c : EpollCtl} (hc : c.Right) :
    ∀ x ∈ s.ctls ++ [c], x.Right := by
  intro x hx
  rcases List.mem_append.mp hx with hx | hx
  · exact h.ctls x hx
  · rw [List.mem_singleton.mp hx]; exact hc

/-- `RemoveEvent` when the event has no flag any more, or is gone. -/
theorem Tracks.removeEvent {s : Epoller} (h : s.Tracks) {id : EventId} {e e' : FdEvent}
    (hlive : s.live id = some e) (hfd : e'.fd = e.fd) (x : Option FdEvent)
    (hx : x = none ∨ (x = some e' ∧ e'.notified = false)) :
    ((s.setLive id x).removeEvent e').Tracks := by
  have hfilter : x.filter FdEvent.notified = none := by
    rcases hx with rfl | ⟨rfl, hflag⟩
    · rfl
    · simp [Option.filter, hflag]
  refine h.replace hlive x ?_ rfl rfl ?_ ?_ (h.ctls_append True.intro)
  · rintro y hy
    rcases hx with rfl | ⟨rfl, -⟩
    · cases hy
    · cases hy; exact hfd
  · rw [hfilter, ← hfd]; rfl
  · rw [hfilter, ← hfd]; rfl

/-- `UpdateEvent` for an event with a flag: the weak pointer tells whether the kernel has the
descriptor. -/
theorem Tracks.updateEvent {s : Epoller} (h : s.Tracks) {id : EventId} {e e' : FdEvent}
    (hlive : s.live id = some e) (hfd : e'.fd = e.fd) (hflag : e'.notified = true) :
    ((s.setLive id (some e')).updateEvent id e').Tracks := by
  have hslot := h.slot_of_live hlive
  have hint := h.interest_of_live hlive
  have hfilter : (some e').filter FdEvent.notified = some e' := by simp [Option.filter, hflag]
  cases hold : e.notified with
  | true =>
    simp only [hold, if_true] at hslot hint
    have hlock : (s.setLive id (some e')).lock e'.fd = some e' := by
      simp [lock, setLive, hfd, hslot]
    rw [Epoller.updateEvent, if_neg (by simp [hlock]), ctl_mod (hfd ▸ hint)]
    refine h.replace hlive (some e') (by simp [hfd]) rfl rfl ?_ ?_ (h.ctls_append rfl)
    · rw [hfilter]
      exact (Function.update_eq_self_iff.mpr hslot.symm).symm
    · rw [hfilter, ← hfd]; rfl
  | false =>
    simp only [hold, Bool.false_eq_true, if_false] at hslot hint
    have hlock : (s.setLive id (some e')).lock e'.fd = none := by
      simp [lock, setLive, hfd, hslot]
    rw [Epoller.updateEvent, if_pos hlock, ctl_add (hfd ▸ hint)]
    refine h.replace hlive (some e') (by simp [hfd]) rfl rfl ?_ ?_ (h.ctls_append rfl)
    · rw [hfilter, ← hfd]; rfl
    · rw [hfilter, ← hfd]; rfl

theorem Tracks.update {s : Epoller} (h : s.Tracks) {id : EventId} {e e' : FdEvent}
    (hlive : s.live id = some e) (hfd : e'.fd = e.fd) : (s.update id e').Tracks := by
  cases hflag : e'.notified with
  | true =>
    rw [Epoller.update, if_pos hflag]
    exact h.updateEvent hlive hfd hflag
  | false =>
    rw [Epoller.update, if_neg (by simp [hflag])]
    exact h.removeEvent hlive hfd (some e') (.inr ⟨rfl, hflag⟩)

theorem Tracks.destroy {s : Epoller} (h : s.Tracks) {id : EventId} {e : FdEvent}
    (hlive : s.live id = some e) : (s.destroy id e).Tracks := by
  have hslot := h.slot_of_live hlive
  have hint := h.interest_of_live hlive
  cases hflag : e.notified with
  | true =>
    rw [Epoller.destroy, if_pos hflag]
    exact h.removeEvent hlive rfl none (.inl rfl)
  | false =>
    -- without a flag nothing is asked of the kernel, and nothing is there
    rw [Epoller.destroy, if_neg (by simp [hflag])]
    simp only [hflag, Bool.false_eq_true, if_false] at hslot hint
    refine h.replace hlive none (by simp) rfl rfl ?_ ?_ h.ctls
    · exact (Function.update_eq_self_iff.mpr hslot.symm).symm
    · exact (Function.update_eq_self_iff.mpr hint.symm).symm

theorem Tracks.create {s : Epoller} (h : s.Tracks) {fd : Int} (hcan : s.CanCreate fd) :
    Tracks { s.setLive s.nextId (some ⟨⟨false, false⟩, fd⟩) with nextId := s.nextId + 1 } := by
  have hold : ∀ id x, s.live id = some x → id ≠ s.nextId ∧ x.fd ≠ fd := fun id x hx =>
    ⟨Nat.ne_of_lt (h.fresh id x hx), hcan.2.2 id (h.fresh id x hx) x hx⟩
  have hslot_ne : ∀ f id, s.events f = some id → id ≠ s.nextId := fun f id hs => by
    obtain ⟨x, hx, -⟩ := (h.slot f id).mp hs
    exact (hold id x hx).1
  refine ⟨?_, ?_, ?_, ?_, h.ctls⟩
  · intro id x hx
    simp only [setLive, Function.update_apply] at hx
    split at hx
    · next hid => exact hid ▸ Nat.lt_succ_self _
    · exact Nat.lt_succ_of_lt (h.fresh id x hx)
  · intro i j x y hx hy hxy
    simp only [setLive, Function.update_apply] at hx hy
    split at hx <;> split at hy
    · next hi hj => rw [hi, hj]
    · cases hx
      exact absurd hxy.symm (hold j y hy).2
    · cases hy
      exact absurd hxy (hold i x hx).2
    · exact h.distinct i j x y hx hy hxy
  · intro f id
    simp only [setLive, Function.update_apply]
    rw [h.slot f id]
    constructor
    · rintro ⟨x, hx, hrest⟩
      exact ⟨x, by rw [if_neg (hold id x hx).1, hx], hrest⟩
    · rintro ⟨x, hx, hfd, hflag⟩
      split at hx
      · cases hx; cases hflag
      · exact ⟨x, hx, hfd, hflag⟩
  · intro f
    rw [show (setLive s s.nextId _).interest f = s.interest f from rfl, h.interest f]
    cases hs : s.events f with
    | none => simp [lock, setLive, hs]
    | some id => simp [lock, setLive, hs, Function.update_of_ne (hslot_ne f id hs)]

theorem Tracks.step {s t : Epoller} {a : EpollerAction} (h : s.Tracks) (ht : s.step a = some t) :
    t.Tracks := by
  cases a with
  | create fd =>
    simp only [Epoller.step] at ht
    split at ht
    · next hcan => cases ht; exact h.create hcan
    · cases ht
  | enableReadNotify id =>
    obtain ⟨e, hlive, rfl⟩ := Option.map_eq_some_iff.mp ht
    exact h.update hlive rfl
  | enableWriteNotify id =>
    obtain ⟨e, hlive, rfl⟩ := Option.map_eq_some_iff.mp ht
    exact h.update hlive rfl
  | disableReadNotify id =>
    obtain ⟨e, hlive, rfl⟩ := Option.map_eq_some_iff.mp ht
    exact h.update hlive rfl
  | disableWriteNotify id =>
    obtain ⟨e, hlive, rfl⟩ := Option.map_eq_some_iff.mp ht
    exact h.update hlive rfl
  | destroy id =>
    obtain ⟨e, hlive, rfl⟩ := Option.map_eq_some_iff.mp ht
    exact h.destroy hlive

/-! ## Every run -/

theorem tracks_of_reachable {s : Epoller} (h : system.Reachable s) : s.Tracks :=
  h.invariant tracks_new fun _ _ _ hs _ ht => hs.step ht

/-- After every operation the interest set is what the flags of the live events ask for, and no
`EPOLL_CTL_ADD` was issued for a present descriptor and no `EPOLL_CTL_MOD` for an absent one. -/
theorem interest_follows {s : Epoller} (h : system.Reachable s) :
    s.Follows ∧ ∀ c ∈ s.ctls, c.Right :=
  ⟨(tracks_of_reachable h).follows, (tracks_of_reachable h).ctls⟩

/-- An event goes from the connector to the connection and then away with it, and the kernel gives
its descriptor out again. -/
def connectAndReuse : List EpollerAction :=
  [.create 7, .enableWriteNotify 0, .disableWriteNotify 0, .enableReadNotify 0,
    .enableWriteNotify 0, .destroy 0, .create 7, .enableReadNotify 1]

theorem interest_follows_connectAndReuse : ∃ s, system.run system.init connectAndReuse = some s ∧
    s.interest 7 = some ⟨true, false⟩ ∧ s.Follows ∧ ∀ c ∈ s.ctls, c.Right :=
  ⟨_, rfl, by decide, interest_follows (System.reachable_of_run
    (show system.run system.init connectAndReuse = some _ from rfl))⟩

end Epoller

end Sheep
