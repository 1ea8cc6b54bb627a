import Mathlib.Data.List.Sort
import Mathlib.Data.String.Basic
import Mathlib.Logic.Function.Basic
import Sheep.Lib.System

/-!
# `GrpcServer`

The events of the server (`small_server/grpc_looper.h`, `grpc_server.h`, `grpc_service.h`) and the
completion queue. A `GrpcEvent` is the tag of what it registers: `CreateEvent` registers it for a
new RPC and `GrpcServiceEvent::Finish` registers it once more. `GrpcServerEvent::status_` decides
whether a delivery arms the next event of the service, `GrpcServiceEvent::status_` whether it calls
`onMessage` or cleans.

The deliveries are made by the thread of `GrpcLooper`, and `Run` makes the first events on its own
thread after the server has been started. An RPC may come while `serviceEvent_` is not set yet; the
delivery arms the next event and then calls through a null pointer.

`GrpcLaw`: each service that the loop of `Run` has reached has one event that waits, no event has
two tags in the queue, nothing is delivered to an event that was cleaned, and a finished event is
cleaned once, by the delivery of its second tag. `grpcLaw_of_reachable`: this holds between all
deliveries. The services that the loop has not reached have no event yet, while those before them
already get RPCs (`service_not_reached`). `Stage` lists what an event can have gone through, and
each step moves one event by one stage.
-/

namespace Sheep

/-- The identity of a `GrpcEvent` object, which is its tag. -/
abbrev GrpcEventId := Nat

/-- `GrpcServerEvent::Status`. -/
inductive ServerStatus
  | process
  | processing
  deriving DecidableEq, Repr

/-- `GrpcServiceEvent::Status`. -/
inductive ServiceStatus
  | process
  | finish
  deriving DecidableEq, Repr

/-- A `GrpcEvent` with its `GrpcServerEvent`. -/
structure GrpcEvent where
  /-- the `Name()` of `service_` -/
  service : String
  status : ServerStatus
  /-- the status of `serviceEvent_`, `none` while the pointer is null -/
  serviceEvent : Option ServiceStatus
  deriving DecidableEq, Repr

/-- What is called on an event. -/
inductive GrpcCall
  /-- `GrpcEvent::Proceed` -/
  | proceed (id : GrpcEventId) (ok : Bool)
  /-- `onMessageFunc_` -/
  | onMessage (id : GrpcEventId) (errMsg : String)
  /-- `GrpcServiceEvent::Finish` -/
  | finish (id : GrpcEventId)
  /-- `GrpcEvent::Clean` -/
  | clean (id : GrpcEventId)
  deriving DecidableEq, Repr

def GrpcCall.isOnMessage (id : GrpcEventId) : GrpcCall → Bool
  | .onMessage i _ => i == id
  | _ => false

structure GrpcServer where
  /-- the keys of `services_`, in the order of the map -/
  services : List String
  /-- how many entries the loop of `Run` has reached, `none` before `Run` -/
  loop : Option Nat
  /-- the event whose `Init` the loop of `Run` is in -/
  creating : Option GrpcEventId
  events : GrpcEventId → Option GrpcEvent
  nextId : GrpcEventId
  /-- the tags in the completion queue -/
  tags : List GrpcEventId
  log : List GrpcCall
  /-- a call went through a null pointer -/
  crashed : Bool

inductive GrpcAction
  | register (name : String)
  /-- `Run`, up to its loop -/
  | run
  /-- the loop of `Run` makes the event of the next service, up to `RequestHandler` -/
  | create
  /-- the rest of `GrpcServerEvent::Init` in the loop of `Run` -/
  | init
  /-- the queue delivers the tag -/
  | deliver (id : GrpcEventId) (ok : Bool)
  /-- the user calls `Finish`, in `onMessage` or later -/
  | finish (id : GrpcEventId)
  deriving DecidableEq, Repr

namespace GrpcServer

def new : GrpcServer := ⟨[], none, none, fun _ => none, 0, [], [], false⟩

def reached (s : GrpcServer) : Nat := s.loop.getD 0

def emit (s : GrpcServer) (c : GrpcCall) : GrpcServer := { s with log := s.log ++ [c] }

def setEvent (s : GrpcServer) (id : GrpcEventId) (e : GrpcEvent) : GrpcServer :=
  { s with events := Function.update s.events id (some e) }

def addTag (s : GrpcServer) (id : GrpcEventId) : GrpcServer := { s with tags := s.tags ++ [id] }

def takeTag (s : GrpcServer) (id : GrpcEventId) : GrpcServer := { s with tags := s.tags.erase id }

/-- `new GrpcEvent` and then the constructor of the service event, which calls `RequestHandler`. -/
def make (s : GrpcServer) (name : String) : GrpcServer :=
  { (s.setEvent s.nextId ⟨name, .process, none⟩).addTag s.nextId with nextId := s.nextId + 1 }

/-- `serviceEvent_` of the event is set. -/
def setServiceEvent (s : GrpcServer) (id : GrpcEventId) : GrpcServer :=
  let e := (s.events id).map fun e => { e with serviceEvent := some .process }
  { s with events := Function.update s.events id e }

/-- `GrpcServiceEvent::Proceed`. -/
def serviceProceed (s : GrpcServer) (id : GrpcEventId) (e : GrpcEvent) (ok : Bool) : GrpcServer :=
  match e.serviceEvent with
  | none => { s with crashed := true }
  | some .process =>
    (s.setEvent id { e with serviceEvent := some .finish }).emit
      (.onMessage id (if ok then "" else "canceled"))
  | some .finish => s.emit (.clean id)

/-- `GrpcServerEvent::Proceed`. -/
def serverProceed (s : GrpcServer) (id : GrpcEventId) (e : GrpcEvent) (ok : Bool) : GrpcServer :=
  match e.status with
  | .process =>
    let e' := { e with status := .processing }
    let s' := ((s.setEvent id e').make e.service).setServiceEvent s.nextId
    s'.serviceProceed id e' ok
  | .processing => s.serviceProceed id e ok

/-- `onMessage` has been called for the event, so that the user has it. -/
def handed (s : GrpcServer) (id : GrpcEventId) : Bool := s.log.any (GrpcCall.isOnMessage id)

def step (s : GrpcServer) (a : GrpcAction) : Option GrpcServer :=
  if s.crashed then none else
  match a with
  | .register name =>
    if s.loop ≠ none then none
    else if name ∈ s.services then some s
    else some { s with services := s.services.orderedInsert (· ≤ ·) name }
  | .run => if s.loop = none then some { s with loop := some 0 } else none
  | .create =>
    if s.creating = none then
      s.loop.bind fun i => s.services[i]?.map fun name =>
        { s.make name with loop := some (i + 1), creating := some s.nextId }
    else none
  | .init => s.creating.map fun id => { s.setServiceEvent id with creating := none }
  | .deliver id ok =>
    if id ∈ s.tags then
      (s.events id).map fun e => ((s.takeTag id).emit (.proceed id ok)).serverProceed id e ok
    else none
  | .finish id =>
    if s.handed id ∧ .finish id ∉ s.log then
      (s.events id).map fun e =>
        ((s.setEvent id { e with serviceEvent := some .finish }).addTag id).emit (.finish id)
    else none

def system : System GrpcServer GrpcAction := ⟨new, step⟩

/-! ## The law -/

/-- The event has not had its RPC yet. -/
def Armed (s : GrpcServer) (name : String) (id : GrpcEventId) : Prop :=
  ∃ e, s.events id = some e ∧ e.service = name ∧ e.status = .process

/-- The event waits for a new RPC of the service. -/
def Waiting (s : GrpcServer) (name : String) (id : GrpcEventId) : Prop :=
  s.Armed name id ∧ id ∈ s.tags ∧ .clean id ∉ s.log

/-- No `Proceed` after a `Clean` of the same event. -/
def CleanLast (log : List GrpcCall) : Prop :=
  log.Pairwise fun a b => ∀ id ok, a = .clean id → b ≠ .proceed id ok

structure GrpcLaw (s : GrpcServer) : Prop where
  waiting : ∀ name ∈ s.services.take s.reached, ∃! id, s.Waiting name id
  tags : ∀ id, .clean id ∉ s.log → s.tags.count id ≤ 1
  cleanLast : CleanLast s.log
  cleaned : ∀ id, s.log.count (.clean id) = if .finish id ∈ s.log ∧ id ∉ s.tags then 1 else 0

/-! ## What there is of one event -/

/-- All that the state has of one event. -/
structure View where
  event : Option GrpcEvent
  tags : Nat
  finishes : Nat
  cleans : Nat
  handed : Bool
  deriving DecidableEq, Repr

def view (s : GrpcServer) (id : GrpcEventId) : View :=
  ⟨s.events id, s.tags.count id, s.log.count (.finish id), s.log.count (.clean id), s.handed id⟩

/-- How far an event can have come. -/
inductive Stage : View → Prop
  | absent : Stage ⟨none, 0, 0, 0, false⟩
  | waiting (name : String) (status : Option ServiceStatus) (h : status ≠ some .finish) :
      Stage ⟨some ⟨name, .process, status⟩, 1, 0, 0, false⟩
  /-- `onMessage` has been called -/
  | handed (name : String) : Stage ⟨some ⟨name, .processing, some .finish⟩, 0, 0, 0, true⟩
  | finishing (name : String) : Stage ⟨some ⟨name, .processing, some .finish⟩, 1, 1, 0, true⟩
  | cleaned (name : String) : Stage ⟨some ⟨name, .processing, some .finish⟩, 0, 1, 1, true⟩
  /-- the delivery went through the null pointer -/
  | lost (name : String) : Stage ⟨some ⟨name, .processing, none⟩, 0, 0, 0, false⟩

section
variable (s : GrpcServer) (id : GrpcEventId)

theorem view_setEvent (e : GrpcEvent) :
    (s.setEvent id e).view = Function.update s.view id { s.view id with event := some e } := by
  funext x
  rcases eq_or_ne x id with hx | hx
  · subst hx; simp [view, setEvent, handed]
  · simp [view, setEvent, handed, hx]

theorem view_addTag :
    (s.addTag id).view =
      Function.update s.view id { s.view id with tags := (s.view id).tags + 1 } := by
  funext x
  rcases eq_or_ne x id with hx | hx
  · subst hx; simp [view, addTag, handed]
  · simp [view, addTag, handed, hx, Ne.symm hx]

theorem view_takeTag :
    (s.takeTag id).view =
      Function.update s.view id { s.view id with tags := (s.view id).tags - 1 } := by
  funext x
  rcases eq_or_ne x id with hx | hx
  · subst hx; simp [view, takeTag, handed]
  · simp [view, takeTag, handed, hx]

theorem view_emit_proceed (ok : Bool) : (s.emit (.proceed id ok)).view = s.view := by
  funext x
  simp [view, emit, handed, GrpcCall.isOnMessage]

theorem view_emit_onMessage (errMsg : String) :
    (s.emit (.onMessage id errMsg)).view =
      Function.update s.view id { s.view id with handed := true } := by
  funext x
  rcases eq_or_ne x id with hx | hx
  · subst hx; simp [view, emit, handed, GrpcCall.isOnMessage]
  · simp [view, emit, handed, GrpcCall.isOnMessage, hx, Ne.symm hx]

theorem view_emit_finish :
    (s.emit (.finish id)).view =
      Function.update s.view id { s.view id with finishes := (s.view id).finishes + 1 } := by
  funext x
  rcases eq_or_ne x id with hx | hx
  · subst hx; simp [view, emit, handed, GrpcCall.isOnMessage]
  · simp [view, emit, handed, GrpcCall.isOnMessage, hx, Ne.symm hx]

theorem view_emit_clean :
    (s.emit (.clean id)).view =
      Function.update s.view id { s.view id with cleans := (s.view id).cleans + 1 } := by
  funext x
  rcases eq_or_ne x id with hx | hx
  · subst hx; simp [view, emit, handed, GrpcCall.isOnMessage]
  · simp [view, emit, handed, GrpcCall.isOnMessage, hx, Ne.symm hx]

end

theorem view_make {s : GrpcServer} (habsent : s.view s.nextId = ⟨none, 0, 0, 0, false⟩)
    (name : String) :
    (s.make name).view = Function.update s.view s.nextId
      ⟨some ⟨name, .process, none⟩, 1, 0, 0, false⟩ := by
  have h : (s.make name).view =
      ((s.setEvent s.nextId ⟨name, .process, none⟩).addTag s.nextId).view := rfl
  rw [h, view_addTag, view_setEvent, Function.update_self, Function.update_idem, habsent]

theorem view_setServiceEvent {s : GrpcServer} {id : GrpcEventId} {e : GrpcEvent}
    (he : s.events id = some e) :
    (s.setServiceEvent id).view = Function.update s.view id
      { s.view id with event := some { e with serviceEvent := some .process } } := by
  rw [← view_setEvent, setServiceEvent, he]
  rfl

/-! ## The invariant -/

structure Inv (s : GrpcServer) : Prop where
  stage : ∀ id, Stage (s.view id)
  fresh : ∀ id, s.nextId ≤ id → s.events id = none
  nodup : s.services.Nodup
  /-- the event that `Run` is making has not been delivered -/
  creating : s.crashed = false → ∀ id ∈ s.creating,
    ∃ name, s.events id = some ⟨name, .process, none⟩
  armed : ∀ name ∈ s.services.take s.reached, ∃! id, s.Armed name id
  known : ∀ name id, s.Armed name id → name ∈ s.services.take s.reached
  cleanLast : CleanLast s.log

theorem inv_new : new.Inv where
  stage _ := .absent
  fresh _ _ := rfl
  nodup := List.nodup_nil
  creating := by simp [new]
  armed := by simp [new]
  known := by simp [new, Armed]
  cleanLast := List.Pairwise.nil

theorem Inv.absent {s : GrpcServer} (h : s.Inv) {id : GrpcEventId} (hid : s.nextId ≤ id) :
    s.view id = ⟨none, 0, 0, 0, false⟩ := by
  have hstage := h.stage id
  have hnone : (s.view id).event = none := h.fresh id hid
  generalize s.view id = v at hstage hnone
  cases hstage with
  | absent => rfl
  | waiting | handed | finishing | cleaned | lost => cases hnone

theorem Inv.ne_nextId {s : GrpcServer} (h : s.Inv) {id : GrpcEventId} {e : GrpcEvent}
    (he : s.events id = some e) : id ≠ s.nextId := by
  rintro rfl
  rw [h.fresh _ (Nat.le_refl _)] at he
  cases he

theorem CleanLast.emit {log : List GrpcCall} (h : CleanLast log) {c : GrpcCall}
    (hc : ∀ id ok, c = .proceed id ok → .clean id ∉ log) : CleanLast (log ++ [c]) := by
  refine List.pairwise_append.mpr ⟨h, List.pairwise_singleton _ _, ?_⟩
  rintro a ha b hb id ok rfl hbc
  rw [List.mem_singleton] at hb
  exact hc id ok (hb ▸ hbc) ha

/-- The event `id` goes from one stage to another and keeps its service and the status of its
`GrpcServerEvent`. -/
theorem Inv.advance {s t : GrpcServer} (h : s.Inv) {id : GrpcEventId} {e : GrpcEvent} {v : View}
    (he : s.events id = some e)
    (hv : ∃ status, v.event = some { e with serviceEvent := status })
    (hview : t.view = Function.update s.view id v) (hstage : Stage v)
    (hservices : t.services = s.services) (hreached : t.reached = s.reached)
    (hnext : t.nextId = s.nextId)
    (hcreating : t.crashed = false → ∀ x ∈ t.creating, x ∈ s.creating ∧ s.crashed = false ∧ x ≠ id)
    (hlast : CleanLast t.log) : t.Inv := by
  obtain ⟨status, hv⟩ := hv
  have hevents : ∀ x, t.events x = if x = id then v.event else s.events x := by
    intro x
    have hx : (t.view x).event = t.events x := rfl
    rw [← hx, hview, Function.update_apply]
    split <;> rfl
  have harmed : ∀ name x, t.Armed name x ↔ s.Armed name x := by
    intro name x
    unfold Armed
    rw [hevents x]
    rcases eq_or_ne x id with rfl | hx
    · simp only [if_true, hv, he, Option.some.injEq, exists_eq_left']
    · rw [if_neg hx]
  refine ⟨?_, ?_, hservices ▸ h.nodup, ?_, ?_, ?_, hlast⟩
  · intro x
    rw [hview, Function.update_apply]
    split
    · exact hstage
    · exact h.stage x
  · intro x hx
    rw [hnext] at hx
    have hne : x ≠ id := by
      rintro rfl
      rw [h.fresh x hx] at he
      cases he
    rw [hevents x, if_neg hne]
    exact h.fresh x hx
  · intro hcrash x hx
    obtain ⟨hx, hcrash, hne⟩ := hcreating hcrash x hx
    rw [hevents x, if_neg hne]
    exact h.creating hcrash x hx
  · intro name hname
    rw [hservices, hreached] at hname
    simpa only [harmed] using h.armed name hname
  · intro name x hx
    rw [hservices, hreached]
    exact h.known name x ((harmed name x).mp hx)

/-- The event `id` has its RPC, and the next event of its service waits instead. -/
theorem Inv.rearm {s t : GrpcServer} (h : s.Inv) {id : GrpcEventId} {name : String} {v : View}
    {old : Option ServiceStatus} (he : s.events id = some ⟨name, .process, old⟩)
    (hv : ∃ status, v.event = some ⟨name, .processing, status⟩)
    (hview : t.view = Function.update (Function.update s.view id v) s.nextId
      ⟨some ⟨name, .process, some .process⟩, 1, 0, 0, false⟩) (hstage : Stage v)
    (hservices : t.services = s.services) (hreached : t.reached = s.reached)
    (hnext : t.nextId = s.nextId + 1)
    (hcreating : t.crashed = false → ∀ x ∈ t.creating, x ∈ s.creating ∧ s.crashed = false ∧ x ≠ id)
    (hlast : CleanLast t.log) : t.Inv := by
  obtain ⟨status, hv⟩ := hv
  have hid := h.ne_nextId he
  have hevents : ∀ x, t.events x = if x = s.nextId then some ⟨name, .process, some .process⟩
      else if x = id then v.event else s.events x := by
    intro x
    have hx : (t.view x).event = t.events x := rfl
    rw [← hx, hview, Function.update_apply, Function.update_apply]
    split
    · rfl
    · split <;> rfl
  have hknown := h.known name id ⟨_, he, rfl, rfl⟩
  have hname := h.armed name hknown
  -- the service of `id` has the new event in its place, the other services keep theirs
  have harmed : ∀ n x, t.Armed n x ↔ (x = s.nextId ∧ n = name) ∨ (x ≠ id ∧ s.Armed n x) := by
    intro n x
    unfold Armed
    rw [hevents x]
    rcases eq_or_ne x s.nextId with rfl | hx
    · simp [h.fresh _ (Nat.le_refl _), eq_comm]
    · rcases eq_or_ne x id with hxid | hxid
      · subst hxid; simp [hx, hv]
      · simp [hx, hxid]
  refine ⟨?_, ?_, hservices ▸ h.nodup, ?_, ?_, ?_, hlast⟩
  · intro x
    rw [hview, Function.update_apply, Function.update_apply]
    split
    · exact .waiting name _ (by simp)
    · split
      · exact hstage
      · exact h.stage x
  · intro x hx
    rw [hnext] at hx
    have hle : s.nextId ≤ x := Nat.le_of_succ_le hx
    have hxid : x ≠ id := by
      rintro rfl
      rw [h.fresh x hle] at he
      cases he
    rw [hevents x, if_neg (Nat.ne_of_gt hx), if_neg hxid]
    exact h.fresh x hle
  · intro hcrash x hx
    obtain ⟨hx, hcrash, hne⟩ := hcreating hcrash x hx
    obtain ⟨n, hn⟩ := h.creating hcrash x hx
    rw [hevents x, if_neg (h.ne_nextId hn), if_neg hne]
    exact ⟨n, hn⟩
  · intro n hn
    rw [hservices, hreached] at hn
    obtain ⟨y, hy, huniq⟩ := h.armed n hn
    rcases eq_or_ne n name with rfl | hnn
    · refine ⟨s.nextId, (harmed n _).mpr (.inl ⟨rfl, rfl⟩), fun x hx => ?_⟩
      rcases (harmed n x).mp hx with ⟨hx, -⟩ | ⟨hx, harm⟩
      · exact hx
      · exact absurd ((huniq x harm).trans (huniq id ⟨_, he, rfl, rfl⟩).symm) hx
    · have hyid : y ≠ id := by
        rintro rfl
        obtain ⟨e, hey, hsvc, -⟩ := hy
        rw [he] at hey
        cases hey
        exact hnn hsvc.symm
      refine ⟨y, (harmed n y).mpr (.inr ⟨hyid, hy⟩), fun x hx => ?_⟩
      rcases (harmed n x).mp hx with ⟨-, hx⟩ | ⟨-, harm⟩
      · exact absurd hx hnn
      · exact huniq x harm
  · intro n x hx
    rw [hservices, hreached]
    rcases (harmed n x).mp hx with ⟨-, rfl⟩ | ⟨-, harm⟩
    · exact hknown
    · exact h.known n x harm

/-- The loop of `Run` makes the first event of the next service. -/
theorem Inv.create {s : GrpcServer} (h : s.Inv) {i : Nat} {name : String} (hloop : s.loop = some i)
    (hname : s.services[i]? = some name) :
    Inv { s.make name with loop := some (i + 1), creating := some s.nextId } := by
  have hreached : s.reached = i := by rw [reached, hloop]; rfl
  rw [← hreached] at hname ⊢
  have htake : s.services.take (s.reached + 1) = s.services.take s.reached ++ [name] := by
    rw [List.take_add_one, hname]; rfl
  have hnew : name ∉ s.services.take s.reached := by
    have hnodup : (s.services.take (s.reached + 1)).Nodup := h.nodup.sublist (List.take_sublist _ _)
    rw [htake, List.nodup_append] at hnodup
    exact fun hmem => hnodup.2.2 name hmem name (List.mem_singleton_self _) rfl
  have hview := view_make (h.absent (Nat.le_refl s.nextId)) name
  have hevents : ∀ x, (s.make name).events x =
      if x = s.nextId then some ⟨name, .process, none⟩ else s.events x :=
    fun x => Function.update_apply _ _ _ _
  have harmed : ∀ n x, (s.make name).Armed n x ↔ (x = s.nextId ∧ n = name) ∨ s.Armed n x := by
    intro n x
    unfold Armed
    rw [hevents x]
    rcases eq_or_ne x s.nextId with rfl | hx
    · simp [h.fresh _ (Nat.le_refl _), eq_comm]
    · simp [hx]
  refine ⟨?_, ?_, h.nodup, ?_, ?_, ?_, h.cleanLast⟩
  · intro x
    show Stage ((s.make name).view x)
    rw [hview, Function.update_apply]
    split
    · exact .waiting name none (by simp)
    · exact h.stage x
  · intro x hx
    refine (hevents x).trans ?_
    rw [if_neg (Nat.ne_of_gt hx)]
    exact h.fresh x (Nat.le_of_succ_le hx)
  · rintro - x hx
    obtain rfl : s.nextId = x := Option.some.inj hx
    exact ⟨name, (hevents _).trans (if_pos rfl)⟩
  · intro n hn
    replace hn : n ∈ s.services.take (s.reached + 1) := hn
    rw [htake, List.mem_append, List.mem_singleton] at hn
    rcases hn with hn | rfl
    · have hne : n ≠ name := fun heq => hnew (heq ▸ hn)
      obtain ⟨y, hy, huniq⟩ := h.armed n hn
      refine ⟨y, (harmed n y).mpr (.inr hy), fun x hx => ?_⟩
      rcases (harmed n x).mp hx with ⟨-, hx⟩ | hx
      · exact absurd hx hne
      · exact huniq x hx
    · refine ⟨s.nextId, (harmed n _).mpr (.inl ⟨rfl, rfl⟩), fun x hx => ?_⟩
      rcases (harmed n x).mp hx with ⟨hx, -⟩ | hx
      · exact hx
      · exact absurd (h.known n x hx) hnew
  · intro n x hx
    show n ∈ s.services.take (s.reached + 1)
    rw [htake, List.mem_append, List.mem_singleton]
    rcases (harmed n x).mp hx with ⟨-, rfl⟩ | hx
    · exact .inr rfl
    · exact .inl (h.known n x hx)

/-! ## The deliveries -/

/-- `GrpcServerEvent::Proceed` with the status `PROCESS`, up to the call of the service event. -/
def armNext (s : GrpcServer) (id : GrpcEventId) (e : GrpcEvent) (ok : Bool) : GrpcServer :=
  ((((s.takeTag id).emit (.proceed id ok)).setEvent id { e with status := .processing }).make
    e.service).setServiceEvent s.nextId

theorem view_makeReady {s : GrpcServer} (habsent : s.view s.nextId = ⟨none, 0, 0, 0, false⟩)
    (name : String) :
    ((s.make name).setServiceEvent s.nextId).view = Function.update s.view s.nextId
      ⟨some ⟨name, .process, some .process⟩, 1, 0, 0, false⟩ := by
  have hmade := view_make habsent name
  have hevent := congrArg View.event ((congrFun hmade s.nextId).trans (Function.update_self ..))
  rw [view_setServiceEvent hevent, hmade, Function.update_idem, Function.update_self]

theorem Inv.view_armNext {s : GrpcServer} (h : s.Inv) {id : GrpcEventId} {name : String}
    {old : Option ServiceStatus}
    (hview : s.view id = ⟨some ⟨name, .process, old⟩, 1, 0, 0, false⟩) (ok : Bool) :
    (s.armNext id ⟨name, .process, old⟩ ok).view = Function.update
      (Function.update s.view id ⟨some ⟨name, .processing, old⟩, 0, 0, 0, false⟩) s.nextId
      ⟨some ⟨name, .process, some .process⟩, 1, 0, 0, false⟩ := by
  have he : s.events id = some ⟨name, .process, old⟩ := congrArg View.event hview
  have htaken : (((s.takeTag id).emit (.proceed id ok)).setEvent id ⟨name, .processing, old⟩).view =
      Function.update s.view id ⟨some ⟨name, .processing, old⟩, 0, 0, 0, false⟩ := by
    simp only [view_setEvent, view_emit_proceed, view_takeTag, Function.update_self,
      Function.update_idem, hview]
  have habsent := htaken ▸ (Function.update_of_ne (h.ne_nextId he).symm _ s.view).trans
    (h.absent (Nat.le_refl s.nextId))
  rw [← htaken]
  exact view_makeReady habsent name

section
variable (s : GrpcServer) (id : GrpcEventId) (e : GrpcEvent) (ok : Bool)

theorem armNext_services : (s.armNext id e ok).services = s.services := by
  simp only [armNext, setServiceEvent, make, addTag, setEvent, emit, takeTag]

theorem armNext_reached : (s.armNext id e ok).reached = s.reached := by
  simp only [reached, armNext, setServiceEvent, make, addTag, setEvent, emit, takeTag]

theorem armNext_nextId : (s.armNext id e ok).nextId = s.nextId + 1 := by
  simp only [armNext, setServiceEvent, make, addTag, setEvent, emit, takeTag]

theorem armNext_creating : (s.armNext id e ok).creating = s.creating := by
  simp only [armNext, setServiceEvent, make, addTag, setEvent, emit, takeTag]

theorem armNext_log : (s.armNext id e ok).log = s.log ++ [.proceed id ok] := by
  simp only [armNext, setServiceEvent, make, addTag, setEvent, emit, takeTag]

end

theorem serverProceed_process (s : GrpcServer) (id : GrpcEventId) (name : String)
    (status : Option ServiceStatus) (ok : Bool) :
    ((s.takeTag id).emit (.proceed id ok)).serverProceed id ⟨name, .process, status⟩ ok =
      (s.armNext id ⟨name, .process, status⟩ ok).serviceProceed id ⟨name, .processing, status⟩ ok :=
  rfl

/-- The event that `Run` is making has the status `PROCESS` and no service event. -/
theorem Inv.not_creating {s : GrpcServer} (h : s.Inv) (hcrash : s.crashed = false)
    {id : GrpcEventId} {e : GrpcEvent} (he : s.events id = some e)
    (hne : e.status = .processing ∨ e.serviceEvent ≠ none) : ∀ x ∈ s.creating, x ≠ id := by
  rintro x hx rfl
  obtain ⟨name, hname⟩ := h.creating hcrash x hx
  obtain rfl := Option.some.inj (he.symm.trans hname)
  rcases hne with hne | hne
  · cases hne
  · exact hne rfl

theorem Inv.deliver {s : GrpcServer} (h : s.Inv) (hcrash : s.crashed = false) {id : GrpcEventId}
    {e : GrpcEvent} (htag : id ∈ s.tags) (he : s.events id = some e) (ok : Bool) :
    (((s.takeTag id).emit (.proceed id ok)).serverProceed id e ok).Inv := by
  have hcount : 0 < (s.view id).tags := List.count_pos_iff.mpr htag
  have hstage := h.stage id
  have hlast : (s.view id).cleans = 0 → CleanLast (s.log ++ [.proceed id ok]) := fun h0 =>
    h.cleanLast.emit fun x _ hx => by
      cases hx
      exact List.count_eq_zero.mp h0
  obtain ⟨v, hview⟩ : ∃ v, s.view id = v := ⟨_, rfl⟩
  have hevent : v.event = some e := hview ▸ he
  rw [hview] at hcount hstage hlast
  cases hstage with
  | absent | handed | cleaned | lost => exact absurd hcount (Nat.lt_irrefl 0)
  | waiting name status hne =>
    obtain rfl := Option.some.inj hevent
    have hid := h.ne_nextId he
    have harm := h.view_armNext hview ok
    have hservices := s.armNext_services id ⟨name, .process, status⟩ ok
    have hreached := s.armNext_reached id ⟨name, .process, status⟩ ok
    have hnext := s.armNext_nextId id ⟨name, .process, status⟩ ok
    have hcreating := s.armNext_creating id ⟨name, .process, status⟩ ok
    have hlog := s.armNext_log id ⟨name, .process, status⟩ ok
    rw [serverProceed_process]
    generalize s.armNext id ⟨name, .process, status⟩ ok = a at *
    cases status with
    | none =>
      -- `Run` has not set `serviceEvent_` yet
      exact h.rearm (t := { a with crashed := true }) he ⟨none, rfl⟩ harm (.lost name) hservices
        hreached hnext (fun hc => by cases hc) (hlog ▸ hlast rfl)
    | some status =>
      cases status with
      | finish => exact absurd rfl hne
      | process =>
        refine h.rearm (t := (a.setEvent id ⟨name, .processing, some .finish⟩).emit
          (.onMessage id (if ok then "" else "canceled")))
          (v := ⟨some ⟨name, .processing, some .finish⟩, 0, 0, 0, true⟩) he ⟨some .finish, rfl⟩ ?_
          (.handed name) hservices hreached hnext ?_ ?_
        · rw [view_emit_onMessage, view_setEvent, harm]
          simp only [Function.update_self, Function.update_idem, Function.update_of_ne hid]
          rw [Function.update_comm hid, Function.update_idem, Function.update_comm hid.symm]
        · intro _ x hx
          replace hx : x ∈ s.creating := hcreating ▸ hx
          exact ⟨hx, hcrash, h.not_creating hcrash he (.inr (by simp)) x hx⟩
        · exact CleanLast.emit (hlog ▸ hlast rfl) fun x _ hx => by cases hx
  | finishing name =>
    obtain rfl := Option.some.inj hevent
    refine h.advance (v := ⟨some ⟨name, .processing, some .finish⟩, 0, 1, 1, true⟩) he
      ⟨some .finish, rfl⟩ ?_ (.cleaned name) rfl rfl rfl ?_ ?_
    · show (((s.takeTag id).emit (.proceed id ok)).emit (.clean id)).view = _
      simp only [view_emit_clean, view_emit_proceed, view_takeTag, Function.update_self,
        Function.update_idem, hview]
    · exact fun _ x hx => ⟨hx, hcrash, h.not_creating hcrash he (.inl rfl) x hx⟩
    · exact (hlast rfl).emit fun x _ hx => by cases hx

/-! ## The other steps -/

theorem Inv.register {s : GrpcServer} (h : s.Inv) (hloop : s.loop = none) {name : String}
    (hname : name ∉ s.services) :
    Inv { s with services := s.services.orderedInsert (· ≤ ·) name } := by
  have hreached : s.reached = 0 := by rw [reached, hloop]; rfl
  have hunarmed : ∀ n id, ¬ s.Armed n id := by
    intro n id harm
    have := h.known n id harm
    rw [hreached] at this
    cases this
  refine ⟨h.stage, h.fresh, ?_, h.creating, ?_, fun n id harm => absurd harm (hunarmed n id),
    h.cleanLast⟩
  · exact (List.perm_orderedInsert _ name s.services).nodup_iff.mpr
      (List.nodup_cons.mpr ⟨hname, h.nodup⟩)
  · intro n hn
    replace hn : n ∈ (s.services.orderedInsert (· ≤ ·) name).take s.reached := hn
    rw [hreached] at hn
    cases hn

theorem Inv.run {s : GrpcServer} (h : s.Inv) (hloop : s.loop = none) :
    Inv { s with loop := some 0 } := by
  have hreached : s.reached = 0 := by rw [reached, hloop]; rfl
  refine ⟨h.stage, h.fresh, h.nodup, h.creating, fun n hn => ?_, fun n id harm => ?_, h.cleanLast⟩
  · cases hn
  · have := h.known n id harm
    rw [hreached] at this
    cases this

theorem Inv.init {s : GrpcServer} (h : s.Inv) (hcrash : s.crashed = false) {id : GrpcEventId}
    (hid : s.creating = some id) : Inv { s.setServiceEvent id with creating := none } := by
  obtain ⟨name, he⟩ := h.creating hcrash id hid
  have hstage := h.stage id
  have hview := view_setServiceEvent he
  obtain ⟨v, hv⟩ : ∃ v, s.view id = v := ⟨_, rfl⟩
  have hevent : v.event = some ⟨name, .process, none⟩ := hv ▸ he
  rw [hv] at hstage hview
  cases hstage with
  | absent | handed | finishing | cleaned | lost => cases hevent
  | waiting n status hne =>
    cases hevent
    exact h.advance (t := { s.setServiceEvent id with creating := none }) he
      ⟨some .process, rfl⟩ hview (.waiting name (some .process) (by simp)) rfl rfl rfl
      (fun _ x hx => by cases hx) h.cleanLast

theorem Inv.finish {s : GrpcServer} (h : s.Inv) (hcrash : s.crashed = false) {id : GrpcEventId}
    {e : GrpcEvent} (hhanded : s.handed id = true) (hfresh : .finish id ∉ s.log)
    (he : s.events id = some e) :
    (((s.setEvent id { e with serviceEvent := some .finish }).addTag id).emit
      (.finish id)).Inv := by
  have hzero : (s.view id).finishes = 0 := List.count_eq_zero.mpr hfresh
  have hhanded : (s.view id).handed = true := hhanded
  have hstage := h.stage id
  obtain ⟨v, hview⟩ : ∃ v, s.view id = v := ⟨_, rfl⟩
  have hevent : v.event = some e := hview ▸ he
  rw [hview] at hzero hhanded hstage
  cases hstage with
  | absent | waiting | lost => cases hhanded
  | finishing | cleaned => cases hzero
  | handed name =>
    obtain rfl := Option.some.inj hevent
    refine h.advance (v := ⟨some ⟨name, .processing, some .finish⟩, 1, 1, 0, true⟩) he
      ⟨some .finish, rfl⟩ ?_ (.finishing name) rfl rfl rfl
      (fun _ x hx => ⟨hx, hcrash, h.not_creating hcrash he (.inl rfl) x hx⟩)
      (h.cleanLast.emit fun x _ hx => by cases hx)
    simp only [view_emit_finish, view_addTag, view_setEvent, Function.update_self,
      Function.update_idem, hview]

theorem Inv.step {s t : GrpcServer} {a : GrpcAction} (h : s.Inv) (ht : s.step a = some t) :
    t.Inv := by
  cases hcrash : s.crashed with
  | true => simp [GrpcServer.step, hcrash] at ht
  | false =>
    unfold GrpcServer.step at ht
    rw [if_neg (by simp [hcrash])] at ht
    cases a with
    | register name =>
      simp only at ht
      split at ht
      · cases ht
      · next hloop =>
        split at ht
        · cases ht; exact h
        · next hname => cases ht; exact h.register (not_not.mp hloop) hname
    | run =>
      simp only at ht
      split at ht
      · next hloop => cases ht; exact h.run hloop
      · cases ht
    | create =>
      simp only at ht
      split at ht
      · obtain ⟨i, hloop, ht⟩ := Option.bind_eq_some_iff.mp ht
        obtain ⟨name, hname, rfl⟩ := Option.map_eq_some_iff.mp ht
        exact h.create hloop hname
      · cases ht
    | init =>
      obtain ⟨id, hid, rfl⟩ := Option.map_eq_some_iff.mp ht
      exact h.init hcrash hid
    | deliver id ok =>
      simp only at ht
      split at ht
      · next htag =>
        obtain ⟨e, he, rfl⟩ := Option.map_eq_some_iff.mp ht
        exact h.deliver hcrash htag he ok
      · cases ht
    | finish id =>
      simp only at ht
      split at ht
      · next hguard =>
        obtain ⟨e, he, rfl⟩ := Option.map_eq_some_iff.mp ht
        exact h.finish hcrash hguard.1 hguard.2 he
      · cases ht

/-! ## Every run -/

theorem inv_of_reachable {s : GrpcServer} (h : system.Reachable s) : s.Inv :=
  h.invariant inv_new fun _ _ _ hs _ ht => hs.step ht

theorem Stage.counts {v : View} (h : Stage v) :
    v.tags ≤ 1 ∧ v.cleans = if 0 < v.finishes ∧ v.tags = 0 then 1 else 0 := by
  cases h <;> simp

theorem Stage.of_process {v : View} (h : Stage v) {e : GrpcEvent} (he : v.event = some e)
    (hstatus : e.status = .process) : 0 < v.tags ∧ v.cleans = 0 := by
  cases h with
  | absent => cases he
  | waiting => exact ⟨Nat.one_pos, rfl⟩
  | handed | finishing | cleaned | lost => cases he; cases hstatus

theorem Inv.law {s : GrpcServer} (h : s.Inv) : s.GrpcLaw where
  waiting name hname := by
    obtain ⟨id, harm, huniq⟩ := h.armed name hname
    have ⟨e, he, _, hstatus⟩ := harm
    obtain ⟨htags, hcleans⟩ := (h.stage id).of_process he hstatus
    exact ⟨id, ⟨harm, List.count_pos_iff.mp htags, List.count_eq_zero.mp hcleans⟩,
      fun x hx => huniq x hx.1⟩
  tags id _ := (h.stage id).counts.1
  cleanLast := h.cleanLast
  cleaned id := by
    have hcleans := (h.stage id).counts.2
    simp only [view, List.count_pos_iff, List.count_eq_zero] at hcleans
    exact hcleans

/-- Between all deliveries, in every order of deliveries, of calls of `Finish` and of the loop of
`Run`: each service that the loop has reached has exactly one event that waits, an event that is not
cleaned has at most one tag in the queue, nothing is delivered to a cleaned event, and an event is
cleaned once if `Finish` was called and its tag delivered, and not otherwise. -/
theorem grpcLaw_of_reachable {s : GrpcServer} (h : system.Reachable s) : s.GrpcLaw :=
  (inv_of_reachable h).law

/-- The loop of `Run` has made the event of `"a"`, and an RPC for it comes. -/
def onlyFirst : List GrpcAction :=
  [.register "a", .register "b", .run, .create, .init, .deliver 0 true]

/-- No event waits for `"b"` yet. -/
theorem service_not_reached : ∃ s, system.run system.init onlyFirst = some s ∧
    s.crashed = false ∧ "b" ∈ s.services ∧ ¬ ∃! id, s.Waiting "b" id := by
  have hrun : system.run system.init onlyFirst = some _ := rfl
  refine ⟨_, hrun, rfl, by decide, ?_⟩
  rintro ⟨id, ⟨harmed, -⟩, -⟩
  have hreached := (inv_of_reachable (System.reachable_of_run hrun)).known "b" id harmed
  exact absurd hreached (by decide)

/-- Two services. The first event of `"b"` has its RPC and is finished, and a second RPC of `"b"`
comes before the tag of the first is delivered. -/
def twoServices : List GrpcAction :=
  [.register "b", .register "a", .register "b", .run, .create, .init, .create, .init,
    .deliver 1 true, .finish 1, .deliver 2 false, .deliver 1 true]

theorem grpcLaw_twoServices : ∃ s, system.run system.init twoServices = some s ∧
    s.services = ["a", "b"] ∧ s.GrpcLaw ∧ s.Waiting "b" 3 ∧ s.log =
      [.proceed 1 true, .onMessage 1 "", .finish 1, .proceed 2 false, .onMessage 2 "canceled",
        .proceed 1 true, .clean 1] :=
  ⟨_, rfl, by decide, grpcLaw_of_reachable (System.reachable_of_run
      (show system.run system.init twoServices = some _ from rfl)),
    ⟨⟨_, rfl, rfl, rfl⟩, by decide, by decide⟩, by decide⟩

end GrpcServer

end Sheep
