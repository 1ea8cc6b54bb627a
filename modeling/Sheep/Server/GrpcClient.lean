import Mathlib.Data.List.Nodup
import Sheep.Server.GrpcServer

/-!
# `GrpcClient`

The requests of any number of `GrpcClient`s on the completion queue (`small_server/grpc_client.h`,
`grpc_looper.h`). `doReq` puts the user's function into `onDone_`, makes a `GrpcEvent`, points
`event_` to it, and registers it as the tag. When the tag is delivered, `Proceed` runs `onDone_` and
then cleans what `event_` points to. Without a stub `doReq` runs `onDone_` at once. The function may
call `DoReq` again, and so may other threads. A client that a service event has made runs the
function only while the service event exists. The call is started with the member `grpcContext_`,
and a `grpc::ClientContext` is for one call: the library stops the program when it gets another.

`GrpcClientLaw`: the tags are of events that exist, a delivery runs the function of its own request
and cleans its own event, no function is replaced while it runs, no request is answered twice, and
an event that is not waited for has been deleted. `grpcClientLaw_iff`: a run keeps the law if and
only if `DoReq` is called only on clients that have no request and have started no call before. A
`DoReq` during a request takes its function away, and one after it uses `grpcContext_` again.
-/

namespace Sheep

/-- What a `GrpcEvent` is for: its client, and the number of the call of `DoReq`. -/
structure ClientRequest (C : Type) where
  client : C
  request : Nat
  deriving DecidableEq, Repr

/-- What is called. -/
inductive GrpcClientCall
  /-- the user's function of this request -/
  | onDone (request : Nat) (errMsg : String)
  /-- the function of `GrpcClientWithService::DoReq` finds no service event -/
  | skip (request : Nat)
  /-- `GrpcEvent::Clean` -/
  | clean (id : GrpcEventId)
  deriving DecidableEq, Repr

/-- The request that a call answers. -/
def GrpcClientCall.request? : GrpcClientCall → Option Nat
  | .onDone request _ | .skip request => some request
  | .clean _ => none

structure GrpcClients (C S : Type) where
  /-- `event_`; nothing resets it -/
  event : C → Option GrpcEventId
  /-- the request whose function is in `onDone_` -/
  onDone : C → Option Nat
  /-- `grpcContext_` has a call -/
  grpcContext : C → Bool
  /-- the `GrpcEvent`s that exist -/
  events : GrpcEventId → Option (ClientRequest C)
  nextId : GrpcEventId
  /-- the tags in the completion queue -/
  tags : List GrpcEventId
  /-- the event whose `Proceed` runs `onDone_` -/
  proceeding : Option (GrpcEventId × ClientRequest C)
  /-- the calls of `onDone_` in `doReq` that run -/
  failing : List (ClientRequest C)
  /-- the number of calls of `DoReq` -/
  requests : Nat
  calls : List GrpcClientCall
  /-- the service events that exist -/
  alive : S → Bool
  /-- a deleted event was used, a function that is not there, or a `grpcContext_` that has a call -/
  fault : Bool

inductive GrpcClientAction (C S : Type)
  /-- `stub`: the channel has one -/
  | doReq (c : C) (stub : Bool)
  /-- the queue delivers the tag; `statusOk`: `status_.ok()` -/
  | deliver (id : GrpcEventId) (ok statusOk : Bool)
  /-- `onDone_` returns to `Proceed` -/
  | clean
  /-- `onDone_` returns to `doReq` -/
  | returned (r : ClientRequest C)
  /-- the last `shared_ptr` to the service event goes -/
  | gone (e : S)
  deriving DecidableEq, Repr

namespace GrpcClients

variable {C S : Type} [DecidableEq C] [DecidableEq S]

omit [DecidableEq C] [DecidableEq S] in
def new : GrpcClients C S :=
  ⟨fun _ => none, fun _ => none, fun _ => false, fun _ => none, 0, [], none, [], 0, [],
    fun _ => true, false⟩

variable (service : C → Option S)

omit [DecidableEq C] [DecidableEq S] in
/-- `onDone_(*this, errMsg)`; `service` is the service event that has made the client. -/
def runOnDone (s : GrpcClients C S) (c : C) (errMsg : String) : GrpcClients C S :=
  match s.onDone c with
  | none => { s with fault := true }
  | some r =>
    { s with
      calls := s.calls ++ [if (service c).all s.alive then .onDone r errMsg else .skip r] }

def doReq (s : GrpcClients C S) (c : C) (stub : Bool) : GrpcClients C S :=
  let t := { s with
    onDone := Function.update s.onDone c (some s.requests), requests := s.requests + 1 }
  if stub then
    if s.grpcContext c then { t with fault := true }
    else { t with
      grpcContext := Function.update s.grpcContext c true
      events := Function.update s.events s.nextId (some ⟨c, s.requests⟩)
      event := Function.update s.event c (some s.nextId)
      nextId := s.nextId + 1
      tags := s.tags ++ [s.nextId] }
  else { t.runOnDone service c "stub is nullptr" with failing := s.failing ++ [⟨c, s.requests⟩] }

/-- `Proceed`, up to the return of `onDone_`. -/
def proceed (s : GrpcClients C S) (id : GrpcEventId) (ok statusOk : Bool) : GrpcClients C S :=
  match s.events id with
  | none => { s with fault := true }
  | some r =>
    { { s with tags := s.tags.erase id }.runOnDone service r.client
        (if ok && statusOk then "" else "Grpc Client failed") with
      proceeding := some (id, r) }

/-- `event_->Clean()`. -/
def clean (s : GrpcClients C S) (r : ClientRequest C) : GrpcClients C S :=
  match s.event r.client with
  | none => { s with fault := true }
  | some id =>
    if (s.events id).isNone then { s with fault := true }
    else { s with
      events := Function.update s.events id none
      proceeding := none
      calls := s.calls ++ [.clean id] }

def step (s : GrpcClients C S) : GrpcClientAction C S → Option (GrpcClients C S)
  | .doReq c stub => if s.fault then none else some (s.doReq service c stub)
  | .deliver id ok statusOk =>
    -- the deliveries are made by one thread
    if s.fault = false ∧ s.proceeding = none ∧ id ∈ s.tags then
      some (s.proceed service id ok statusOk)
    else none
  | .clean => if s.fault then none else s.proceeding.map fun p => s.clean p.2
  | .returned r =>
    if s.fault = false ∧ r ∈ s.failing then some { s with failing := s.failing.erase r } else none
  | .gone e => if s.fault then none else some { s with alive := Function.update s.alive e false }

def system : System (GrpcClients C S) (GrpcClientAction C S) := ⟨new, step service⟩

omit [DecidableEq C] [DecidableEq S] in
/-- The requests that have been answered, in this order. -/
def answered (s : GrpcClients C S) : List Nat := s.calls.filterMap GrpcClientCall.request?

omit [DecidableEq C] [DecidableEq S] in
/-- `event_` and `onDone_` of the client are those of this request. -/
def Current (s : GrpcClients C S) (id : GrpcEventId) (r : ClientRequest C) : Prop :=
  s.events id = some r ∧ s.event r.client = some id ∧ s.onDone r.client = some r.request

omit [DecidableEq C] [DecidableEq S] in
structure GrpcClientLaw (s : GrpcClients C S) : Prop where
  /-- the delivery of a tag will find its event, run its function and clean its event -/
  queued : ∀ id ∈ s.tags, ∃ r, s.Current id r ∧ r.request ∉ s.answered
  proceeding : ∀ p ∈ s.proceeding, s.Current p.1 p.2
  failing : ∀ r ∈ s.failing, s.onDone r.client = some r.request
  once : s.answered.Nodup
  complete : ∀ n < s.requests, n ∈ s.answered ∨
    ∃ id ∈ s.tags, ∃ r, s.events id = some r ∧ r.request = n
  freed : ∀ id, (s.events id).isSome → id ∈ s.tags ∨ ∃ p ∈ s.proceeding, p.1 = id
  fault : s.fault = false

/-- The client has a request that is not over: its tag is in the queue, or its function runs. -/
def busy (s : GrpcClients C S) (c : C) : Bool :=
  s.tags.any (fun id => (s.events id).any (·.client = c)) || s.proceeding.any (·.2.client = c) ||
    s.failing.any (·.client = c)

/-- `DoReq` is called only on a client without a request, and starts its first call. -/
def OneRequest (s : GrpcClients C S) : GrpcClientAction C S → Prop
  | .doReq c stub => s.busy c = false ∧ (stub = true → s.grpcContext c = false)
  | _ => True

instance decidableOneRequest (s : GrpcClients C S) : (a : GrpcClientAction C S) →
    Decidable (s.OneRequest a)
  | .doReq c stub => inferInstanceAs
      (Decidable (s.busy c = false ∧ (stub = true → s.grpcContext c = false)))
  | .deliver _ _ _ | .clean | .returned _ | .gone _ => isTrue True.intro

/-! ## Numbers -/

/-- What holds in every run: numbers are given once. -/
structure Numbered (s : GrpcClients C S) : Prop where
  onDone : ∀ c n, s.onDone c = some n → n < s.requests
  events : ∀ id r, s.events id = some r → id < s.nextId ∧ r.request < s.requests
  unique : ∀ id id' r r', s.events id = some r → s.events id' = some r' →
    r.request = r'.request → id = id'
  tags : ∀ id ∈ s.tags, id < s.nextId
  tags_nodup : s.tags.Nodup
  answered : ∀ n ∈ s.answered, n < s.requests
  proceeding : ∀ p ∈ s.proceeding, p.1 < s.nextId ∧ p.1 ∉ s.tags

variable {service} {s t : GrpcClients C S} {c : C} {n : Nat} {id : GrpcEventId}
  {r : ClientRequest C}

variable (service) in
omit [DecidableEq C] [DecidableEq S] in
/-- `onDone_` holds the function of the request `n`. -/
theorem runOnDone_some (errMsg : String) (h : s.onDone c = some n) : ∃ call,
    s.runOnDone service c errMsg = { s with calls := s.calls ++ [call] } ∧
      call.request? = some n := by
  refine ⟨if (service c).all s.alive then .onDone n errMsg else .skip n, ?_, ?_⟩
  · rw [runOnDone, h]
  · split <;> rfl

omit [DecidableEq C] [DecidableEq S] in
theorem answered_append {call : GrpcClientCall} (hcalls : t.calls = s.calls ++ [call]) :
    t.answered = s.answered ++ call.request?.toList := by
  rw [answered, hcalls, List.filterMap_append]
  cases hr : call.request? <;> simp [answered, hr]

omit [DecidableEq S] in
theorem doReq_stub (hfirst : s.grpcContext c = false) : s.doReq service c true = { s with
    onDone := Function.update s.onDone c (some s.requests)
    requests := s.requests + 1
    grpcContext := Function.update s.grpcContext c true
    events := Function.update s.events s.nextId (some ⟨c, s.requests⟩)
    event := Function.update s.event c (some s.nextId)
    nextId := s.nextId + 1
    tags := s.tags ++ [s.nextId] } := by
  rw [doReq, hfirst]
  rfl

omit [DecidableEq S] in
theorem doReq_again (hused : s.grpcContext c = true) : s.doReq service c true = { s with
    onDone := Function.update s.onDone c (some s.requests)
    requests := s.requests + 1
    fault := true } := by
  rw [doReq, hused]
  rfl

variable (service) in
omit [DecidableEq S] in
theorem doReq_fails : ∃ call, s.doReq service c false = { s with
    onDone := Function.update s.onDone c (some s.requests)
    requests := s.requests + 1
    calls := s.calls ++ [call]
    failing := s.failing ++ [⟨c, s.requests⟩] } ∧ call.request? = some s.requests := by
  have honDone : Function.update s.onDone c (some s.requests) c = some s.requests :=
    Function.update_self ..
  obtain ⟨call, heq, hcall⟩ := runOnDone_some service (c := c)
    (s := { s with
      onDone := Function.update s.onDone c (some s.requests), requests := s.requests + 1 })
    "stub is nullptr" honDone
  refine ⟨call, ?_, hcall⟩
  rw [doReq]
  simp only [Bool.false_eq_true, if_false, heq]

variable (service) in
omit [DecidableEq C] [DecidableEq S] in
theorem proceed_some (ok statusOk : Bool) (hr : s.events id = some r)
    (hn : s.onDone r.client = some n) : ∃ call, s.proceed service id ok statusOk = { s with
      tags := s.tags.erase id
      calls := s.calls ++ [call]
      proceeding := some (id, r) } ∧ call.request? = some n := by
  obtain ⟨call, heq, hcall⟩ := runOnDone_some service
    (s := { s with tags := s.tags.erase id }) (c := r.client)
    (if ok && statusOk then "" else "Grpc Client failed") hn
  refine ⟨call, ?_, hcall⟩
  rw [proceed, hr]
  simp only [heq]

theorem update_some_or {α β : Type} [DecidableEq α] {f : α → Option β} {a x : α} {b y : β}
    (h : Function.update f a (some b) x = some y) : (x = a ∧ y = b) ∨ (x ≠ a ∧ f x = some y) := by
  rcases eq_or_ne x a with rfl | hx
  · rw [Function.update_self] at h
    exact .inl ⟨rfl, (Option.some.inj h).symm⟩
  · rw [Function.update_of_ne hx] at h
    exact .inr ⟨hx, h⟩

theorem update_none_some {α β : Type} [DecidableEq α] {f : α → Option β} {a x : α} {y : β}
    (h : Function.update f a none x = some y) : x ≠ a ∧ f x = some y := by
  rcases eq_or_ne x a with rfl | hx
  · rw [Function.update_self] at h
    cases h
  · rw [Function.update_of_ne hx] at h
    exact ⟨hx, h⟩

omit [DecidableEq C] [DecidableEq S] in
theorem numbered_new : (new : GrpcClients C S).Numbered :=
  ⟨nofun, nofun, nofun, nofun, .nil, nofun, nofun⟩

omit [DecidableEq S] in
theorem Numbered.doReq (hs : s.Numbered) (stub : Bool) : (s.doReq service c stub).Numbered := by
  have honDone : ∀ c' n, Function.update s.onDone c (some s.requests) c' = some n →
      n < s.requests + 1 := by
    intro c' n h
    rcases update_some_or h with ⟨-, rfl⟩ | ⟨-, h⟩
    · exact Nat.lt_succ_self _
    · exact Nat.lt_succ_of_lt (hs.onDone c' n h)
  have hevents : ∀ id r, s.events id = some r → id < s.nextId ∧ r.request < s.requests + 1 :=
    fun id r h => ⟨(hs.events id r h).1, Nat.lt_succ_of_lt (hs.events id r h).2⟩
  have hanswered : ∀ n ∈ s.answered, n < s.requests + 1 := fun n h =>
    Nat.lt_succ_of_lt (hs.answered n h)
  cases stub with
  | true =>
    cases hused : s.grpcContext c with
    | true =>
      rw [doReq_again hused]
      exact { hs with onDone := honDone, events := hevents, answered := hanswered }
    | false =>
      rw [doReq_stub hused]
      refine ⟨honDone, fun id r h => ?_, fun id id' r r' h h' heq => ?_, fun id h => ?_, ?_,
        fun n h => ?_, fun p hp => ⟨?_, ?_⟩⟩
      · rcases update_some_or h with ⟨rfl, rfl⟩ | ⟨-, h⟩
        · exact ⟨Nat.lt_succ_self _, Nat.lt_succ_self _⟩
        · exact (hevents id r h).imp_left Nat.lt_succ_of_lt
      · rcases update_some_or h with ⟨rfl, rfl⟩ | ⟨-, h⟩
        · rcases update_some_or h' with ⟨rfl, -⟩ | ⟨-, h'⟩
          · rfl
          · exact absurd (heq ▸ (hs.events id' r' h').2) (Nat.lt_irrefl _)
        · rcases update_some_or h' with ⟨-, rfl⟩ | ⟨-, h'⟩
          · exact absurd (heq ▸ (hs.events id r h).2) (Nat.lt_irrefl _)
          · exact hs.unique id id' r r' h h' heq
      · rcases List.mem_append.mp h with h | h
        · exact Nat.lt_succ_of_lt (hs.tags id h)
        · exact List.mem_singleton.mp h ▸ Nat.lt_succ_self _
      · rw [← List.concat_eq_append]
        exact List.Nodup.concat (fun h => Nat.lt_irrefl _ (hs.tags _ h)) hs.tags_nodup
      · exact hanswered n h
      · exact Nat.lt_succ_of_lt (hs.proceeding p hp).1
      · intro h
        rcases List.mem_append.mp h with h | h
        · exact (hs.proceeding p hp).2 h
        · exact Nat.ne_of_lt (hs.proceeding p hp).1 (List.mem_singleton.mp h)
  | false =>
    obtain ⟨call, heq, hcall⟩ := doReq_fails service (s := s) (c := c)
    rw [heq]
    refine ⟨honDone, hevents, hs.unique, hs.tags, hs.tags_nodup, fun n h => ?_, hs.proceeding⟩
    rw [answered_append (s := s) rfl, hcall] at h
    rcases List.mem_append.mp h with h | h
    · exact hanswered n h
    · exact List.mem_singleton.mp h ▸ Nat.lt_succ_self _

omit [DecidableEq C] [DecidableEq S] in
theorem Numbered.fault (hs : s.Numbered) : Numbered { s with fault := true } := { hs with }

omit [DecidableEq C] [DecidableEq S] in
theorem Numbered.proceed (hs : s.Numbered) (hid : id ∈ s.tags) (ok statusOk : Bool) :
    (s.proceed service id ok statusOk).Numbered := by
  cases hr : s.events id with
  | none =>
    rw [GrpcClients.proceed, hr]
    exact hs.fault
  | some r =>
    have htags : ∀ id' ∈ s.tags.erase id, id' < s.nextId := fun id' h =>
      hs.tags id' (List.mem_of_mem_erase h)
    have hproceeding : ∀ p ∈ some (id, r), p.1 < s.nextId ∧ p.1 ∉ s.tags.erase id := by
      rintro p ⟨⟩
      exact ⟨hs.tags id hid, hs.tags_nodup.not_mem_erase⟩
    cases hn : s.onDone r.client with
    | none =>
      rw [GrpcClients.proceed, hr]
      simp only [runOnDone, hn]
      exact ⟨hs.onDone, hs.events, hs.unique, htags, hs.tags_nodup.erase id, hs.answered,
        hproceeding⟩
    | some n =>
      obtain ⟨call, heq, hcall⟩ := proceed_some service ok statusOk hr hn
      rw [heq]
      refine ⟨hs.onDone, hs.events, hs.unique, htags, hs.tags_nodup.erase id, fun m h => ?_,
        hproceeding⟩
      rw [answered_append (s := s) rfl, hcall] at h
      rcases List.mem_append.mp h with h | h
      · exact hs.answered m h
      · exact List.mem_singleton.mp h ▸ hs.onDone _ n hn

omit [DecidableEq C] [DecidableEq S] in
theorem Numbered.clean (hs : s.Numbered) (r : ClientRequest C) : (s.clean r).Numbered := by
  unfold GrpcClients.clean
  split
  · exact hs.fault
  · split
    · exact hs.fault
    next id _ _ =>
      refine ⟨hs.onDone, fun id' r' h => hs.events id' r' (update_none_some h).2,
        fun _ _ _ _ h h' =>
          hs.unique _ _ _ _ (update_none_some h).2 (update_none_some h').2,
        hs.tags, hs.tags_nodup, fun n h => ?_, nofun⟩
      rw [answered_append (s := s) rfl] at h
      exact hs.answered n (by simpa [GrpcClientCall.request?] using h)

theorem Numbered.step {a : GrpcClientAction C S} (hs : s.Numbered)
    (ht : s.step service a = some t) : t.Numbered := by
  cases a with
  | doReq c stub =>
    simp only [GrpcClients.step, Option.ite_none_left_eq_some, Option.some.injEq] at ht
    exact ht.2 ▸ hs.doReq stub
  | deliver id ok statusOk =>
    simp only [GrpcClients.step, Option.ite_none_right_eq_some, Option.some.injEq] at ht
    exact ht.2 ▸ hs.proceed ht.1.2.2 ok statusOk
  | clean =>
    simp only [GrpcClients.step, Option.ite_none_left_eq_some] at ht
    obtain ⟨p, -, rfl⟩ := Option.map_eq_some_iff.mp ht.2
    exact hs.clean p.2
  | returned r =>
    simp only [GrpcClients.step, Option.ite_none_right_eq_some, Option.some.injEq] at ht
    exact ht.2 ▸ { hs with }
  | gone e =>
    simp only [GrpcClients.step, Option.ite_none_left_eq_some, Option.some.injEq] at ht
    exact ht.2 ▸ { hs with }

/-! ## The law, step by step -/

omit [DecidableEq S] in
theorem not_busy_iff : s.busy c = false ↔
    (∀ id ∈ s.tags, ∀ r ∈ s.events id, r.client ≠ c) ∧ (∀ p ∈ s.proceeding, p.2.client ≠ c) ∧
      ∀ r ∈ s.failing, r.client ≠ c := by
  simp only [busy, Bool.or_eq_false_iff, List.any_eq_false, Option.any_eq_false,
    decide_eq_false_iff_not, decide_eq_true_eq, and_assoc, Option.mem_def, Option.any_eq_true,
    not_exists, not_and]

omit [DecidableEq C] [DecidableEq S] in
theorem law_new : (new : GrpcClients C S).GrpcClientLaw :=
  ⟨nofun, nofun, nofun, .nil, nofun, nofun, rfl⟩

omit [DecidableEq C] [DecidableEq S] in
/-- What `event_` and `onDone_` of another client are stays. -/
theorem Current.of_eq (h : s.Current id r) (hevents : t.events id = s.events id)
    (hevent : t.event r.client = s.event r.client)
    (honDone : t.onDone r.client = s.onDone r.client) : t.Current id r :=
  ⟨hevents.trans h.1, hevent.trans h.2.1, honDone.trans h.2.2⟩

omit [DecidableEq S] in
theorem GrpcClientLaw.doReq_stub (hs : s.GrpcClientLaw) (hnum : s.Numbered)
    (hidle : s.busy c = false) (hfirst : s.grpcContext c = false) :
    (s.doReq service c true).GrpcClientLaw := by
  obtain ⟨hqueued, hproceeding, hfailing⟩ := not_busy_iff.mp hidle
  rw [GrpcClients.doReq_stub hfirst]
  have hold : ∀ {id r}, s.Current id r → r.client ≠ c → Current { s with
      onDone := Function.update s.onDone c (some s.requests)
      requests := s.requests + 1
      grpcContext := Function.update s.grpcContext c true
      events := Function.update s.events s.nextId (some ⟨c, s.requests⟩)
      event := Function.update s.event c (some s.nextId)
      nextId := s.nextId + 1
      tags := s.tags ++ [s.nextId] } id r := fun {id r} h hne =>
    h.of_eq (Function.update_of_ne (Nat.ne_of_lt (hnum.events id r h.1).1) ..)
      (Function.update_of_ne hne ..) (Function.update_of_ne hne ..)
  refine ⟨fun id hid => ?_, fun p hp => ?_, fun r hr => ?_, hs.once, fun n hn => ?_,
    fun id hid => ?_, hs.fault⟩
  · rcases List.mem_append.mp hid with hid | hid
    · obtain ⟨r, hr, hopen⟩ := hs.queued id hid
      exact ⟨r, hold hr (hqueued id hid r hr.1), hopen⟩
    · obtain rfl := List.mem_singleton.mp hid
      refine ⟨⟨c, s.requests⟩, ⟨Function.update_self .., Function.update_self ..,
        Function.update_self ..⟩, fun h => ?_⟩
      exact Nat.lt_irrefl _ (hnum.answered _ h)
  · exact hold (hs.proceeding p hp) (hproceeding p hp)
  · exact (Function.update_of_ne (hfailing r hr) ..).trans (hs.failing r hr)
  · rcases Nat.lt_succ_iff_lt_or_eq.mp hn with hn | rfl
    · refine (hs.complete n hn).imp_right fun ⟨id, hid, r, hr, heq⟩ => ?_
      refine ⟨id, List.mem_append_left _ hid, r, ?_, heq⟩
      exact (Function.update_of_ne (Nat.ne_of_lt (hnum.tags id hid)) ..).trans hr
    · exact .inr ⟨s.nextId, List.mem_append_right _ (List.mem_singleton.mpr rfl),
        ⟨c, s.requests⟩, Function.update_self .., rfl⟩
  · obtain ⟨r, hr⟩ := Option.isSome_iff_exists.mp hid
    rcases update_some_or hr with ⟨rfl, -⟩ | ⟨-, hr⟩
    · exact .inl (List.mem_append_right _ (List.mem_singleton.mpr rfl))
    · exact (hs.freed id (hr ▸ rfl)).imp_left (List.mem_append_left _)

omit [DecidableEq C] [DecidableEq S] in
/-- A request is answered for the first time. -/
theorem GrpcClientLaw.answered_nodup (hs : s.GrpcClientLaw) {call : GrpcClientCall}
    (hcalls : t.calls = s.calls ++ [call]) (hcall : call.request? = some n)
    (hopen : n ∉ s.answered) : t.answered.Nodup := by
  rw [answered_append hcalls, hcall, Option.toList_some, ← List.concat_eq_append]
  exact List.Nodup.concat hopen hs.once

omit [DecidableEq S] in
theorem GrpcClientLaw.doReq_fails (hs : s.GrpcClientLaw) (hnum : s.Numbered)
    (hidle : s.busy c = false) : (s.doReq service c false).GrpcClientLaw := by
  obtain ⟨hqueued, hproceeding, hfailing⟩ := not_busy_iff.mp hidle
  obtain ⟨call, heq, hcall⟩ := GrpcClients.doReq_fails service (s := s) (c := c)
  rw [heq]
  have hanswered : answered { s with
      onDone := Function.update s.onDone c (some s.requests)
      requests := s.requests + 1
      calls := s.calls ++ [call]
      failing := s.failing ++ [⟨c, s.requests⟩] } = s.answered ++ [s.requests] := by
    rw [answered_append (s := s) rfl, hcall, Option.toList_some]
  have hfresh : s.requests ∉ s.answered := fun h => Nat.lt_irrefl _ (hnum.answered _ h)
  refine ⟨fun id hid => ?_, fun p hp => ?_, fun r hr => ?_,
    hs.answered_nodup (s := s) rfl hcall hfresh, fun n hn => ?_, hs.freed, hs.fault⟩
  · obtain ⟨r, hr, hopen⟩ := hs.queued id hid
    refine ⟨r, hr.of_eq rfl rfl (Function.update_of_ne (hqueued id hid r hr.1) ..), ?_⟩
    rw [hanswered, List.mem_append, List.mem_singleton, not_or]
    exact ⟨hopen, Nat.ne_of_lt (hnum.events id r hr.1).2⟩
  · exact (hs.proceeding p hp).of_eq rfl rfl (Function.update_of_ne (hproceeding p hp) ..)
  · rcases List.mem_append.mp hr with hr | hr
    · exact (Function.update_of_ne (hfailing r hr) ..).trans (hs.failing r hr)
    · obtain rfl := List.mem_singleton.mp hr
      exact Function.update_self ..
  · rw [hanswered]
    rcases Nat.lt_succ_iff_lt_or_eq.mp hn with hn | rfl
    · exact (hs.complete n hn).imp_left (List.mem_append_left _)
    · exact .inl (List.mem_append_right _ (List.mem_singleton.mpr rfl))

omit [DecidableEq C] [DecidableEq S] in
theorem GrpcClientLaw.proceed (hs : s.GrpcClientLaw) (hnum : s.Numbered)
    (hnone : s.proceeding = none) (hid : id ∈ s.tags) (ok statusOk : Bool) :
    (s.proceed service id ok statusOk).GrpcClientLaw := by
  obtain ⟨r, hr, hopen⟩ := hs.queued id hid
  obtain ⟨call, heq, hcall⟩ := proceed_some service ok statusOk hr.1 hr.2.2
  rw [heq]
  have hanswered : answered { s with
      tags := s.tags.erase id
      calls := s.calls ++ [call]
      proceeding := some (id, r) } = s.answered ++ [r.request] := by
    rw [answered_append (s := s) rfl, hcall, Option.toList_some]
  refine ⟨fun id' hid' => ?_, ?_, hs.failing, hs.answered_nodup (s := s) rfl hcall hopen,
    fun n hn => ?_, fun id' hid' => ?_, hs.fault⟩
  · obtain ⟨r', hr', hopen'⟩ := hs.queued id' (List.mem_of_mem_erase hid')
    refine ⟨r', hr', ?_⟩
    rw [hanswered, List.mem_append, List.mem_singleton, not_or]
    refine ⟨hopen', fun h => ?_⟩
    obtain rfl := hnum.unique id' id r' r hr'.1 hr.1 h
    exact hnum.tags_nodup.not_mem_erase hid'
  · rintro p ⟨⟩
    exact hr
  · rw [hanswered]
    rcases hs.complete n hn with hn | ⟨id', hid', r', hr', rfl⟩
    · exact .inl (List.mem_append_left _ hn)
    · by_cases hne : id' = id
      · subst hne
        obtain rfl := Option.some.inj (hr'.symm.trans hr.1)
        exact .inl (List.mem_append_right _ (List.mem_singleton.mpr rfl))
      · exact .inr ⟨id', (List.mem_erase_of_ne hne).mpr hid', r', hr', rfl⟩
  · rcases hs.freed id' hid' with hid' | ⟨p, hp, -⟩
    · by_cases hne : id' = id
      · exact .inr ⟨(id, r), rfl, hne.symm⟩
      · exact .inl ((List.mem_erase_of_ne hne).mpr hid')
    · rw [hnone] at hp
      cases hp

omit [DecidableEq C] [DecidableEq S] in
/-- `Clean` deletes the event that was delivered. -/
theorem GrpcClientLaw.clean (hs : s.GrpcClientLaw) (hnum : s.Numbered)
    {p : GrpcEventId × ClientRequest C} (hp : s.proceeding = some p) :
    (s.clean p.2).GrpcClientLaw := by
  obtain ⟨hevents, hevent, -⟩ := hs.proceeding p hp
  obtain ⟨-, hout⟩ := hnum.proceeding p hp
  have heq : s.clean p.2 = { s with
      events := Function.update s.events p.1 none
      proceeding := none
      calls := s.calls ++ [.clean p.1] } := by
    rw [GrpcClients.clean, hevent]
    simp only [hevents, Option.isNone_some, Bool.false_eq_true, if_false]
  rw [heq]
  have hanswered : answered { s with
      events := Function.update s.events p.1 none
      proceeding := none
      calls := s.calls ++ [.clean p.1] } = s.answered := by
    rw [answered_append (s := s) rfl]
    exact List.append_nil _
  have hne : ∀ {id}, id ∈ s.tags → id ≠ p.1 := fun hid h => hout (h ▸ hid)
  refine ⟨fun id hid => ?_, nofun, hs.failing, hanswered ▸ hs.once, fun n hn => ?_,
    fun id hid => ?_, hs.fault⟩
  · obtain ⟨r, hr, hopen⟩ := hs.queued id hid
    exact ⟨r, hr.of_eq (Function.update_of_ne (hne hid) ..) rfl rfl, hanswered ▸ hopen⟩
  · rw [hanswered]
    refine (hs.complete n hn).imp_right fun ⟨id, hid, r, hr, heq⟩ => ?_
    exact ⟨id, hid, r, (Function.update_of_ne (hne hid) ..).trans hr, heq⟩
  · obtain ⟨r, hr⟩ := Option.isSome_iff_exists.mp hid
    obtain ⟨hidne, hr⟩ := update_none_some hr
    refine (hs.freed id (hr ▸ rfl)).imp_right fun ⟨q, hq, hqid⟩ => ?_
    obtain rfl := Option.some.inj (hq.symm.trans hp)
    exact absurd hqid.symm hidne

/-- A step from a state with the law, unless it is a second request of a client. -/
theorem GrpcClientLaw.step {a : GrpcClientAction C S} (hs : s.GrpcClientLaw) (hnum : s.Numbered)
    (ha : s.OneRequest a) (ht : s.step service a = some t) : t.GrpcClientLaw := by
  cases a with
  | doReq c stub =>
    simp only [GrpcClients.step, Option.ite_none_left_eq_some, Option.some.injEq] at ht
    obtain ⟨-, rfl⟩ := ht
    cases stub with
    | true => exact hs.doReq_stub hnum ha.1 (ha.2 rfl)
    | false => exact hs.doReq_fails hnum ha.1
  | deliver id ok statusOk =>
    simp only [GrpcClients.step, Option.ite_none_right_eq_some, Option.some.injEq] at ht
    obtain ⟨⟨-, hnone, hid⟩, rfl⟩ := ht
    exact hs.proceed hnum hnone hid ok statusOk
  | clean =>
    simp only [GrpcClients.step, Option.ite_none_left_eq_some] at ht
    obtain ⟨p, hp, rfl⟩ := Option.map_eq_some_iff.mp ht.2
    exact hs.clean hnum hp
  | returned r =>
    simp only [GrpcClients.step, Option.ite_none_right_eq_some, Option.some.injEq] at ht
    obtain ⟨-, rfl⟩ := ht
    exact { hs with failing := fun r' hr' => hs.failing r' (List.mem_of_mem_erase hr') }
  | gone e =>
    simp only [GrpcClients.step, Option.ite_none_left_eq_some, Option.some.injEq] at ht
    obtain ⟨-, rfl⟩ := ht
    exact { hs with }

/-! ## The condition is exact -/

omit [DecidableEq S] in
/-- `doReq` puts the function of its own request into `onDone_`. -/
theorem doReq_onDone (stub : Bool) : (s.doReq service c stub).onDone c = some s.requests := by
  cases stub with
  | true =>
    cases hused : s.grpcContext c with
    | true =>
      rw [doReq_again hused]
      exact Function.update_self ..
    | false =>
      rw [doReq_stub hused]
      exact Function.update_self ..
  | false =>
    obtain ⟨call, heq, -⟩ := GrpcClients.doReq_fails service (s := s) (c := c)
    rw [heq]
    exact Function.update_self ..

variable (service) in
omit [DecidableEq S] in
/-- What `doReq` leaves: the tags, the events that have one, and the functions that run. -/
theorem doReq_keeps (hnum : s.Numbered) (stub : Bool) :
    (∀ id ∈ s.tags, id ∈ (s.doReq service c stub).tags) ∧
      (∀ id r, s.events id = some r → (s.doReq service c stub).events id = some r) ∧
      (s.doReq service c stub).proceeding = s.proceeding ∧
      ∀ r ∈ s.failing, r ∈ (s.doReq service c stub).failing := by
  cases stub with
  | true =>
    cases hused : s.grpcContext c with
    | true =>
      rw [doReq_again hused]
      exact ⟨fun _ => id, fun _ _ => id, rfl, fun _ => id⟩
    | false =>
      rw [doReq_stub hused]
      refine ⟨fun id => List.mem_append_left _, fun id r hr => ?_, rfl, fun _ => id⟩
      exact (Function.update_of_ne (Nat.ne_of_lt (hnum.events id r hr).1) ..).trans hr
  | false =>
    obtain ⟨call, heq, -⟩ := GrpcClients.doReq_fails service (s := s) (c := c)
    rw [heq]
    exact ⟨fun _ => id, fun _ _ => id, rfl, fun r => List.mem_append_left _⟩

omit [DecidableEq S] in
/-- A second request of a client takes the function of the first one away. -/
theorem GrpcClientLaw.doReq_busy (hs : s.GrpcClientLaw) (hnum : s.Numbered)
    (hbusy : s.busy c = true) (stub : Bool) : ¬ (s.doReq service c stub).GrpcClientLaw := by
  intro ht
  obtain ⟨htags, hevents, hproceeding, hfailing⟩ := doReq_keeps service (c := c) hnum stub
  have hother : ∀ {n : Nat}, s.onDone c = some n →
      (s.doReq service c stub).onDone c ≠ some n := by
    intro n hn h
    rw [doReq_onDone, Option.some.injEq] at h
    exact Nat.ne_of_gt (hnum.onDone c n hn) h
  simp only [busy, Bool.or_eq_true, List.any_eq_true, Option.any_eq_true, decide_eq_true_eq,
    or_assoc] at hbusy
  rcases hbusy with ⟨id, hid, r, hr, rfl⟩ | ⟨p, hp, rfl⟩ | ⟨r, hr, rfl⟩
  · obtain ⟨r', hr', -⟩ := hs.queued id hid
    obtain rfl := Option.some.inj (hr.symm.trans hr'.1)
    obtain ⟨r', ht', -⟩ := ht.queued id (htags id hid)
    obtain rfl := Option.some.inj ((hevents id r hr).symm.trans ht'.1)
    exact hother hr'.2.2 ht'.2.2
  · exact hother (hs.proceeding p hp).2.2 (ht.proceeding p (hproceeding ▸ hp)).2.2
  · exact hother (hs.failing r hr) (ht.failing r (hfailing r hr))

/-- In every run the law holds in all states exactly if `DoReq` is only called on clients that have
no request, and starts at most one call of each. -/
theorem grpcClientLaw_iff (service : C → Option S) (as : List (GrpcClientAction C S))
    (hrun : ((system service).run (system service).init as).isSome) :
    (system service).AllStates GrpcClientLaw (system service).init as ↔
      (system service).AllSteps OneRequest (system service).init as := by
  refine System.allStates_iff_allSteps (I := Numbered) (L := fun _ => True) law_new numbered_new
    (fun _ _ _ hs ht => hs.step ht) (fun s a t hnum hs _ ht => ?_) (fun _ _ => True.intro) hrun
  refine ⟨fun hlaw => ?_, fun ha => hs.step hnum ha ht⟩
  cases a with
  | doReq c stub =>
    simp only [system, GrpcClients.step, Option.ite_none_left_eq_some, Option.some.injEq] at ht
    obtain ⟨-, rfl⟩ := ht
    refine ⟨Bool.eq_false_iff.mpr fun hbusy => hs.doReq_busy hnum hbusy stub hlaw, ?_⟩
    rintro rfl
    refine Bool.eq_false_iff.mpr fun hused => ?_
    rw [doReq_again hused] at hlaw
    cases hlaw.fault
  | deliver id ok statusOk | clean | returned r | gone e => exact True.intro

/-- Two clients, the second of a service event that goes while its request is under way. The first
client asks again when its first request is over, and the channel has no stub then. -/
def twoClients : List (GrpcClientAction Bool Unit) :=
  [.doReq false true, .doReq true true, .deliver 0 true true, .clean, .gone (),
    .deliver 1 true true, .clean, .doReq false false, .returned ⟨false, 2⟩]

/-- The service event of the client `true`. -/
def ofService (c : Bool) : Option Unit := if c then some () else none

theorem grpcClientLaw_twoClients :
    (system ofService).AllStates GrpcClientLaw (system ofService).init twoClients :=
  (grpcClientLaw_iff ofService twoClients (by decide)).mpr (by decide)

/-- A second call after the first has been answered. -/
example : ((system ofService).run (system ofService).init
    [.doReq false true, .deliver 0 true true, .clean, .doReq false true]).map
      (fun s => (s.fault, s.calls)) = some (true, [.onDone 0 "", .clean 0]) := rfl

end GrpcClients

end Sheep
