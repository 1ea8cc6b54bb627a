import Mathlib.Data.Finset.Basic
import Sheep.Lib.System

/-!
# `Etcd::CreateEphemeral`

The cycle that keeps a key with a time to live registered: a PUT that creates it, then a PUT every
five seconds that refreshes it, and a PUT that creates it again one second after a failure. Each PUT
is an `HttpClient` in `httpClients_` until its `onDone`, each pause a `Timer` in `timers_` until its
handler. `DoReq` may call `onDone` before it returns, when it gets no connection.

`PendingLaw`: one request or one timer is pending, and `httpClients_` and `timers_` hold just that.
`pendingLaw_iff`: a run keeps the law if and only if no create is answered with success or with an
`errorCode` and a `message`. These two branches of `createEphemeral` do not erase the client.
-/

namespace Sheep

/-- The function of the cycle that a request or a timer belongs to. -/
inductive EphemeralCall
  | createEphemeral
  | refresh
  deriving DecidableEq, Repr

/-- What a pending request or timer has captured. -/
structure EphemeralTask where
  call : EphemeralCall
  path : String
  value : String
  deriving DecidableEq, Repr

/-- A request as `HttpClient` is made for it. -/
structure HttpPut where
  method : String
  target : String
  body : String
  deriving DecidableEq, Repr

/-- The request of `createEphemeral` or `refresh`. -/
def EphemeralTask.put (c : EphemeralTask) : HttpPut where
  method := "PUT"
  target := "/v2/keys" ++ c.path
  body := "value=" ++ c.value ++
    (match c.call with
      | .createEphemeral => "&ttl=12"
      | .refresh => "&ttl=12&refresh=true")

/-- What `onDone` gets: the error, and the parsed response. -/
structure PutReply where
  errMsg : String
  hasParseError : Bool
  errorCode : Option Nat
  message : Option String
  deriving DecidableEq, Repr

structure Ephemeral where
  /-- `CreateEphemeral` has been called -/
  started : Bool
  httpClients : Finset Nat
  timers : Finset Nat
  /-- the requests whose `onDone` is to be called -/
  inFlight : List (Nat × EphemeralTask)
  /-- the timers whose handler is to be called -/
  armed : List (Nat × EphemeralTask)
  /-- the next new `HttpClient` and the next new `Timer` -/
  nextClient : Nat
  nextTimer : Nat
  /-- the requests given to `DoReq` so far -/
  puts : List HttpPut
  deriving DecidableEq

/-- `sync`: the error with which `DoReq` calls `onDone` before it returns, if it does. -/
inductive EphemeralAction
  /-- `CreateEphemeral` -/
  | create (sync : Option String)
  | reply (id : Nat) (r : PutReply)
  /-- the handler of the timer is called, with an error if the timer was canceled -/
  | timer (id : Nat) (errMsg : String) (sync : Option String)
  deriving DecidableEq, Repr

namespace Ephemeral

def new : Ephemeral := ⟨false, ∅, ∅, [], [], 0, 0, []⟩

def armTimer (s : Ephemeral) (c : EphemeralTask) : Ephemeral :=
  { s with
    timers := insert s.nextTimer s.timers
    armed := (s.nextTimer, c) :: s.armed
    nextTimer := s.nextTimer + 1 }

/-- `nextCreateEphemral`. -/
def nextCreateEphemral (s : Ephemeral) (path value : String) : Ephemeral :=
  s.armTimer ⟨.createEphemeral, path, value⟩

/-- `nextRefresh`. -/
def nextRefresh (s : Ephemeral) (path value : String) : Ephemeral :=
  s.armTimer ⟨.refresh, path, value⟩

/-- `httpClients_.erase(weakPtr.lock())`. -/
def eraseClient (s : Ephemeral) (id : Nat) : Ephemeral :=
  { s with httpClients := s.httpClients.erase id }

/-- `onDone` of `createEphemeral`. -/
def createOnDone (s : Ephemeral) (id : Nat) (path value : String) (r : PutReply) : Ephemeral :=
  if r.errMsg ≠ "" then (s.nextCreateEphemral path path).eraseClient id
  else if r.hasParseError then (s.nextRefresh path value).eraseClient id
  else
    match r.errorCode, r.message with
    | some _, some _ => s.nextCreateEphemral path value
    | some _, none => (s.nextCreateEphemral path value).eraseClient id
    | none, _ => s.nextRefresh path value

/-- `onDone` of `refresh`. -/
def refreshOnDone (s : Ephemeral) (id : Nat) (path value : String) (r : PutReply) : Ephemeral :=
  if r.errMsg ≠ "" then (s.nextCreateEphemral path path).eraseClient id
  else if r.hasParseError then (s.nextRefresh path value).eraseClient id
  else
    match r.errorCode, r.message with
    | some _, some _ => (s.nextCreateEphemral path value).eraseClient id
    | some _, none => (s.nextCreateEphemral path value).eraseClient id
    | none, _ => (s.nextRefresh path value).eraseClient id

def onDone (s : Ephemeral) (id : Nat) (c : EphemeralTask) (r : PutReply) : Ephemeral :=
  match c.call with
  | .createEphemeral => s.createOnDone id c.path c.value r
  | .refresh => s.refreshOnDone id c.path c.value r

/-- A new `HttpClient` and its `DoReq`. When `DoReq` fails there is no response, and an empty
response does not parse. -/
def doReq (s : Ephemeral) (c : EphemeralTask) (sync : Option String) : Ephemeral :=
  let s' := { s with
    httpClients := insert s.nextClient s.httpClients
    nextClient := s.nextClient + 1
    puts := s.puts ++ [c.put] }
  match sync with
  | none => { s' with inFlight := (s.nextClient, c) :: s.inFlight }
  | some errMsg => s'.onDone s.nextClient c ⟨errMsg, true, none, none⟩

/-- `createEphemeral`. -/
def createEphemeral (s : Ephemeral) (path value errMsg : String) (sync : Option String) :
    Ephemeral :=
  if errMsg ≠ "" then s.nextCreateEphemral path path
  else s.doReq ⟨.createEphemeral, path, value⟩ sync

/-- `refresh`. -/
def refresh (s : Ephemeral) (path value errMsg : String) (sync : Option String) : Ephemeral :=
  if errMsg ≠ "" then s.nextCreateEphemral path value
  else s.doReq ⟨.refresh, path, value⟩ sync

/-- The handler of the timer of a task. -/
def expire (s : Ephemeral) (c : EphemeralTask) (errMsg : String) (sync : Option String) :
    Ephemeral :=
  match c.call with
  | .createEphemeral => s.createEphemeral c.path c.value errMsg sync
  | .refresh => s.refresh c.path c.value errMsg sync

def step (path value : String) (s : Ephemeral) : EphemeralAction → Option Ephemeral
  | .create sync =>
    if s.started then none
    else some ({ s with started := true }.createEphemeral path value "" sync)
  | .reply id r =>
    (s.inFlight.lookup id).map fun c =>
      { s with inFlight := s.inFlight.filter (·.1 ≠ id) }.onDone id c r
  | .timer id errMsg sync =>
    (s.armed.lookup id).map fun c =>
      let s' := { s with armed := s.armed.filter (·.1 ≠ id) }.expire c errMsg sync
      { s' with timers := s'.timers.erase id }

/-- The cycle of `CreateEphemeral(path, value)`. -/
def system (path value : String) : System Ephemeral EphemeralAction := ⟨new, step path value⟩

/-! ## One pending continuation -/

/-- What is pending and what the two sets hold: one request, or one timer. -/
inductive Pending (s : Ephemeral) : Prop
  | request (id : Nat) (c : EphemeralTask) :
      s.inFlight = [(id, c)] → s.armed = [] → s.httpClients = {id} → s.timers = ∅ → Pending s
  | timer (id : Nat) (c : EphemeralTask) :
      s.inFlight = [] → s.armed = [(id, c)] → s.httpClients = ∅ → s.timers = {id} → Pending s

/-- Once `CreateEphemeral` has been called, exactly one continuation is pending and the sets hold
nothing else. -/
def PendingLaw (s : Ephemeral) : Prop := s.started = true → s.Pending

/-- The reply does not answer a create with success or with an `errorCode` and a `message`. -/
def ErasesClient (s : Ephemeral) : EphemeralAction → Prop
  | .reply id r =>
    ∀ path value, s.inFlight.lookup id = some ⟨.createEphemeral, path, value⟩ →
      r.errMsg = "" → r.hasParseError = false → r.errorCode ≠ none ∧ r.message = none
  | _ => True

/-! ## What the branches do -/

/-- The task of the timer that a reply arms. -/
def nextTask (c : EphemeralTask) (r : PutReply) : EphemeralTask :=
  if r.errMsg ≠ "" then ⟨.createEphemeral, c.path, c.path⟩
  else if r.hasParseError = false ∧ r.errorCode ≠ none then ⟨.createEphemeral, c.path, c.value⟩
  else ⟨.refresh, c.path, c.value⟩

/-- The branch that a reply takes erases the client. -/
def Erases (c : EphemeralTask) (r : PutReply) : Prop :=
  c.call = .createEphemeral → r.errMsg = "" → r.hasParseError = false →
    r.errorCode ≠ none ∧ r.message = none

/-- Every branch of both `onDone` arms one timer; all but two erase the client. -/
theorem onDone_eq (s : Ephemeral) (id : Nat) (c : EphemeralTask) (r : PutReply) :
    (Erases c r ∧ s.onDone id c r = (s.armTimer (nextTask c r)).eraseClient id) ∨
      (¬ Erases c r ∧ s.onDone id c r = s.armTimer (nextTask c r)) := by
  obtain ⟨call, path, value⟩ := c
  obtain ⟨errMsg, hasParseError, errorCode, message⟩ := r
  by_cases herr : errMsg = ""
  · cases hasParseError <;> cases call <;> cases errorCode <;> cases message <;>
      simp [herr, Erases, nextTask, onDone, createOnDone, refreshOnDone, nextCreateEphemral,
        nextRefresh]
  · cases call <;>
      simp [herr, Erases, nextTask, onDone, createOnDone, refreshOnDone, nextCreateEphemral]

/-- The task of the timer that an error of a timer arms. -/
def retryTask (c : EphemeralTask) : EphemeralTask :=
  ⟨.createEphemeral, c.path, if c.call = .createEphemeral then c.path else c.value⟩

theorem expire_eq (s : Ephemeral) (c : EphemeralTask) (errMsg : String) (sync : Option String) :
    s.expire c errMsg sync =
      if errMsg ≠ "" then s.armTimer (retryTask c) else s.doReq c sync := by
  obtain ⟨call, path, value⟩ := c
  cases call <;> rfl

/-- The state once the client of a request is made. -/
def withClient (s : Ephemeral) (c : EphemeralTask) : Ephemeral :=
  { s with
    httpClients := insert s.nextClient s.httpClients
    nextClient := s.nextClient + 1
    puts := s.puts ++ [c.put] }

/-- `DoReq` without a connection: `onDone` with an empty response erases the client. -/
theorem doReq_fails (s : Ephemeral) (c : EphemeralTask) (errMsg : String) :
    s.doReq c (some errMsg) =
      ((s.withClient c).armTimer (nextTask c ⟨errMsg, true, none, none⟩)).eraseClient
        s.nextClient := by
  rcases onDone_eq (s.withClient c) s.nextClient c ⟨errMsg, true, none, none⟩ with h | h
  · exact h.2
  · exact absurd (fun _ _ hparse => by cases hparse) h.1

/-! ## The invariant -/

/-- A timer that is armed was made before the next one. -/
def Fresh (s : Ephemeral) : Prop := ∀ id c, (id, c) ∈ s.armed → id < s.nextTimer

theorem Fresh.armTimer {s : Ephemeral} (h : s.Fresh) (c : EphemeralTask) :
    (s.armTimer c).Fresh := by
  intro id d hmem
  rcases List.mem_cons.mp hmem with heq | hmem
  · cases heq
    exact Nat.lt_succ_self _
  · exact Nat.lt_succ_of_lt (h id d hmem)

theorem Fresh.onDone {s : Ephemeral} (h : s.Fresh) (id : Nat) (c : EphemeralTask) (r : PutReply) :
    (s.onDone id c r).Fresh := by
  rcases onDone_eq s id c r with ⟨-, heq⟩ | ⟨-, heq⟩
  · rw [heq]; exact h.armTimer _
  · rw [heq]; exact h.armTimer _

theorem Fresh.doReq {s : Ephemeral} (h : s.Fresh) (c : EphemeralTask) (sync : Option String) :
    (s.doReq c sync).Fresh := by
  cases sync with
  | none => exact h
  | some errMsg =>
    rw [doReq_fails]
    exact Fresh.armTimer (s := s.withClient c) h _

theorem Fresh.expire {s : Ephemeral} (h : s.Fresh) (c : EphemeralTask) (errMsg : String)
    (sync : Option String) : (s.expire c errMsg sync).Fresh := by
  rw [expire_eq]
  split
  · exact h.armTimer _
  · exact h.doReq c sync

/-- Before `CreateEphemeral` there is nothing. -/
structure Inv (s : Ephemeral) : Prop where
  fresh : s.Fresh
  idle : s.started = false → s = new

theorem inv_new : new.Inv where
  fresh _ _ h := by cases h
  idle _ := rfl

/-- The step works on this task: the one of the first call, of the request or of the timer. -/
inductive TaskOf (path value : String) (s : Ephemeral) (t : Ephemeral) :
    EphemeralAction → EphemeralTask → Prop
  | create (sync : Option String) :
      s = new → t = { new with started := true }.doReq ⟨.createEphemeral, path, value⟩ sync →
      TaskOf path value s t (.create sync) ⟨.createEphemeral, path, value⟩
  | reply (id : Nat) (r : PutReply) (c : EphemeralTask) :
      s.started = true → s.inFlight.lookup id = some c →
      t = { s with inFlight := s.inFlight.filter (·.1 ≠ id) }.onDone id c r →
      TaskOf path value s t (.reply id r) c
  | timer (id : Nat) (errMsg : String) (sync : Option String) (c : EphemeralTask) (u : Ephemeral) :
      s.started = true → s.armed.lookup id = some c →
      u = { s with armed := s.armed.filter (·.1 ≠ id) }.expire c errMsg sync →
      t = { u with timers := u.timers.erase id } → TaskOf path value s t (.timer id errMsg sync) c

theorem step_cases {path value : String} {s t : Ephemeral} {a : EphemeralAction} (h : s.Inv)
    (ht : s.step path value a = some t) : ∃ c, TaskOf path value s t a c := by
  have hstarted : s.inFlight ≠ [] ∨ s.armed ≠ [] → s.started = true := by
    intro hne
    cases hs : s.started with
    | true => rfl
    | false =>
      rw [h.idle hs] at hne
      simp [new] at hne
  cases a with
  | create sync =>
    simp only [step] at ht
    split at ht
    · cases ht
    · next hs =>
      have hnew := h.idle (by simpa using hs)
      cases ht
      exact ⟨_, .create sync hnew (by rw [hnew]; rfl)⟩
  | reply id r =>
    obtain ⟨c, hc, rfl⟩ := Option.map_eq_some_iff.mp ht
    exact ⟨c, .reply id r c (hstarted (.inl fun hnil => by simp [hnil] at hc)) hc rfl⟩
  | timer id errMsg sync =>
    obtain ⟨c, hc, rfl⟩ := Option.map_eq_some_iff.mp ht
    exact ⟨c, .timer id errMsg sync c _ (hstarted (.inr fun hnil => by simp [hnil] at hc)) hc rfl
      rfl⟩

theorem started_onDone (s : Ephemeral) (id : Nat) (c : EphemeralTask) (r : PutReply) :
    (s.onDone id c r).started = s.started := by
  rcases onDone_eq s id c r with ⟨-, heq⟩ | ⟨-, heq⟩ <;> rw [heq] <;> rfl

theorem started_doReq (s : Ephemeral) (c : EphemeralTask) (sync : Option String) :
    (s.doReq c sync).started = s.started := by
  cases sync with
  | none => rfl
  | some errMsg => rw [doReq_fails]; rfl

theorem started_expire (s : Ephemeral) (c : EphemeralTask) (errMsg : String)
    (sync : Option String) : (s.expire c errMsg sync).started = s.started := by
  rw [expire_eq]
  split
  · rfl
  · exact started_doReq s c sync

theorem Inv.step {path value : String} {s t : Ephemeral} {a : EphemeralAction} (h : s.Inv)
    (ht : s.step path value a = some t) : t.Inv ∧ t.started = true := by
  obtain ⟨c, hc⟩ := step_cases h ht
  have hlast : t.Fresh ∧ t.started = true := by
    cases hc with
    | create sync hs heq =>
      have hfresh : Fresh { new with started := true } := inv_new.fresh
      rw [heq]
      exact ⟨hfresh.doReq _ sync, started_doReq _ _ _⟩
    | reply id r c hs hc heq =>
      have hfresh : Fresh { s with inFlight := s.inFlight.filter (·.1 ≠ id) } := h.fresh
      rw [heq]
      exact ⟨hfresh.onDone id c r, (started_onDone _ _ _ _).trans hs⟩
    | timer id errMsg sync c u hs hc hu heq =>
      have hfresh : Fresh { s with armed := s.armed.filter (·.1 ≠ id) } :=
        fun i d hmem => h.fresh i d (List.mem_of_mem_filter hmem)
      rw [heq, hu]
      exact ⟨hfresh.expire c errMsg sync, (started_expire _ _ _ _).trans hs⟩
  exact ⟨⟨hlast.1, fun hf => absurd (hf.symm.trans hlast.2) (by decide)⟩, hlast.2⟩

/-! ## One pending continuation, step by step -/

/-- Where nothing is pending and no client is held, a call of `createEphemeral` or `refresh` leaves
one request, or one timer. -/
theorem expire_pending {s : Ephemeral} (hflight : s.inFlight = []) (harmed : s.armed = [])
    (hclients : s.httpClients = ∅) (c : EphemeralTask) (errMsg : String) (sync : Option String) :
    let t := s.expire c errMsg sync
    (∃ id, t.inFlight = [(id, c)] ∧ t.armed = [] ∧ t.httpClients = {id} ∧ t.timers = s.timers) ∨
      ∃ d, t.inFlight = [] ∧ t.armed = [(s.nextTimer, d)] ∧ t.httpClients = ∅ ∧
        t.timers = insert s.nextTimer s.timers := by
  dsimp only
  rw [expire_eq]
  split
  · exact .inr ⟨retryTask c, hflight, congrArg _ harmed, hclients, rfl⟩
  · cases sync with
    | none =>
      refine .inl ⟨s.nextClient, congrArg _ hflight, harmed, ?_, rfl⟩
      show insert s.nextClient s.httpClients = {s.nextClient}
      rw [hclients]
      rfl
    | some errMsg =>
      rw [doReq_fails]
      refine .inr ⟨_, hflight, congrArg _ harmed, ?_, rfl⟩
      show (insert s.nextClient s.httpClients).erase s.nextClient = ∅
      rw [hclients]
      simp

theorem Pending.started {path value : String} {sync : Option String} :
    Pending ({ new with started := true }.doReq ⟨.createEphemeral, path, value⟩ sync) := by
  have h := expire_pending (s := { new with started := true }) rfl rfl rfl
    ⟨.createEphemeral, path, value⟩ "" sync
  rw [expire_eq, if_neg (by simp)] at h
  rcases h with ⟨id, hf, ha, hc, ht⟩ | ⟨d, hf, ha, hc, ht⟩
  · exact .request id _ hf ha hc ht
  · exact .timer 0 d hf ha hc ht

/-- A reply: the timer is the one continuation, and the client has gone if the branch erases it. -/
theorem Pending.reply {s : Ephemeral} (h : s.Pending) {id : Nat} {c : EphemeralTask}
    (hc : s.inFlight.lookup id = some c) (r : PutReply) :
    Pending ({ s with inFlight := s.inFlight.filter (·.1 ≠ id) }.onDone id c r) ↔ Erases c r := by
  cases h with
  | timer id' c' hflight => simp [hflight] at hc
  | request id' c' hflight harmed hclients htimers =>
    obtain ⟨rfl, rfl⟩ : id = id' ∧ c' = c := by
      simp only [hflight, List.lookup_cons, List.lookup_nil] at hc
      split at hc
      · next heq => exact ⟨by simpa using heq, Option.some.inj hc⟩
      · cases hc
    rcases onDone_eq { s with inFlight := s.inFlight.filter (·.1 ≠ id) } id c' r with
      ⟨her, heq⟩ | ⟨her, heq⟩
    · rw [heq]
      refine iff_of_true (.timer s.nextTimer _ ?_ (congrArg _ harmed) ?_ ?_) her
      · show s.inFlight.filter _ = []
        simp [hflight]
      · show s.httpClients.erase id = ∅
        simp [hclients]
      · show insert s.nextTimer s.timers = _
        rw [htimers]
        rfl
    · rw [heq]
      refine iff_of_false (fun hp => ?_) her
      have hheld : id ∈ s.httpClients := hclients ▸ Finset.mem_singleton_self id
      cases hp with
      | request _ _ _ harmed' => cases harmed'
      | timer _ _ _ _ hclients' =>
        have hempty : s.httpClients = ∅ := hclients'
        rw [hempty] at hheld
        cases hheld

theorem Pending.timer_fires {s : Ephemeral} (h : s.Pending) (hfresh : s.Fresh) {id : Nat}
    {c : EphemeralTask} (hc : s.armed.lookup id = some c) (errMsg : String)
    (sync : Option String) {u : Ephemeral}
    (hu : u = { s with armed := s.armed.filter (·.1 ≠ id) }.expire c errMsg sync) :
    Pending { u with timers := u.timers.erase id } := by
  cases h with
  | request id' c' _ harmed => simp [harmed] at hc
  | timer id' c' hflight harmed hclients htimers =>
    obtain ⟨rfl, rfl⟩ : id = id' ∧ c' = c := by
      simp only [harmed, List.lookup_cons, List.lookup_nil] at hc
      split at hc
      · next heq => exact ⟨by simpa using heq, Option.some.inj hc⟩
      · cases hc
    have hlt : id < s.nextTimer := hfresh id c' (harmed ▸ List.mem_singleton_self _)
    have hshape := expire_pending (s := { s with armed := s.armed.filter (·.1 ≠ id) }) hflight
      (by simp [harmed]) hclients c' errMsg sync
    rw [← hu] at hshape
    rcases hshape with ⟨n, hf, ha, hcl, ht⟩ | ⟨d, hf, ha, hcl, ht⟩
    · refine .request n c' hf ha hcl ?_
      show u.timers.erase id = ∅
      rw [ht, htimers]
      simp
    · refine .timer s.nextTimer d hf ha hcl ?_
      show u.timers.erase id = {s.nextTimer}
      rw [ht, htimers]
      ext x
      simp only [Finset.mem_erase, Finset.mem_insert, Finset.mem_singleton]
      constructor
      · rintro ⟨hne, rfl | rfl⟩
        · rfl
        · exact absurd rfl hne
      · rintro rfl
        exact ⟨Nat.ne_of_gt hlt, .inl rfl⟩

/-- One step leads from one pending continuation to one exactly if its branch erases the client. -/
theorem pendingLaw_step {path value : String} {s t : Ephemeral} {a : EphemeralAction} (h : s.Inv)
    (hlaw : s.PendingLaw) (ht : s.step path value a = some t) :
    t.PendingLaw ↔ s.ErasesClient a := by
  have hstarted := (h.step ht).2
  have hpending : t.PendingLaw ↔ t.Pending := ⟨fun hp => hp hstarted, fun hp _ => hp⟩
  rw [hpending]
  obtain ⟨c, hc⟩ := step_cases h ht
  cases hc with
  | create sync hs heq =>
    rw [heq]
    exact iff_of_true .started True.intro
  | reply id r c hs hc heq =>
    rw [heq, (hlaw hs).reply hc]
    simp only [ErasesClient, Erases, hc, Option.some.injEq]
    constructor
    · rintro her path value rfl
      exact her rfl
    · rintro her hcall
      exact her c.path c.value (by rw [← hcall])
  | timer id errMsg sync c u hs hc hu heq =>
    rw [heq]
    exact iff_of_true ((hlaw hs).timer_fires h.fresh hc errMsg sync hu) True.intro

/-- After `CreateEphemeral`, in every state of a run one request or one timer is pending and the two
sets hold just that, if and only if no create is answered with success or with an `errorCode` and a
`message`. -/
theorem pendingLaw_iff (path value : String) (as : List EphemeralAction)
    (hrun : ((system path value).run new as).isSome) :
    (system path value).AllStates PendingLaw new as ↔
      (system path value).AllSteps ErasesClient new as :=
  System.allStates_iff_allSteps (L := fun _ => True) (fun h => by cases h) inv_new
    (fun _ _ _ h ht => (h.step ht).1) (fun _ _ _ h hlaw _ ht => pendingLaw_step h hlaw ht)
    (fun _ _ => True.intro) hrun

/-- A create that gets no connection, one that is answered with an `errorCode` alone, and a timer
that is canceled. -/
def failures : List EphemeralAction :=
  [.create (some "clientPool nullptr"), .timer 0 "" none, .reply 1 ⟨"", false, some 100, none⟩,
    .timer 1 "Timer Canceled" none]

theorem pendingLaw_iff_failures :
    (system "/p" "v").AllStates PendingLaw new failures ↔
      (system "/p" "v").AllSteps ErasesClient new failures :=
  pendingLaw_iff "/p" "v" failures rfl

/-- The first create succeeds and its client stays in `httpClients_`; and so does the next one. -/
theorem pendingLaw_fails : ∃ s, (system "/p" "v").run new
      [.create none, .reply 0 ⟨"", false, none, none⟩, .timer 0 "" none,
        .reply 1 ⟨"", false, some 100, some "Key not found"⟩, .timer 1 "" none,
        .reply 2 ⟨"", false, none, none⟩] = some s ∧
    s.httpClients = {0, 2} ∧ s.timers = {2} ∧ s.inFlight = [] ∧ ¬ s.PendingLaw := by
  refine ⟨_, rfl, by decide, by decide, rfl, fun h => ?_⟩
  cases h rfl with
  | request _ _ hflight => cases hflight
  | timer _ _ _ _ hclients => exact absurd hclients (by decide)

end Ephemeral

end Sheep
