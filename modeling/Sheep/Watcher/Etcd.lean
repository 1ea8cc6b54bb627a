import Sheep.Lib.System

/-!
# `Etcd::ListWatch`

The loop that keeps a user informed of the keys of an etcd directory: a `List`, then a watch, and
again a `List` when the watch completes. `etcd` is the loop with the server. Requests and replies
travel, fail, and meet modifications of the directory in any order.

Of the server this much is assumed: every modification, of this directory or another, has the next
index; a reply to a `List` is a snapshot of the keys with the current index; a watch without
`waitIndex` completes on the first modification of the directory after it arrives, a watch with
`waitIndex = k` on the first one with an index of at least `k`.

`WatchLaw`: while a watch is blocked at the server, the user knows the current keys, and no
modification is newer than what the user was told. `watchLaw_iff`: a run keeps the law exactly
when no watch arrives after a modification that the user was not told of. `WatchOnce` takes
`afterIndex` and does not put it into its request.
-/

namespace Sheep

/-! ## Requests and replies -/

/-- The part of a watch request that the server looks at. -/
structure WatchRequest where
  recursive : Bool
  waitIndex : Option UInt64
  deriving DecidableEq, Repr

/-- The target of the request. -/
def WatchRequest.target (r : WatchRequest) (path : String) : String :=
  "/v2/keys" ++ path ++ "?wait=true" ++ (if r.recursive then "&recursive=true" else "") ++
    (match r.waitIndex with
      | none => ""
      | some k => "&waitIndex=" ++ toString k)

/-- The request of `Etcd::WatchOnce`: `afterIndex` is not used. -/
def watchOnce (_afterIndex : UInt64) : WatchRequest := ⟨true, none⟩

example : (watchOnce 8).target "/svc" = "/v2/keys/svc?wait=true&recursive=true" := by decide

/-- What `Etcd::List` gets back: the error of the HTTP client, or the response. -/
structure ListReply where
  argErrMsg : String
  respStr : String
  /-- the code and the offset of a JSON parse error -/
  parseError : Option (Nat × Nat)
  errorCode : Option Nat
  message : Option String
  /-- the header `X-Etcd-Index`, and what `std::stoll` makes of it (`none`: it throws) -/
  etcdIndexStr : String
  etcdIndex : Option Int
  /-- the member `key` of each of the nodes of the directory -/
  nodes : List (Option String)
  deriving DecidableEq, Repr

/-- `onDone` of `Etcd::List`: the arguments of the handler, an error, `afterIndex` and the keys.
`none`: `std::stoll` throws. -/
def ListReply.onDone (r : ListReply) : Option (String × UInt64 × Option (List String)) :=
  if r.argErrMsg ≠ "" then some (r.argErrMsg, 0, none)
  else
    match r.parseError, r.errorCode with
    | some (code, offset), _ =>
      some ("parse " ++ r.respStr ++ " Failed: code " ++ toString code ++ " offset " ++
        toString offset, 0, none)
    | none, some errorCode =>
      match r.message with
      | some message =>
        some ("errorCode: " ++ toString errorCode ++ " message: " ++ message, 0, none)
      | none => some ("errorCode: " ++ toString errorCode, 0, none)
    | none, none =>
      r.etcdIndex.map fun etcdIndex =>
        if etcdIndex = -1 then ("invalid etcdIndex " ++ r.etcdIndexStr, 0, none)
        else ("", UInt64.ofInt (etcdIndex + 1), some (r.nodes.filterMap id))

/-! ## The server -/

structure EtcdServer where
  /-- the index of the last modification, of any directory -/
  index : Nat
  /-- the index of the last modification of this directory -/
  lastMod : Nat
  /-- the keys of this directory -/
  keys : List String
  deriving DecidableEq, Repr

namespace EtcdServer

/-- The answer to a `List` with the snapshot `keys` at `index`. -/
def listReply (index : Nat) (keys : List String) : ListReply where
  argErrMsg := ""
  respStr := ""
  parseError := none
  errorCode := none
  message := none
  etcdIndexStr := toString index
  etcdIndex := some index
  nodes := keys.map some

def modify (srv : EtcdServer) (keys : List String) : EtcdServer :=
  ⟨srv.index + 1, srv.index + 1, keys⟩

/-- A watch that arrives completes at once: there is a modification that it waits for. -/
def completesAtOnce (srv : EtcdServer) (r : WatchRequest) : Bool :=
  r.waitIndex.any (·.toNat ≤ srv.lastMod)

/-- A blocked watch completes on the modification with the last index. -/
def completes (srv : EtcdServer) (r : WatchRequest) : Bool :=
  r.waitIndex.all (·.toNat ≤ srv.lastMod)

end EtcdServer

/-! ## The loop -/

/-- Where the loop is, with the request or the reply that is on its way. -/
inductive EtcdPhase
  | listSent
  | listAnswered (index : Nat) (keys : List String)
  | watchSent (afterIndex : UInt64)
  /-- blocked at the server -/
  | watching (afterIndex : UInt64)
  | watchAnswered (afterIndex : UInt64)
  /-- the timer after a failed watch -/
  | timer (afterIndex : UInt64)
  | stopped
  deriving DecidableEq, Repr

structure EtcdRun where
  server : EtcdServer
  phase : EtcdPhase
  /-- the keys last passed to `func` -/
  lastKeys : Option (List String)
  /-- ghost: the index of the `List` they came with -/
  snapshot : Int
  deriving DecidableEq, Repr

inductive EtcdAction
  /-- the directory is modified; these are its keys now -/
  | modify (keys : List String)
  /-- another directory is modified -/
  | otherChange
  | listArrives
  /-- the answer comes, and `func` sets `stop` or not -/
  | listReplies (stop : Bool)
  /-- an answer that is an error -/
  | listFails (r : ListReply)
  | watchArrives
  | watchReplies
  | watchFails
  | timer
  deriving DecidableEq, Repr

namespace EtcdRun

def init (server : EtcdServer) : EtcdRun := ⟨server, .listSent, none, 0⟩

/-- The handler of `listWatch`: on an error it does not call `func`, and it watches. -/
def onList (s : EtcdRun) (r : ListReply) (stop : Bool) : Option EtcdRun :=
  r.onDone.map fun (errMsg, afterIndex, keys) =>
    if errMsg ≠ "" then { s with phase := .watchSent afterIndex }
    else { s with
      lastKeys := keys
      snapshot := r.etcdIndex.getD 0
      phase := if stop then .stopped else .watchSent afterIndex }

/-- The directory or another one has changed: a blocked watch may complete. -/
def onModify (s : EtcdRun) (server : EtcdServer) : EtcdRun :=
  { s with
    server := server
    phase := match s.phase with
      | .watching k => if server.completes (watchOnce k) then .watchAnswered k else .watching k
      | phase => phase }

def step (s : EtcdRun) : EtcdAction → Option EtcdRun
  | .modify keys => some (s.onModify (s.server.modify keys))
  | .otherChange => some { s with server := { s.server with index := s.server.index + 1 } }
  | .listArrives =>
    if s.phase = .listSent then
      some { s with phase := .listAnswered s.server.index s.server.keys }
    else none
  | .listReplies stop =>
    match s.phase with
    | .listAnswered index keys => s.onList (EtcdServer.listReply index keys) stop
    | _ => none
  | .listFails r =>
    match s.phase with
    | .listSent | .listAnswered .. =>
      -- the handler gets an error
      if ∃ args ∈ r.onDone, args.1 ≠ "" then s.onList r false else none
    | _ => none
  | .watchArrives =>
    match s.phase with
    | .watchSent k =>
      if s.server.completesAtOnce (watchOnce k) then some { s with phase := .watchAnswered k }
      else some { s with phase := .watching k }
    | _ => none
  | .watchReplies =>
    match s.phase with
    | .watchAnswered _ => some { s with phase := .listSent }
    | _ => none
  | .watchFails =>
    match s.phase with
    | .watchSent k | .watching k | .watchAnswered k => some { s with phase := .timer k }
    | _ => none
  | .timer =>
    match s.phase with
    | .timer k => some { s with phase := .watchSent k }
    | _ => none

end EtcdRun

def etcd (server : EtcdServer) : System EtcdRun EtcdAction := ⟨.init server, EtcdRun.step⟩

/-! ## The contract -/

/-- While a watch is blocked, the user knows the keys, and no modification was missed. -/
def WatchLaw (s : EtcdRun) : Prop :=
  ∀ k, s.phase = .watching k → ∀ keys ∈ s.lastKeys,
    keys = s.server.keys ∧ s.server.lastMod ≤ s.snapshot

/-- When a watch arrives, the directory was not modified since the `List` that the user was last
told of. -/
def ArrivesUnchanged (s : EtcdRun) (a : EtcdAction) : Prop :=
  a = .watchArrives → s.lastKeys ≠ none → s.server.lastMod ≤ s.snapshot

instance (s : EtcdRun) (a : EtcdAction) : Decidable (ArrivesUnchanged s a) :=
  inferInstanceAs (Decidable (_ → _))

/-- A snapshot that no modification is newer than is the current one. -/
def Snapshot (server : EtcdServer) (index : Int) (keys : List String) : Prop :=
  server.lastMod ≤ index → keys = server.keys

structure EtcdInv (s : EtcdRun) : Prop where
  listed : ∀ keys ∈ s.lastKeys, Snapshot s.server s.snapshot keys
  answered : ∀ index keys, s.phase = .listAnswered index keys →
    index ≤ s.server.index ∧ Snapshot s.server index keys
  known : ∀ keys ∈ s.lastKeys, s.snapshot ≤ s.server.index

namespace EtcdInv

variable {s t : EtcdRun}

/-- A snapshot that is older than a new modification says nothing. -/
theorem snapshot_modify {server : EtcdServer} {index : Int} {keys keys' : List String}
    (h : index ≤ server.index) : Snapshot (server.modify keys') index keys := by
  intro hle
  simp only [EtcdServer.modify] at hle
  omega

theorem modify (h : EtcdInv s) (keys : List String) :
    EtcdInv (s.onModify (s.server.modify keys)) := by
  refine ⟨fun ks hks => snapshot_modify (h.known ks hks), ?_, ?_⟩
  · intro index ks hphase
    have hphase' : s.phase = .listAnswered index ks := by
      simp only [EtcdRun.onModify] at hphase
      split at hphase
      · split at hphase <;> cases hphase
      · exact hphase
    have hle := (h.answered index ks hphase').1
    exact ⟨Nat.le_succ_of_le hle, snapshot_modify (Int.ofNat_le.mpr hle)⟩
  · intro ks hks
    have hle := h.known ks hks
    simp only [EtcdRun.onModify, EtcdServer.modify]
    omega

theorem otherChange (h : EtcdInv s) :
    EtcdInv { s with server := { s.server with index := s.server.index + 1 } } := by
  refine ⟨h.listed, ?_, ?_⟩
  · intro index ks hphase
    exact ⟨Nat.le_succ_of_le (h.answered index ks hphase).1, (h.answered index ks hphase).2⟩
  · intro ks hks
    have hle := h.known ks hks
    dsimp only
    omega

/-- A step of the loop that does not change what the user knows. -/
theorem goto (h : EtcdInv s) {phase : EtcdPhase}
    (hphase : ∀ index keys, phase = .listAnswered index keys →
      index = s.server.index ∧ keys = s.server.keys) : EtcdInv { s with phase := phase } := by
  refine ⟨h.listed, ?_, h.known⟩
  rintro index keys hp
  obtain ⟨rfl, rfl⟩ := hphase index keys hp
  exact ⟨Nat.le_refl _, fun _ => rfl⟩

theorem onDone_listReply (index : Nat) (keys : List String) :
    (EtcdServer.listReply index keys).onDone =
      some ("", UInt64.ofInt (index + 1), some keys) := by
  have hindex : (index : Int) ≠ -1 := by omega
  simp [ListReply.onDone, EtcdServer.listReply, hindex, List.filterMap_map]

theorem listReplies {index : Nat} {keys : List String} {stop : Bool} (h : EtcdInv s)
    (hphase : s.phase = .listAnswered index keys)
    (hs : s.onList (EtcdServer.listReply index keys) stop = some t) : EtcdInv t := by
  simp only [EtcdRun.onList, onDone_listReply, Option.map_some, ne_eq, not_true_eq_false,
    ↓reduceIte, Option.some.injEq] at hs
  subst hs
  obtain ⟨hle, hsnap⟩ := h.answered index keys hphase
  refine ⟨?_, ?_, ?_⟩
  · rintro _ ⟨⟩
    exact hsnap
  · intro i ks hp
    split at hp <;> cases hp
  · rintro _ ⟨⟩
    exact Int.ofNat_le.mpr hle

end EtcdInv

/-- What a step can do. -/
inductive EtcdRun.Effect (s : EtcdRun) : EtcdAction → EtcdRun → Prop
  | modify (keys : List String) :
      Effect s (.modify keys) (s.onModify (s.server.modify keys))
  | otherChange :
      Effect s .otherChange { s with server := { s.server with index := s.server.index + 1 } }
  | listArrives :
      Effect s .listArrives { s with phase := .listAnswered s.server.index s.server.keys }
  | listReplies {index : Nat} {keys : List String} {stop : Bool} {t : EtcdRun} :
      s.phase = .listAnswered index keys →
      s.onList (EtcdServer.listReply index keys) stop = some t → Effect s (.listReplies stop) t
  | watchArrives (k : UInt64) :
      Effect s .watchArrives { s with phase := .watching k }
  /-- an error, a completed watch or the timer: only the place of the loop changes -/
  | goes {a : EtcdAction} {phase : EtcdPhase} :
      a ≠ .watchArrives → (∀ k, phase ≠ .watching k) →
      (∀ index keys, phase ≠ .listAnswered index keys) → Effect s a { s with phase := phase }

theorem EtcdRun.step_effect {s t : EtcdRun} {a : EtcdAction} (hs : s.step a = some t) :
    s.Effect a t := by
  cases a with
  | modify keys =>
    obtain rfl := Option.some.inj hs
    exact .modify keys
  | otherChange =>
    obtain rfl := Option.some.inj hs
    exact .otherChange
  | listArrives =>
    simp only [step, Option.ite_none_right_eq_some, Option.some.injEq] at hs
    obtain ⟨-, rfl⟩ := hs
    exact .listArrives
  | listReplies stop =>
    simp only [step] at hs
    split at hs
    · rename_i index keys hphase
      exact .listReplies hphase hs
    · cases hs
  | listFails r =>
    have hfails : ∀ {u : EtcdRun}, (if ∃ args ∈ r.onDone, args.1 ≠ "" then s.onList r false
        else none) = some u → s.Effect (.listFails r) u := by
      intro u hu
      obtain ⟨⟨⟨errMsg, afterIndex, keys⟩, hargs, hne⟩, hu⟩ := Option.ite_none_right_eq_some.mp hu
      simp only [onList, Option.mem_def.mp hargs, Option.map_some, hne, ne_eq,
        not_false_eq_true, ↓reduceIte, Option.some.injEq] at hu
      subst hu
      exact .goes nofun nofun nofun
    simp only [step] at hs
    split at hs
    · exact hfails hs
    · exact hfails hs
    · cases hs
  | watchArrives =>
    simp only [step] at hs
    split at hs
    · -- the request has no `waitIndex`, so the watch does not complete at once
      obtain rfl := Option.some.inj hs
      exact .watchArrives _
    · cases hs
  | watchReplies | timer =>
    simp only [step] at hs
    split at hs
    · obtain rfl := Option.some.inj hs
      exact .goes nofun nofun nofun
    · cases hs
  | watchFails =>
    simp only [step] at hs
    split at hs <;> cases hs <;> exact .goes nofun nofun nofun

namespace EtcdInv

theorem init (server : EtcdServer) : EtcdInv (etcd server).init := ⟨nofun, nofun, nofun⟩

theorem step {s t : EtcdRun} {a : EtcdAction} (h : EtcdInv s) (hs : s.step a = some t) :
    EtcdInv t := by
  cases EtcdRun.step_effect hs with
  | modify keys => exact h.modify keys
  | otherChange => exact h.otherChange
  | listArrives => exact h.goto fun _ _ hp => by cases hp; exact ⟨rfl, rfl⟩
  | listReplies hphase ht => exact h.listReplies hphase ht
  | watchArrives k => exact h.goto nofun
  | goes _ _ hno => exact h.goto fun index keys hp => absurd hp (hno index keys)

/-- A step keeps the contract exactly when it is not the arrival of a watch after a modification
that the user was not told of. -/
theorem law_iff {s t : EtcdRun} {a : EtcdAction} (h : EtcdInv s) (hlaw : WatchLaw s)
    (hs : s.step a = some t) : WatchLaw t ↔ ArrivesUnchanged s a := by
  cases EtcdRun.step_effect hs with
  | modify keys =>
    refine iff_of_true (fun k hphase => ?_) nofun
    -- a blocked watch completes
    simp only [EtcdRun.onModify, watchOnce, EtcdServer.completes, Option.all_none, ↓reduceIte]
      at hphase
    split at hphase
    · cases hphase
    · rename_i hne
      exact absurd hphase (hne k)
  | otherChange => exact iff_of_true (fun k hphase => hlaw k hphase) nofun
  | listArrives => exact iff_of_true (fun k hphase => nomatch hphase) nofun
  | @listReplies index keys stop _ hphase ht =>
    refine iff_of_true (fun k hphase' => ?_) nofun
    simp only [EtcdRun.onList, onDone_listReply, Option.map_some, ne_eq, not_true_eq_false,
      ↓reduceIte, Option.some.injEq] at ht
    subst ht
    split at hphase' <;> cases hphase'
  | watchArrives k =>
    constructor
    · intro hlaw' _ hne
      obtain ⟨keys, hkeys⟩ := Option.ne_none_iff_exists'.mp hne
      exact (hlaw' k rfl keys hkeys).2
    · intro ha _ _ keys hkeys
      have hle := ha rfl (Option.ne_none_iff_exists'.mpr ⟨keys, hkeys⟩)
      exact ⟨h.listed keys hkeys hle, hle⟩
  | goes hne hphase =>
    exact iff_of_true (fun k hp => absurd hp (hphase k)) fun ha => absurd ha hne

end EtcdInv

/-! ## Every run -/

/-- A run keeps the contract in all its states exactly when no watch of it arrives after a
modification of the directory that the user was not told of. -/
theorem watchLaw_iff (server : EtcdServer) (as : List EtcdAction)
    (hrun : ((etcd server).run (etcd server).init as).isSome) :
    (etcd server).AllStates WatchLaw (etcd server).init as ↔
      (etcd server).AllSteps ArrivesUnchanged (etcd server).init as :=
  System.allStates_iff_allSteps (L := fun _ => True) nofun (EtcdInv.init server)
    (fun _ _ _ h hs => h.step hs) (fun _ _ _ h hlaw _ hs => h.law_iff hlaw hs)
    (fun _ _ => True.intro) hrun

/-- A directory with one key. -/
def oneKey : EtcdServer := ⟨5, 5, ["/svc/a"]⟩

/-- The watch arrives before the modification, and the user hears of it. -/
theorem watchLaw_watched_in_time :
    (etcd oneKey).AllStates WatchLaw (etcd oneKey).init
      [.listArrives, .listReplies false, .watchArrives, .modify ["/svc/a", "/svc/b"],
        .watchReplies, .listArrives, .listReplies false, .watchArrives] :=
  (watchLaw_iff oneKey _ (by decide)).mpr (by decide)

/-- A key is added between the answer to the `List` and the arrival of the watch: the watch is
blocked, and the user does not know the key. -/
theorem watch_misses_modification :
    ∃ s, (etcd oneKey).run (etcd oneKey).init
        [.listArrives, .listReplies false, .modify ["/svc/a", "/svc/b"], .watchArrives] = some s ∧
      s.phase = .watching 6 ∧ s.server.keys = ["/svc/a", "/svc/b"] ∧
      s.lastKeys = some ["/svc/a"] ∧ ¬ WatchLaw s := by
  refine ⟨_, rfl, by decide, rfl, rfl, fun h => ?_⟩
  exact absurd (h 6 (by decide) _ rfl).1 (by decide)

end Sheep
