import Sheep.Client.ClientChannel
import Sheep.Watcher.Etcd
import Sheep.Watcher.WatcherResolver

/-!
# From an etcd directory to the pools of a channel

`discovery` puts the parts together that a `ClientChannel` with the resolver `"watcher"` is made of:
the directory and the loop of `Etcd::ListWatch`, the function that `WatcherResolver` gives it, the
handler of `Balancer::Init`, and `ClientManager::Update`. An exception of that function leaves the
handler of `Etcd::List`, and the loop does not go on.

`DiscoveryLaw`: whenever the loop is blocked in a watch, the channel has a pool for exactly the
nodes that are in the directory now, and `GetClientPool` gives one of them. `discovery_law`: so it
is in every run in which the keys are below the target, each new node gets its pool, and no watch
arrives after a modification that the loop was not told of. `text` is the bytes of a key.
-/

namespace Sheep

open WatcherResolver

structure Discovery where
  etcd : EtcdRun
  channel : ClientChannel
  /-- the exception that has left the handler of `Etcd::List` -/
  escaped : Option StdException

inductive DiscoveryAction
  /-- a step of the server, or one of the loop that does not call the resolver -/
  | loop (a : EtcdAction)
  /-- the answer to a `List` comes; `initError`: the `errMsg` of `ClientPool::Init` -/
  | listReplies (initError : ByteString → String)

/-- The new keys of the directory. -/
def EtcdAction.keysPut : EtcdAction → Option (List String)
  | .modify keys => some keys
  | _ => none

namespace Discovery

variable (text : String → Bytes) (target : Bytes)

/-- What `WatcherResolver::SetNotifyWatcherChange` passes to `ListWatch`. -/
def onListWatch (channel : ClientChannel) (keys : List String) (initError : ByteString → String) :
    ClientChannel × Option StdException :=
  match onKeys target (keys.map text) with
  | .error e => (channel, some e)
  | .ok nodes =>
    let channel := channel.notify ⟨nodes.keys, initError⟩
    (channel, channel.exception)

def init (server : EtcdServer) : Discovery := ⟨.init server, .new, none⟩

def step (s : Discovery) : DiscoveryAction → Option Discovery
  | .loop (.listReplies _) => none
  | .loop a => (s.etcd.step a).map fun etcd => { s with etcd := etcd }
  | .listReplies initError =>
    match s.etcd.phase with
    | .listAnswered _ keys =>
      let (channel, escaped) := onListWatch text target s.channel keys initError
      (s.etcd.step (.listReplies escaped.isSome)).map fun etcd => ⟨etcd, channel, escaped⟩
    | _ => none

def system (server : EtcdServer) : System Discovery DiscoveryAction :=
  ⟨init server, step text target⟩

/-- The channel has the nodes of these keys. -/
def Follows (channel : ClientChannel) (keys : List String) : Prop :=
  ∀ node, node ∈ channel.clientManager.keys ↔ trimStr target ++ node ∈ keys.map text

/-- While a watch is blocked, and the loop has listed the directory, the pools are those of the
nodes that are there now. -/
structure DiscoveryLaw (s : Discovery) : Prop where
  pools : ∀ k, s.etcd.phase = .watching k → s.etcd.lastKeys ≠ none →
    Follows text target s.channel s.etcd.server.keys
  found : ∀ k, s.etcd.phase = .watching k → s.etcd.lastKeys ≠ none → s.etcd.server.keys ≠ [] →
    ∀ random, (s.channel.getClientPool random).isSome
  caught : s.escaped = none

/-- The keys of the directory are below the target. -/
def KeysBelow (keys : List String) : Prop :=
  ∀ key ∈ keys, trimStr target <+: text key ∧ (text key).length ≤ StdString.maxSize

instance decidableKeysBelow (keys : List String) : Decidable (KeysBelow text target keys) :=
  inferInstanceAs (Decidable
    (∀ key ∈ keys, trimStr target <+: text key ∧ (text key).length ≤ StdString.maxSize))

/-- The keys that the answer to a `List` has brought. -/
def answeredKeys (s : Discovery) : List String :=
  match s.etcd.phase with
  | .listAnswered _ keys => keys
  | _ => []

/-- The new nodes of an answer have a port that is a number, and `ClientPool::Init` succeeds. -/
def NewNodesWork (s : Discovery) (initError : ByteString → String) : Prop :=
  ∀ key ∈ s.answeredKeys, (text key).drop (trimStr target).length ∉ s.channel.clientManager.keys →
    ClientChannel.Parses ((text key).drop (trimStr target).length) ∧
      initError ((text key).drop (trimStr target).length) = ""

instance decidableParses (node : ByteString) : Decidable (ClientChannel.Parses node) :=
  inferInstanceAs (Decidable (∀ last ∈ (split node 58).getLast?, (stoi last).isOk))

instance decidableNewNodesWork (s : Discovery) (initError : ByteString → String) :
    Decidable (NewNodesWork text target s initError) :=
  inferInstanceAs (Decidable (∀ key ∈ s.answeredKeys,
    (text key).drop (trimStr target).length ∉ s.channel.clientManager.keys →
      ClientChannel.Parses ((text key).drop (trimStr target).length) ∧
        initError ((text key).drop (trimStr target).length) = ""))

/-- The condition on a step: what is put into the directory is below the target, no watch arrives
late, and the new nodes work. -/
def InOrder (s : Discovery) : DiscoveryAction → Prop
  | .loop a => (∀ keys, a.keysPut = some keys → KeysBelow text target keys) ∧
    ArrivesUnchanged s.etcd a
  | .listReplies initError => NewNodesWork text target s initError

instance decidableInOrder (s : Discovery) :
    (a : DiscoveryAction) → Decidable (InOrder text target s a)
  | .loop a =>
    have : Decidable (∀ keys, a.keysPut = some keys → KeysBelow text target keys) :=
      inferInstanceAs (Decidable (∀ keys ∈ a.keysPut, KeysBelow text target keys))
    inferInstanceAs (Decidable ((∀ keys, a.keysPut = some keys → KeysBelow text target keys) ∧
      ArrivesUnchanged s.etcd a))
  | .listReplies initError => inferInstanceAs (Decidable (NewNodesWork text target s initError))

/-! ## The nodes of a list of keys -/

variable {text target} {s t : Discovery}

/-- The resolver makes the right nodes of keys that are below the target. -/
theorem onKeys_below {keys : List String} (h : KeysBelow text target keys) :
    ∃ nodes, onKeys target (keys.map text) = .ok nodes ∧
      ∀ node, node ∈ nodes.keys ↔ trimStr target ++ node ∈ keys.map text := by
  have hlength : ∀ key ∈ keys.map text, key.length ≤ StdString.maxSize := by
    intro key hkey
    obtain ⟨k, hk, rfl⟩ := List.mem_map.mp hkey
    exact (h k hk).2
  refine (watcherLaw_iff_pieces hlength).mpr fun key hkey => ?_
  obtain ⟨k, hk, rfl⟩ := List.mem_map.mp hkey
  obtain ⟨node, hnode⟩ := (h k hk).1
  refine ⟨node, ?_, hnode ▸ hkey⟩
  rw [← hnode]
  exact trimLeft_first (hnode ▸ (h k hk).2) (first_append node)

/-- The function of the resolver, for keys below the target whose new nodes get their pools. -/
theorem onListWatch_below {keys : List String} {initError : ByteString → String}
    {channel : ClientChannel} (h : KeysBelow text target keys)
    (hwork : ∀ node, trimStr target ++ node ∈ keys.map text → node ∉ channel.clientManager.keys →
      ClientChannel.Parses node ∧ initError node = "") :
    ∃ channel', onListWatch text target channel keys initError = (channel', none) ∧
      channel'.ChannelLaw ∧ channel'.lbPolicy.size = channel'.lbPolicy.keys.length ∧
      Follows text target channel' keys := by
  obtain ⟨nodes, hnodes, hmem⟩ := onKeys_below h
  have hlaw : (channel.notify ⟨nodes.keys, initError⟩).ChannelLaw :=
    (ClientChannel.channelLaw_notify channel _).mpr fun node hnode =>
      hwork node ((hmem node).mp hnode)
  refine ⟨_, ?_, hlaw, rfl, fun node => ?_⟩
  · rw [onListWatch, hnodes]
    exact congrArg _ hlaw.completed
  · rw [← hlaw.keys node]
    exact hmem node

/-! ## The invariant -/

structure Inv (text : String → Bytes) (target : Bytes) (s : Discovery) : Prop where
  etcd : EtcdInv s.etcd
  watch : WatchLaw s.etcd
  below : KeysBelow text target s.etcd.server.keys
  answered : ∀ index keys, s.etcd.phase = .listAnswered index keys → KeysBelow text target keys
  channel : s.channel.ChannelLaw
  sized : s.channel.lbPolicy.size = s.channel.lbPolicy.keys.length
  /-- the channel has the nodes that the loop was last told of -/
  follows : ∀ keys ∈ s.etcd.lastKeys, Follows text target s.channel keys
  caught : s.escaped = none

theorem inv_init {server : EtcdServer} (h : KeysBelow text target server.keys) :
    Inv text target (init server) :=
  ⟨EtcdInv.init server, nofun, h, nofun, ClientChannel.channelLaw_new, rfl, nofun, rfl⟩

/-- A step of the loop that does not call the resolver. -/
theorem Inv.loop {a : EtcdAction} {etcd : EtcdRun} (hs : Inv text target s)
    (ha : ∀ stop, a ≠ .listReplies stop) (ht : s.etcd.step a = some etcd)
    (hkeys : ∀ keys, a.keysPut = some keys → KeysBelow text target keys)
    (hunchanged : ArrivesUnchanged s.etcd a) : Inv text target { s with etcd := etcd } := by
  have hinv := hs.etcd.step ht
  have hlaw := (hs.etcd.law_iff hs.watch ht).mpr hunchanged
  cases EtcdRun.step_effect ht with
  | modify keys =>
    refine ⟨hinv, hlaw, hkeys keys rfl, fun index keys' hphase => ?_, hs.channel, hs.sized,
      hs.follows, hs.caught⟩
    simp only [EtcdRun.onModify] at hphase
    split at hphase
    · split at hphase <;> cases hphase
    · exact hs.answered index keys' hphase
  | otherChange =>
    exact ⟨hinv, hlaw, hs.below, hs.answered, hs.channel, hs.sized, hs.follows, hs.caught⟩
  | listArrives =>
    refine ⟨hinv, hlaw, hs.below, ?_, hs.channel, hs.sized, hs.follows, hs.caught⟩
    rintro index keys ⟨⟩
    exact hs.below
  | listReplies => exact absurd rfl (ha _)
  | watchArrives k =>
    exact ⟨hinv, hlaw, hs.below, (fun _ _ h => by cases h), hs.channel, hs.sized, hs.follows,
      hs.caught⟩
  | goes _ _ hno =>
    exact ⟨hinv, hlaw, hs.below, fun index keys hphase => absurd hphase (hno index keys),
      hs.channel, hs.sized, hs.follows, hs.caught⟩

theorem Inv.listReplies {initError : ByteString → String} {index : Nat} {keys : List String}
    (hs : Inv text target s) (hphase : s.etcd.phase = .listAnswered index keys)
    (hwork : NewNodesWork text target s initError)
    (ht : step text target s (.listReplies initError) = some t) : Inv text target t := by
  have hnodes : ∀ node, trimStr target ++ node ∈ keys.map text →
      node ∉ s.channel.clientManager.keys → ClientChannel.Parses node ∧ initError node = "" := by
    intro node hnode hnew
    obtain ⟨key, hkey, heq⟩ := List.mem_map.mp hnode
    have hnewKey := hwork key (by rw [answeredKeys, hphase]; exact hkey)
    rw [heq, List.drop_left] at hnewKey
    exact hnewKey hnew
  obtain ⟨channel, hfunc, hlaw, hsized, hfollows⟩ :=
    onListWatch_below (hs.answered index keys hphase) hnodes
  simp only [step, hphase, hfunc, Option.isSome_none] at ht
  obtain ⟨etcd, hetcd, rfl⟩ := Option.map_eq_some_iff.mp ht
  have hinv := hs.etcd.step hetcd
  have hwatch := (hs.etcd.law_iff hs.watch hetcd).mpr fun h => by cases h
  simp only [EtcdRun.step, hphase, EtcdRun.onList, EtcdInv.onDone_listReply, Option.map_some,
    ne_eq, not_true_eq_false, ↓reduceIte, Option.some.injEq] at hetcd
  subst hetcd
  refine ⟨hinv, hwatch, hs.below, (fun _ _ h => by cases h), hlaw, hsized, ?_, rfl⟩
  rintro _ ⟨⟩
  exact hfollows

theorem Inv.step {a : DiscoveryAction} (hs : Inv text target s) (ha : InOrder text target s a)
    (ht : step text target s a = some t) : Inv text target t := by
  cases a with
  | listReplies initError =>
    cases hphase : s.etcd.phase with
    | listAnswered index keys => exact hs.listReplies hphase ha ht
    | listSent | watchSent _ | watching _ | watchAnswered _ | timer _ | stopped =>
      simp only [Discovery.step, hphase] at ht
      cases ht
  | loop a =>
    have hloop (hreply : ∀ stop, a ≠ .listReplies stop)
        (ht : (s.etcd.step a).map (fun etcd => { s with etcd := etcd }) = some t) :
        Inv text target t := by
      obtain ⟨etcd, hetcd, rfl⟩ := Option.map_eq_some_iff.mp ht
      exact hs.loop hreply hetcd ha.1 ha.2
    cases a with
    | listReplies stop => cases ht
    | modify keys | otherChange | listArrives | listFails r | watchArrives | watchReplies
    | watchFails | timer => exact hloop nofun ht

/-- A channel that has nodes finds a pool, whatever the random engine gives. -/
theorem found_of_law {channel : ClientChannel} (h : channel.ChannelLaw)
    (hsized : channel.lbPolicy.size = channel.lbPolicy.keys.length) {node : ByteString}
    (hnode : node ∈ channel.clientManager.keys) (random : Nat) :
    (channel.getClientPool random).isSome := by
  have hpos : 0 < channel.lbPolicy.keys.length :=
    List.length_pos_of_mem ((h.keys node).mpr hnode)
  have hlt : random % channel.lbPolicy.keys.length < channel.lbPolicy.keys.length :=
    Nat.mod_lt random hpos
  refine h.found random channel.lbPolicy.keys[random % channel.lbPolicy.keys.length] ?_
  rw [RandomLbPolicy.get, if_neg (hsized ▸ Nat.ne_of_gt hpos)]
  exact List.getElem?_eq_getElem hlt

theorem Inv.law (hs : Inv text target s) : DiscoveryLaw text target s := by
  have hpools : ∀ k, s.etcd.phase = .watching k → s.etcd.lastKeys ≠ none →
      Follows text target s.channel s.etcd.server.keys := by
    intro k hphase hlisted
    obtain ⟨keys, hkeys⟩ := Option.ne_none_iff_exists'.mp hlisted
    rw [← (hs.watch k hphase keys hkeys).1]
    exact hs.follows keys hkeys
  refine ⟨hpools, fun k hphase hlisted hne random => ?_, hs.caught⟩
  obtain ⟨key, hkey⟩ := List.exists_mem_of_ne_nil _ hne
  obtain ⟨node, hnode⟩ := (hs.below key hkey).1
  exact found_of_law hs.channel hs.sized
    ((hpools k hphase hlisted node).mpr (hnode ▸ List.mem_map_of_mem hkey)) random

/-- In every run in which the directory and the watches are in order, a blocked watch means that the
channel has the pools of the nodes that are in the directory now. -/
theorem discovery_law (text : String → Bytes) (target : Bytes) (server : EtcdServer)
    (hserver : KeysBelow text target server.keys) (as : List DiscoveryAction)
    (has : (system text target server).AllSteps (InOrder text target)
      (system text target server).init as) :
    (system text target server).AllStates (DiscoveryLaw text target)
      (system text target server).init as :=
  (has.allStates (inv_init hserver) fun _ _ _ hs ha ht => hs.step ha ht).imp fun _ => Inv.law

/-- A directory with one node, which another one joins while the watch is blocked. -/
def oneNode : EtcdServer := ⟨5, 5, ["/svc/1:80"]⟩

def nodeJoins : List DiscoveryAction :=
  [.loop .listArrives, .listReplies fun _ => "", .loop .watchArrives,
    .loop (.modify ["/svc/1:80", "/svc/2:80"]), .loop .watchReplies, .loop .listArrives,
    .listReplies fun _ => "", .loop .watchArrives]

theorem discovery_law_nodeJoins :
    (system bytes (bytes "/svc") oneNode).AllStates (DiscoveryLaw bytes (bytes "/svc"))
      (system bytes (bytes "/svc") oneNode).init nodeJoins :=
  discovery_law bytes (bytes "/svc") oneNode (by decide) nodeJoins (by decide)

end Discovery

end Sheep
