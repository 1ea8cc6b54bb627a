import Mathlib.Data.List.Basic
import Sheep.Lib.Bytes
import Sheep.Lib.System

/-!
# `ClientChannel`

A channel keeps the nodes that its resolver notifies in two places: the load-balancing policy
(`lb_policy/random_lb_policy.h`) and the pools of `client_manager.h`. `Balancer::Init` gives a set
of nodes to the policy first and to `ClientManager::Update` then, which makes a pool for each new
node. The handler that makes it takes the port out of the node with `std::stoi`.

`ChannelLaw`: the notification came to its end, and the policy and the pools have the same nodes, so
that `GetClientPool` finds a pool for what `Balancer::Get` returns. `channelLaw_iff`: a sequence of
notifications keeps the law if and only if each new node has a port that `std::stoi` takes and gets
a pool without an error. A node that does not stays in the policy, and an exception leaves the rest
of the set, and the nodes that went, where they were.
-/

namespace Sheep

/-- A `std::string`. -/
abbrev ByteString := List UInt8

/-! ## `small_strings::split` -/

/-- `std::getline` in a loop. `piece`: what the call has read so far, in reverse. A call that reads
nothing before the end fails. -/
def splitLoop (c : UInt8) (piece : ByteString) : ByteString → List ByteString
  | [] => if piece.isEmpty then [] else [piece.reverse]
  | x :: rest =>
    if x = c then piece.reverse :: splitLoop c [] rest else splitLoop c (x :: piece) rest

/-- `small_strings::split`. -/
def split (str : ByteString) (c : UInt8) : List ByteString := splitLoop c [] str

/-! ## `RandomLbPolicy` -/

structure RandomLbPolicy where
  keys : List ByteString
  size : Nat
  deriving DecidableEq, Repr

namespace RandomLbPolicy

/-- `new RandomLbPolicy()`: `size_` is zero. -/
def new : RandomLbPolicy := ⟨[], 0⟩

/-- `UpdateAllWithoutWeight`; a set is the list of its elements. -/
def updateAllWithoutWeight (keys : List ByteString) : RandomLbPolicy := ⟨keys, keys.length⟩

/-- `Get`, when the random engine gives `random`. `none`: `ok` is false. -/
def get (p : RandomLbPolicy) (random : Nat) : Option ByteString :=
  if p.size = 0 then none else p.keys[random % p.keys.length]?

end RandomLbPolicy

/-! ## `ClientManager` -/

/-- What the handler that makes a pool does. -/
inductive MakeClient (Pool : Type)
  | throws (e : StdException)
  | fails (errMsg : String)
  | makes (pool : Pool)
  deriving DecidableEq, Repr

/-- `clientPools_`. -/
structure ClientManager (Pool : Type) where
  clientPools : List (ByteString × Pool)
  deriving DecidableEq, Repr

namespace ClientManager

variable {Pool : Type}

def keys (m : ClientManager Pool) : List ByteString := m.clientPools.map Prod.fst

/-- `GetClientPool`; `none`: `ok` is false. -/
def getClientPool (m : ClientManager Pool) (addr : ByteString) : Option Pool :=
  m.clientPools.lookup addr

/-- `std::map::insert` keeps an entry that is there. -/
def insert (m : ClientManager Pool) (addrPort : ByteString) (pool : Pool) : ClientManager Pool :=
  if addrPort ∈ m.keys then m else ⟨m.clientPools ++ [(addrPort, pool)]⟩

/-- `removeAddr`. -/
def removeAddr (m : ClientManager Pool) (addrPort : ByteString) : ClientManager Pool :=
  ⟨m.clientPools.filter fun pair => pair.1 ≠ addrPort⟩

/-- `addAddr`. -/
def addAddr (m : ClientManager Pool) (handler : ByteString → MakeClient Pool)
    (addrPort : ByteString) : Except StdException (ClientManager Pool) :=
  match handler addrPort with
  | .throws e => .error e
  | .fails _ => .ok m
  | .makes pool => .ok (m.insert addrPort pool)

/-- The loop over `needAdd`: what has been added when it ends, and the exception that ended it. -/
def addAll (handler : ByteString → MakeClient Pool) (m : ClientManager Pool) :
    List ByteString → ClientManager Pool × Option StdException
  | [] => (m, none)
  | node :: needAdd =>
    match m.addAddr handler node with
    | .error e => (m, some e)
    | .ok m' => addAll handler m' needAdd

/-- `Update`. -/
def update (m : ClientManager Pool) (handler : ByteString → MakeClient Pool)
    (nodes : List ByteString) : ClientManager Pool × Option StdException :=
  let needAdd := nodes.filter (· ∉ m.keys)
  let needRemove := m.keys.filter (· ∉ nodes)
  match addAll handler m needAdd with
  | (m', some e) => (m', some e)
  | (m', none) => (needRemove.foldl removeAddr m', none)

end ClientManager

/-! ## `ClientChannel` -/

/-- What a `ClientPool` is made of. `port` is `none` where the code leaves it uninitialised. -/
structure PoolAddr where
  addr : ByteString
  port : Option Int
  deriving DecidableEq, Repr

/-- `AddrPort2addrAndPort`: `ok`, and the address and the port. After `stoi` the code sets `ok` to
true whatever the port is. -/
def addrPort2addrAndPort (addrPort : ByteString) : Except StdException (Bool × PoolAddr) :=
  let list := split addrPort 58
  match list.head?, list.getLast? with
  | some addr, some last => (stoi last).map fun port => (true, ⟨addr, some port⟩)
  | _, _ => .ok (false, ⟨[], none⟩)

/-- The handler of `ClientChannel::Init`, which does not look at `ok`; `initError`: the `errMsg`
that `ClientPool::Init` sets for the node. -/
def makeClientPool (initError : ByteString → String) (addrPort : ByteString) :
    MakeClient PoolAddr :=
  match addrPort2addrAndPort addrPort with
  | .error e => .throws e
  | .ok (_, pool) => if initError addrPort = "" then .makes pool else .fails (initError addrPort)

structure ClientChannel where
  lbPolicy : RandomLbPolicy
  clientManager : ClientManager PoolAddr
  /-- the exception that left the last notification -/
  exception : Option StdException
  deriving DecidableEq, Repr

/-- The resolver notifies the nodes, and `ClientPool::Init` sets these errors. -/
structure Notification where
  nodes : List ByteString
  initError : ByteString → String

namespace ClientChannel

def new : ClientChannel := ⟨.new, ⟨[]⟩, none⟩

/-- The handler of `Balancer::Init`. -/
def notify (s : ClientChannel) (a : Notification) : ClientChannel :=
  let (clientManager, exception) := s.clientManager.update (makeClientPool a.initError) a.nodes
  ⟨.updateAllWithoutWeight a.nodes, clientManager, exception⟩

/-- `GetClientPool`, when the random engine gives `random`. -/
def getClientPool (s : ClientChannel) (random : Nat) : Option PoolAddr :=
  (s.lbPolicy.get random).bind s.clientManager.getClientPool

def system : System ClientChannel Notification := ⟨new, fun s a => some (s.notify a)⟩

/-- The last notification came to its end, the policy and the pools have the same nodes, and
`GetClientPool` reports `ok` for what `Balancer::Get` returns. -/
structure ChannelLaw (s : ClientChannel) : Prop where
  completed : s.exception = none
  keys : ∀ node, node ∈ s.lbPolicy.keys ↔ node ∈ s.clientManager.keys
  found : ∀ random node, s.lbPolicy.get random = some node → (s.getClientPool random).isSome

/-- The port of the node is a number that `std::stoi` takes, or there is nothing to take it from. -/
def Parses (node : ByteString) : Prop := ∀ last ∈ (split node 58).getLast?, (stoi last).isOk

/-- Each new node of the notification gets its pool. -/
def NewNodesWork (s : ClientChannel) (a : Notification) : Prop :=
  ∀ node ∈ a.nodes, node ∉ s.clientManager.keys → Parses node ∧ a.initError node = ""

end ClientChannel

/-! ## What `Update` does to the nodes that have a pool -/

namespace ClientManager

variable {Pool : Type} {m : ClientManager Pool} {handler : ByteString → MakeClient Pool}

theorem getClientPool_isSome (m : ClientManager Pool) (addr : ByteString) :
    (m.getClientPool addr).isSome ↔ addr ∈ m.keys := by
  simp [getClientPool, keys, List.lookup_isSome_iff]

theorem mem_keys_insert (addrPort : ByteString) (pool : Pool) (x : ByteString) :
    x ∈ (m.insert addrPort pool).keys ↔ x ∈ m.keys ∨ x = addrPort := by
  unfold insert
  split
  · next hmem =>
    exact ⟨.inl, fun h => h.elim id fun heq => heq ▸ hmem⟩
  · simp [keys]

theorem mem_keys_removeAddr (addrPort x : ByteString) :
    x ∈ (m.removeAddr addrPort).keys ↔ x ∈ m.keys ∧ x ≠ addrPort := by
  simp [keys, removeAddr]

theorem mem_keys_removeAll (needRemove : List ByteString) (x : ByteString) :
    x ∈ (needRemove.foldl removeAddr m).keys ↔ x ∈ m.keys ∧ x ∉ needRemove := by
  induction needRemove generalizing m with
  | nil => simp
  | cons node rest ih =>
    rw [List.foldl_cons, ih, mem_keys_removeAddr, List.mem_cons, not_or, and_assoc]

theorem addAll_completed (needAdd : List ByteString) :
    (addAll handler m needAdd).2 = none ↔ ∀ node ∈ needAdd, ∀ e, handler node ≠ .throws e := by
  induction needAdd generalizing m with
  | nil => simp [addAll]
  | cons node rest ih =>
    cases hnode : handler node with
    | throws e => simp [addAll, addAddr, hnode]
    | fails errMsg => simp [addAll, addAddr, hnode, ih]
    | makes pool => simp [addAll, addAddr, hnode, ih]

theorem mem_keys_addAll {needAdd : List ByteString}
    (h : (addAll handler m needAdd).2 = none) (x : ByteString) :
    x ∈ (addAll handler m needAdd).1.keys ↔
      x ∈ m.keys ∨ x ∈ needAdd ∧ ∃ pool, handler x = .makes pool := by
  induction needAdd generalizing m with
  | nil => simp [addAll]
  | cons node rest ih =>
    cases hnode : handler node with
    | throws e => simp [addAll, addAddr, hnode] at h
    | fails errMsg =>
      simp only [addAll, addAddr, hnode] at h ⊢
      rw [ih h, List.mem_cons]
      constructor
      · rintro (hm | ⟨hx, hpool⟩)
        · exact .inl hm
        · exact .inr ⟨.inr hx, hpool⟩
      · rintro (hm | ⟨rfl | hx, hpool⟩)
        · exact .inl hm
        · obtain ⟨pool, hpool⟩ := hpool
          rw [hnode] at hpool
          cases hpool
        · exact .inr ⟨hx, hpool⟩
    | makes pool =>
      simp only [addAll, addAddr, hnode] at h ⊢
      rw [ih h, mem_keys_insert, List.mem_cons]
      constructor
      · rintro ((hm | rfl) | ⟨hx, hpool⟩)
        · exact .inl hm
        · exact .inr ⟨.inl rfl, pool, hnode⟩
        · exact .inr ⟨.inr hx, hpool⟩
      · rintro (hm | ⟨rfl | hx, hpool⟩)
        · exact .inl (.inl hm)
        · exact .inl (.inr rfl)
        · exact .inr ⟨hx, hpool⟩

theorem update_completed (nodes : List ByteString) :
    (m.update handler nodes).2 = none ↔
      ∀ node ∈ nodes, node ∉ m.keys → ∀ e, handler node ≠ .throws e := by
  have hadd : (addAll handler m (nodes.filter (· ∉ m.keys))).2 = none ↔ _ := addAll_completed _
  simp only [List.mem_filter, decide_eq_true_eq, and_imp] at hadd
  rw [← hadd, update]
  split <;> simp_all

/-- After an `Update` that comes to its end, the nodes with a pool are those of the set that had one
or got one. -/
theorem mem_keys_update {nodes : List ByteString} (h : (m.update handler nodes).2 = none)
    (x : ByteString) :
    x ∈ (m.update handler nodes).1.keys ↔
      x ∈ nodes ∧ (x ∈ m.keys ∨ ∃ pool, handler x = .makes pool) := by
  unfold update at h ⊢
  dsimp only at h ⊢
  split at h
  · cases h
  · next m' hadd =>
    have hkeys := mem_keys_addAll (congrArg Prod.snd hadd) x
    rw [hadd, List.mem_filter, decide_eq_true_eq] at hkeys
    dsimp only at hkeys ⊢
    rw [mem_keys_removeAll, hkeys, List.mem_filter, decide_eq_true_eq]
    by_cases hx : x ∈ nodes <;> by_cases hm : x ∈ m.keys <;> simp [hx, hm]

end ClientManager

/-! ## The law -/

theorem addrPort2addrAndPort_isOk (node : ByteString) :
    (addrPort2addrAndPort node).isOk ↔ ClientChannel.Parses node := by
  unfold addrPort2addrAndPort ClientChannel.Parses
  cases hsplit : split node 58 with
  | nil => simp [Except.isOk, Except.toBool]
  | cons addr rest =>
    obtain ⟨last, hlast⟩ : ∃ last, (addr :: rest).getLast? = some last :=
      ⟨_, List.getLast?_eq_some_getLast (List.cons_ne_nil addr rest)⟩
    simp only [List.head?_cons, hlast, Option.mem_some_iff, forall_eq']
    cases stoi last <;> simp [Except.map, Except.isOk, Except.toBool]

/-- The handler throws exactly for the nodes that do not parse. -/
theorem makeClientPool_throws (initError : ByteString → String) (node : ByteString) :
    (∀ e, makeClientPool initError node ≠ .throws e) ↔ ClientChannel.Parses node := by
  rw [← addrPort2addrAndPort_isOk]
  unfold makeClientPool
  cases addrPort2addrAndPort node with
  | error e => simp [Except.isOk, Except.toBool]
  | ok r =>
    simp only [Except.isOk, Except.toBool, iff_true]
    intro e
    split <;> simp

theorem makeClientPool_makes (initError : ByteString → String) (node : ByteString) :
    (∃ pool, makeClientPool initError node = .makes pool) ↔
      ClientChannel.Parses node ∧ initError node = "" := by
  rw [← addrPort2addrAndPort_isOk]
  unfold makeClientPool
  cases addrPort2addrAndPort node with
  | error e => simp [Except.isOk, Except.toBool]
  | ok r =>
    simp only [Except.isOk, Except.toBool, true_and]
    split
    · next herr => simp [herr]
    · next herr => simp [herr]

namespace ClientChannel

theorem found_of_keys {s : ClientChannel}
    (hkeys : ∀ node, node ∈ s.lbPolicy.keys ↔ node ∈ s.clientManager.keys) (random : Nat)
    (node : ByteString) (hget : s.lbPolicy.get random = some node) :
    (s.getClientPool random).isSome := by
  have hmem : node ∈ s.lbPolicy.keys := by
    unfold RandomLbPolicy.get at hget
    split at hget
    · cases hget
    · exact List.mem_of_getElem? hget
  rw [getClientPool, hget, Option.bind_some, ClientManager.getClientPool_isSome]
  exact (hkeys node).mp hmem

theorem channelLaw_new : new.ChannelLaw where
  completed := rfl
  keys _ := by simp [new, RandomLbPolicy.new, ClientManager.keys]
  found := found_of_keys fun _ => by simp [new, RandomLbPolicy.new, ClientManager.keys]

/-- After a notification the law holds exactly if each new node got its pool, whatever the state
was. -/
theorem channelLaw_notify (s : ClientChannel) (a : Notification) :
    (s.notify a).ChannelLaw ↔ s.NewNodesWork a := by
  have hcompleted : (s.clientManager.update (makeClientPool a.initError) a.nodes).2 = none ↔ _ :=
    ClientManager.update_completed a.nodes
  simp only [makeClientPool_throws] at hcompleted
  have hkeys := fun (h : (s.clientManager.update (makeClientPool a.initError) a.nodes).2 = none) =>
    ClientManager.mem_keys_update h
  simp only [makeClientPool_makes] at hkeys
  constructor
  · intro hlaw node hnode hnew
    have hdone : (s.clientManager.update (makeClientPool a.initError) a.nodes).2 = none :=
      hlaw.completed
    obtain ⟨-, hold | hmade⟩ := (hkeys hdone node).mp ((hlaw.keys node).mp hnode)
    · exact absurd hold hnew
    · exact hmade
  · intro hwork
    have hdone := hcompleted.mpr fun node hnode hnew => (hwork node hnode hnew).1
    have hsame : ∀ node, node ∈ (s.notify a).lbPolicy.keys ↔
        node ∈ (s.notify a).clientManager.keys := by
      intro node
      show node ∈ a.nodes ↔ node ∈ (s.clientManager.update _ a.nodes).1.keys
      rw [hkeys hdone node]
      refine ⟨fun hnode => ⟨hnode, ?_⟩, fun h => h.1⟩
      by_cases hold : node ∈ s.clientManager.keys
      · exact .inl hold
      · exact .inr (hwork node hnode hold)
    exact ⟨hdone, hsame, found_of_keys hsame⟩

/-- In every sequence of notifications the law holds after each of them if and only if each new node
of each of them has a port that `std::stoi` takes, and a pool without an error. -/
theorem channelLaw_iff (as : List Notification) :
    system.AllStates ChannelLaw new as ↔ system.AllSteps NewNodesWork new as := by
  have hrun : ∀ (s : ClientChannel) (as : List Notification), (system.run s as).isSome := by
    intro s as
    induction as generalizing s with
    | nil => rfl
    | cons a as ih => exact ih (s.notify a)
  refine System.allStates_iff_allSteps (I := fun _ => True) (L := fun _ => True) channelLaw_new
    True.intro (fun _ _ _ _ _ => True.intro) ?_ (fun _ _ => True.intro) (hrun new as)
  rintro s a t - - - ht
  cases ht
  exact channelLaw_notify s a

/-- `"1:80"` and `"1:x"`. -/
def goodNode : ByteString := [49, 58, 56, 48]
def badNode : ByteString := [49, 58, 120]

/-- A node without a number after the colon: the exception leaves `Update`, the node is in the
policy, and the pool of the node that went is still there. -/
theorem channelLaw_fails :
    ∃ s, system.run new [⟨[goodNode], fun _ => ""⟩, ⟨[badNode], fun _ => ""⟩] = some s ∧
      s.exception = some .invalidArgument ∧ s.lbPolicy.get 0 = some badNode ∧
      s.getClientPool 0 = none ∧ s.clientManager.keys = [goodNode] ∧ ¬ s.ChannelLaw :=
  ⟨_, rfl, by decide, by decide, by decide, by decide, fun h => by cases h.completed⟩

end ClientChannel

end Sheep
