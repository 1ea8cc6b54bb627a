import Sheep.Client.ClientChannel
import Sheep.Lib.OrderedMap

/-!
# Runs of `ClientManager`

Successive calls of `ClientManager::Update`. The handler that makes a pool is arbitrary: what it
returns for a node may depend on everything it was asked before. It returns an error message and a
pool; an exception of it is a matter of `ClientChannel`.

`UpdateLaw` is what one `Update` does to the pools and what it asks of the handler, `updateLaw`
says that every `Update` of every run keeps it. A pool is its identity: the same `Pool` is the same
object.
-/

namespace Sheep

/-- A call of the handler: the node, and what it returned. -/
structure MakeCall (Pool : Type) where
  node : Bytes
  errMsg : String
  pool : Pool

/-- The handler, which may know what it was asked before. -/
abbrev MakeHandler (Pool : Type) := List (MakeCall Pool) → Bytes → String × Pool

structure ManagerRun (Pool : Type) where
  manager : ClientManager Pool
  /-- ghost: the calls of the handler -/
  calls : List (MakeCall Pool)

namespace ManagerRun

variable {Pool : Type} (handler : MakeHandler Pool)

/-- What `addAddr` makes of the answer. -/
def answer (r : String × Pool) : MakeClient Pool := if r.1 ≠ "" then .fails r.1 else .makes r.2

/-- `addAddr`. -/
def addAddr (s : ManagerRun Pool) (addrPort : Bytes) : ManagerRun Pool :=
  let r := handler s.calls addrPort
  let calls := s.calls ++ [⟨addrPort, r.1, r.2⟩]
  match s.manager.addAddr (fun _ => answer r) addrPort with
  | .ok manager => ⟨manager, calls⟩
  | .error _ => ⟨s.manager, calls⟩

/-- `Update`. -/
def update (s : ManagerRun Pool) (nodes : OrderedSet Bytes) : ManagerRun Pool :=
  let needAdd := nodes.keys.filter fun node => (s.manager.getClientPool node).isNone
  let needRemove := s.manager.keys.filter fun node => (nodes.find node).isNone
  let added := needAdd.foldl (addAddr handler) s
  { added with manager := needRemove.foldl ClientManager.removeAddr added.manager }

def system : System (ManagerRun Pool) (OrderedSet Bytes) :=
  ⟨⟨⟨[]⟩, []⟩, fun s nodes => some (s.update handler nodes)⟩

/-! ## The contract -/

/-- `Update` with these calls of the handler leads from `s` to `t`. -/
structure Updated (s : ManagerRun Pool) (nodes : OrderedSet Bytes) (calls : List (MakeCall Pool))
    (t : ManagerRun Pool) : Prop where
  logged : t.calls = s.calls ++ calls
  once : (calls.map MakeCall.node).Nodup
  absent : ∀ node, node ∈ calls.map MakeCall.node ↔ node ∈ nodes.keys ∧ node ∉ s.manager.keys
  keys : ∀ node, node ∈ t.manager.keys ↔
    node ∈ nodes.keys ∧ node ∈ s.manager.keys ∨ ∃ c ∈ calls, c.node = node ∧ c.errMsg = ""
  retained : ∀ node, node ∈ nodes.keys → node ∈ s.manager.keys →
    t.manager.getClientPool node = s.manager.getClientPool node
  made : ∀ c ∈ calls, c.errMsg = "" → t.manager.getClientPool c.node = some c.pool

/-- An `Update`, and the same again once all nodes are there. -/
def UpdateLaw (s : ManagerRun Pool) (nodes : OrderedSet Bytes) : Prop :=
  (∃ calls, Updated s nodes calls (s.update handler nodes)) ∧
    ((∀ node ∈ nodes.keys, node ∈ (s.update handler nodes).manager.keys) →
      (s.update handler nodes).update handler nodes = s.update handler nodes)

/-! ## Adding and removing -/

variable {handler}

/-- `addAddr` asks the handler once. -/
theorem addAddr_asks (s : ManagerRun Pool) (addrPort : Bytes) :
    ∃ c : MakeCall Pool, c.node = addrPort ∧
      (s.addAddr handler addrPort).calls = s.calls ++ [c] ∧
      (c.errMsg = "" →
        (s.addAddr handler addrPort).manager = s.manager.insert addrPort c.pool) ∧
      (c.errMsg ≠ "" → (s.addAddr handler addrPort).manager = s.manager) := by
  refine ⟨⟨addrPort, (handler s.calls addrPort).1, (handler s.calls addrPort).2⟩, rfl, ?_, ?_, ?_⟩
  · unfold addAddr
    dsimp only
    split <;> rfl
  · intro herr
    have hanswer : answer (handler s.calls addrPort) = .makes (handler s.calls addrPort).2 :=
      if_neg (not_not.mpr herr)
    simp only [addAddr, hanswer, ClientManager.addAddr]
  · intro herr
    have hanswer : answer (handler s.calls addrPort) = .fails (handler s.calls addrPort).1 :=
      if_pos herr
    simp only [addAddr, hanswer, ClientManager.addAddr]

theorem getClientPool_insert {m : ClientManager Pool} {addrPort : Bytes} {pool : Pool}
    (h : addrPort ∉ m.keys) (node : Bytes) :
    (m.insert addrPort pool).getClientPool node =
      (m.getClientPool node).or (if node = addrPort then some pool else none) := by
  unfold ClientManager.insert ClientManager.getClientPool
  rw [if_neg h, List.lookup_append, List.lookup_cons]
  rcases eq_or_ne node addrPort with hnode | hnode
  · simp [hnode]
  · rw [beq_false_of_ne hnode, if_neg hnode]
    rfl

theorem getClientPool_eq_none {m : ClientManager Pool} {node : Bytes} :
    m.getClientPool node = none ↔ node ∉ m.keys := by
  rw [← ClientManager.getClientPool_isSome, Bool.not_eq_true, Option.isSome_eq_false_iff,
    Option.isNone_iff_eq_none]

theorem getClientPool_isNone {m : ClientManager Pool} {node : Bytes} :
    (m.getClientPool node).isNone ↔ node ∉ m.keys := by
  rw [Option.isNone_iff_eq_none, getClientPool_eq_none]

theorem getClientPool_removeAll {m : ClientManager Pool} {needRemove : List Bytes} {node : Bytes}
    (h : node ∉ needRemove) :
    (needRemove.foldl ClientManager.removeAddr m).getClientPool node = m.getClientPool node := by
  induction needRemove generalizing m with
  | nil => rfl
  | cons addrPort rest ih =>
    obtain ⟨hne, hrest⟩ := not_or.mp (fun hmem => h (List.mem_cons.mpr hmem))
    rw [List.foldl_cons, ih hrest]
    unfold ClientManager.getClientPool ClientManager.removeAddr
    generalize m.clientPools = pools
    induction pools with
    | nil => rfl
    | cons pair pools ihp =>
      obtain ⟨k, pool⟩ := pair
      rcases eq_or_ne k addrPort with hk | hk
      · have hnode : (node == k) = false := beq_eq_false_iff_ne.mpr (hk ▸ hne)
        rw [List.filter_cons_of_neg (by simpa using hk), ihp, List.lookup_cons, hnode]
      · rw [List.filter_cons_of_pos (by simpa using hk), List.lookup_cons, List.lookup_cons, ihp]

/-- The loop over nodes that have no pool. -/
structure Added (s : ManagerRun Pool) (needAdd : List Bytes) (calls : List (MakeCall Pool))
    (t : ManagerRun Pool) : Prop where
  logged : t.calls = s.calls ++ calls
  nodes : calls.map MakeCall.node = needAdd
  keys : ∀ node, node ∈ t.manager.keys ↔
    node ∈ s.manager.keys ∨ ∃ c ∈ calls, c.node = node ∧ c.errMsg = ""
  retained : ∀ node, node ∈ s.manager.keys →
    t.manager.getClientPool node = s.manager.getClientPool node
  made : ∀ c ∈ calls, c.errMsg = "" → t.manager.getClientPool c.node = some c.pool

theorem added (s : ManagerRun Pool) (needAdd : List Bytes) (hnodup : needAdd.Nodup)
    (habsent : ∀ node ∈ needAdd, node ∉ s.manager.keys) :
    ∃ calls, Added s needAdd calls (needAdd.foldl (addAddr handler) s) := by
  induction needAdd generalizing s with
  | nil => exact ⟨[], (List.append_nil _).symm, rfl, by simp, fun _ _ => rfl, nofun⟩
  | cons addrPort rest ih =>
    obtain ⟨hnotin, hrest⟩ := List.nodup_cons.mp hnodup
    obtain ⟨c, hnode, hcalls, hmakes, hfails⟩ := @addAddr_asks _ handler s addrPort
    have hnew : addrPort ∉ s.manager.keys := habsent addrPort List.mem_cons_self
    have hkeys : ∀ node, node ∈ (s.addAddr handler addrPort).manager.keys ↔
        node ∈ s.manager.keys ∨ node = addrPort ∧ c.errMsg = "" := by
      intro node
      by_cases herr : c.errMsg = ""
      · rw [hmakes herr, ClientManager.mem_keys_insert]
        simp only [herr, and_true]
      · rw [hfails herr]
        simp only [herr, and_false, or_false]
    have hpool : ∀ node, (s.addAddr handler addrPort).manager.getClientPool node =
        (s.manager.getClientPool node).or
          (if node = addrPort ∧ c.errMsg = "" then some c.pool else none) := by
      intro node
      by_cases herr : c.errMsg = ""
      · rw [hmakes herr, getClientPool_insert hnew]
        simp only [herr, and_true]
      · rw [hfails herr]
        simp only [herr, and_false, ↓reduceIte, Option.or_none]
    obtain ⟨calls, hadded⟩ := ih (s.addAddr handler addrPort) hrest fun node hmem => by
      rw [hkeys, not_or]
      exact ⟨habsent node (List.mem_cons_of_mem _ hmem), fun h => hnotin (h.1 ▸ hmem)⟩
    rw [List.foldl_cons]
    refine ⟨c :: calls, ?_, ?_, ?_, ?_, ?_⟩
    · rw [hadded.logged, hcalls, List.append_assoc]
      rfl
    · rw [List.map_cons, hnode, hadded.nodes]
    · intro node
      rw [hadded.keys, hkeys]
      simp only [List.mem_cons, exists_eq_or_imp, hnode, eq_comm (a := node), or_assoc]
    · intro node hmem
      have hne : node ≠ addrPort := fun heq => hnew (heq ▸ hmem)
      rw [hadded.retained node ((hkeys node).mpr (.inl hmem)), hpool, if_neg fun h => hne h.1,
        Option.or_none]
    · intro c' hmem herr
      rcases List.mem_cons.mp hmem with rfl | hmem
      · have hmade : addrPort ∈ (s.addAddr handler addrPort).manager.keys :=
          (hkeys addrPort).mpr (.inr ⟨rfl, herr⟩)
        rw [hnode, hadded.retained addrPort hmade, hpool, if_pos ⟨rfl, herr⟩,
          getClientPool_eq_none.mpr hnew, Option.none_or]
      · exact hadded.made c' hmem herr

/-! ## One `Update` -/

theorem updated (s : ManagerRun Pool) (nodes : OrderedSet Bytes) :
    ∃ calls, Updated s nodes calls (s.update handler nodes) := by
  have habsent : ∀ node,
      node ∈ nodes.keys.filter (fun node => (s.manager.getClientPool node).isNone) ↔
        node ∈ nodes.keys ∧ node ∉ s.manager.keys := fun node => by
    rw [List.mem_filter, getClientPool_isNone]
  obtain ⟨calls, hadded⟩ := @added _ handler s _ (nodes.keys_nodup.filter _)
    fun node hmem => ((habsent node).mp hmem).2
  have hcall : ∀ c ∈ calls, c.node ∈ nodes.keys ∧ c.node ∉ s.manager.keys := fun c hmem => by
    rw [← habsent, ← hadded.nodes]
    exact List.mem_map_of_mem hmem
  have hgoes : ∀ node,
      node ∈ s.manager.keys.filter (fun node => (nodes.find node).isNone) ↔
        node ∈ s.manager.keys ∧ node ∉ nodes.keys := fun node => by
    rw [List.mem_filter, OrderedMap.find_isNone]
  have hstays : ∀ node, node ∈ nodes.keys →
      node ∉ s.manager.keys.filter fun node => (nodes.find node).isNone :=
    fun node hmem hfilter => ((hgoes node).mp hfilter).2 hmem
  refine ⟨calls, hadded.logged, ?_, ?_, ?_, ?_, ?_⟩
  · rw [hadded.nodes]
    exact nodes.keys_nodup.filter _
  · rw [hadded.nodes]
    exact habsent
  · intro node
    show node ∈ ClientManager.keys (List.foldl _ _ _) ↔ _
    rw [ClientManager.mem_keys_removeAll, hadded.keys, hgoes, not_and, not_not]
    constructor
    · rintro ⟨hold | hmade, hremove⟩
      · exact .inl ⟨hremove hold, hold⟩
      · exact .inr hmade
    · rintro (⟨hmem, hold⟩ | hmade)
      · exact ⟨.inl hold, fun _ => hmem⟩
      · obtain ⟨c, hc, rfl, herr⟩ := hmade
        exact ⟨.inr ⟨c, hc, rfl, herr⟩, fun hold => absurd hold (hcall c hc).2⟩
  · intro node hmem hold
    exact (getClientPool_removeAll (hstays node hmem)).trans (hadded.retained node hold)
  · intro c hc herr
    exact (getClientPool_removeAll (hstays c.node (hcall c hc).1)).trans (hadded.made c hc herr)

/-- With no node to add and none to remove, `Update` does nothing. -/
theorem update_of_same {s : ManagerRun Pool} {nodes : OrderedSet Bytes}
    (hadd : ∀ node ∈ nodes.keys, node ∈ s.manager.keys)
    (hremove : ∀ node ∈ s.manager.keys, node ∈ nodes.keys) : s.update handler nodes = s := by
  have hnoAdd : nodes.keys.filter (fun node => (s.manager.getClientPool node).isNone) = [] :=
    List.filter_eq_nil_iff.mpr fun node hmem hnone =>
      getClientPool_isNone.mp hnone (hadd node hmem)
  have hnoRemove : s.manager.keys.filter (fun node => (nodes.find node).isNone) = [] :=
    List.filter_eq_nil_iff.mpr fun node hmem hnone =>
      OrderedMap.find_isNone.mp hnone (hremove node hmem)
  unfold update
  rw [hnoAdd, hnoRemove]
  rfl

theorem update_law (s : ManagerRun Pool) (nodes : OrderedSet Bytes) :
    UpdateLaw handler s nodes := by
  obtain ⟨calls, h⟩ := @updated _ handler s nodes
  refine ⟨⟨calls, h⟩, fun hall => update_of_same hall fun node hmem => ?_⟩
  rcases (h.keys node).mp hmem with hold | ⟨c, hc, rfl, -⟩
  · exact hold.1
  · exact ((h.absent c.node).mp (List.mem_map_of_mem hc)).1

/-! ## The handler of `ClientChannel` -/

/-- With a handler that forgets what it was asked, `update` is that of `ClientManager`. -/
theorem update_manager (answers : Bytes → String × Pool) (s : ManagerRun Pool)
    (nodes : OrderedSet Bytes) :
    (s.manager.update (fun node => answer (answers node)) nodes.keys) =
      ((s.update (fun _ => answers) nodes).manager, none) := by
  have hadd : ∀ (needAdd : List Bytes) (s : ManagerRun Pool),
      ClientManager.addAll (fun node => answer (answers node)) s.manager needAdd =
        ((needAdd.foldl (addAddr fun _ => answers) s).manager, none) := by
    intro needAdd
    induction needAdd with
    | nil => exact fun _ => rfl
    | cons node rest ih =>
      intro s
      rw [ClientManager.addAll, List.foldl_cons, ← ih]
      unfold addAddr answer
      by_cases h : (answers node).1 = ""
      · simp [ClientManager.addAddr, h]
      · simp [ClientManager.addAddr, h]
  have hneedAdd : nodes.keys.filter (fun node => decide (node ∉ s.manager.keys)) =
      nodes.keys.filter fun node => (s.manager.getClientPool node).isNone :=
    List.filter_congr fun node _ => by
      rw [Bool.eq_iff_iff, decide_eq_true_iff, getClientPool_isNone]
  have hneedRemove : s.manager.keys.filter (fun node => decide (node ∉ nodes.keys)) =
      s.manager.keys.filter fun node => (nodes.find node).isNone :=
    List.filter_congr fun node _ => by
      rw [Bool.eq_iff_iff, decide_eq_true_iff, OrderedMap.find_isNone]
  unfold ClientManager.update
  dsimp only
  rw [hneedAdd, hneedRemove, hadd]
  rfl

/-! ## Every run -/

/-- Every `Update` of every sequence keeps the contract, whatever the handler answers. -/
theorem updateLaw (handler : MakeHandler Pool) (updates : List (OrderedSet Bytes)) :
    (system handler).AllSteps (UpdateLaw handler) (system handler).init updates :=
  System.AllSteps.trivial.imp (P := fun _ => True) True.intro (fun _ _ _ _ _ _ => True.intro)
    fun s nodes _ _ => update_law s nodes

end ManagerRun

end Sheep
