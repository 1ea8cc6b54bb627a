import Mathlib.Data.Finset.Basic
import Mathlib.Data.Finset.Lattice.Lemmas
import Mathlib.Logic.Function.Basic
import Sheep.Lib.System

/-!
# `Server`

The connections of a server: `Socket::Accept`, `Acceptor::readHandler` and
`Server::newConnectionHandler` for a readable event of the listening socket, and
`TcpConnection::Finish`, which the loop calls for an error and the user at any time, also from the
connected handler.

`ServerLaw`: between the callbacks `connections_` has the connections that were initialised and not
finished, and no connection is made without a descriptor. `serverLaw_iff`: a run keeps it if and
only if no `accept` returns `EAGAIN` and no connected handler finishes the connection it is called
with.
`Accept` returns -1 with an empty `errMsg` for `EAGAIN`, and `readHandler` looks only at `errMsg`;
and `connections_->insert` comes after the connected handler, when the finish handler may have done
its `erase`.
-/

namespace Sheep

/-- The identity of a `TcpConnection` object. -/
abbrev ConnectionId := Nat

/-- What `accept` does. -/
inductive SysAccept
  | descriptor (fd : Nat)
  | eagain
  | error (strerror : String)
  deriving DecidableEq, Repr

/-- `Socket::Accept`: what it returns, and `errMsg`. -/
def SysAccept.accept : SysAccept → Int × String
  | .descriptor fd => (fd, "")
  | .eagain => (-1, "")
  | .error strerror => (-1, "call sys accpet failed: " ++ strerror)

/-- What a user does with a connection. -/
inductive UserCall
  | finish (c : ConnectionId) (errMsg : String)
  | reset (c : ConnectionId)
  deriving DecidableEq, Repr

def UserCall.connection : UserCall → ConnectionId
  | .finish c _ => c
  | .reset c => c

inductive ServerCall
  | connected (errMsg : String) (c : ConnectionId)
  | disconnected (errMsg : String)
  deriving DecidableEq, Repr

structure Server where
  connections : Finset ConnectionId
  /-- the next new `TcpConnection` object -/
  nextConnection : ConnectionId
  /-- `finished_` of each connection -/
  finished : ConnectionId → Bool
  /-- the calls of the user's handlers -/
  log : List ServerCall
  /-- `LOG(FATAL)` has ended the process -/
  aborted : Bool
  /-- ghost: the connections for which `InitAccepted` set no error -/
  initialised : Finset ConnectionId
  /-- ghost: the connections for which `Finish` has run -/
  finishRan : Finset ConnectionId
  /-- ghost: the descriptors that connections were made for -/
  built : List Int

inductive ServerAction
  /-- A readable event of the listening socket. `noblock` and `noDelay` are the errors of
  `InitAccepted`, and `calls` is what the connected handler does. -/
  | readable (r : SysAccept) (noblock noDelay : String) (calls : List UserCall)
  /-- a call of the loop or of the user, outside of the connected handler -/
  | call (u : UserCall)
  deriving DecidableEq, Repr

namespace Server

def new : Server := ⟨∅, 0, fun _ => false, [], false, ∅, ∅, []⟩

def emit (s : Server) (c : ServerCall) : Server := { s with log := s.log ++ [c] }

/-- `TcpConnection::Finish` with the finish handler of `newConnectionHandler`. -/
def finish (s : Server) (c : ConnectionId) (errMsg : String) : Server :=
  if s.finished c then s
  else
    { s with
      finished := Function.update s.finished c true
      finishRan := insert c s.finishRan
      connections := s.connections.erase c
      log := s.log ++ [.disconnected errMsg] }

/-- `TcpConnection::Reset`. -/
def reset (s : Server) (c : ConnectionId) : Server :=
  { s with finished := Function.update s.finished c false }

def call (s : Server) : UserCall → Server
  | .finish c errMsg => s.finish c errMsg
  | .reset c => s.reset c

/-- `InitAccepted`: `SetNoblock` and then `SetNoDelay`. The finish handler is set. -/
def initAccepted (noblock noDelay : String) : String := if noblock ≠ "" then noblock else noDelay

/-- `new TcpConnection`. The `Socket` does not take a negative descriptor: `LOG(FATAL)`. -/
def build (s : Server) (fd : Int) : Server :=
  { s with
    nextConnection := s.nextConnection + 1
    finished := Function.update s.finished s.nextConnection false
    built := s.built ++ [fd]
    aborted := fd < 0 }

/-- `newConnectionHandler`, when the connected handler does `calls`. -/
def newConnectionHandler (s : Server) (fd : Int) (noblock noDelay : String)
    (calls : List UserCall) : Server :=
  let connection := s.nextConnection
  let s := s.build fd
  if s.aborted then s
  else
    let errMsg := initAccepted noblock noDelay
    if errMsg ≠ "" then calls.foldl call (s.emit (.connected errMsg connection))
    else
      let s := { s with initialised := insert connection s.initialised }
      let s := calls.foldl call (s.emit (.connected errMsg connection))
      { s with connections := insert connection s.connections }

def step (s : Server) : ServerAction → Option Server
  | .readable r noblock noDelay calls =>
    -- the connected handler has the new connection and those it was given before
    if s.aborted ∨ ¬ ∀ u ∈ calls, u.connection ≤ s.nextConnection then none
    else
      let (fd, errMsg) := r.accept
      if errMsg ≠ "" then some s else some (s.newConnectionHandler fd noblock noDelay calls)
  | .call u =>
    if s.aborted ∨ ¬ u.connection < s.nextConnection then none else some (s.call u)

def system : System Server ServerAction := ⟨new, step⟩

/-- `connections_` has the connections that were initialised and whose `Finish` has not run, and
every connection was made for a descriptor. -/
structure ServerLaw (s : Server) : Prop where
  connections : s.connections = s.initialised \ s.finishRan
  built : ∀ fd ∈ s.built, 0 ≤ fd

/-- `accept` does not return `EAGAIN`, and the connected handler does not finish the connection it
is called with. -/
def HandlesAccept (s : Server) : ServerAction → Prop
  | .readable .eagain _ _ _ => False
  | .readable (.descriptor _) noblock noDelay calls =>
    initAccepted noblock noDelay = "" → ∀ errMsg, .finish s.nextConnection errMsg ∉ calls
  | .readable (.error _) _ _ _ => True
  | .call _ => True

/-! ## What users do -/

/-- `Finish` has run for the finished connections, which have been made. -/
structure Inv (s : Server) : Prop where
  finished : ∀ c, s.finished c = true → c ∈ s.finishRan
  fresh : ∀ c ∈ s.finishRan, c < s.nextConnection

theorem inv_new : new.Inv where
  finished _ h := by cases h
  fresh _ h := by cases h

/-- A call of a user changes `finishRan` by the connection it finishes, and takes it out of
`connections_`; `A` is what `connections_` would be without `Finish`. -/
structure Called (s t : Server) (ran : Finset ConnectionId) : Prop where
  inv : s.Inv → t.Inv
  nextConnection : t.nextConnection = s.nextConnection
  initialised : t.initialised = s.initialised
  built : t.built = s.built
  finishRan : s.Inv → t.finishRan = s.finishRan ∪ ran
  connections : s.Inv → ∀ A, s.connections = A \ s.finishRan → t.connections = A \ t.finishRan

/-- The connections that the calls finish. -/
def finishes (calls : List UserCall) : List ConnectionId :=
  calls.filterMap fun
    | .finish c _ => some c
    | .reset _ => none

theorem called_finish {s : Server} {c : ConnectionId} {errMsg : String}
    (hc : c < s.nextConnection) : Called s (s.finish c errMsg) {c} := by
  unfold finish
  split
  · next hfin =>
    refine ⟨id, rfl, rfl, rfl, fun h => ?_, fun _ _ => id⟩
    have := h.finished c hfin
    ext x
    simp only [Finset.mem_union, Finset.mem_singleton]
    exact ⟨.inl, fun hx => hx.elim id fun hx => hx ▸ this⟩
  · refine ⟨fun h => ⟨fun x hx => ?_, fun x hx => ?_⟩, rfl, rfl, rfl, fun _ => ?_, ?_⟩
    · simp only [Function.update_apply] at hx
      split at hx
      · next heq => exact heq ▸ Finset.mem_insert_self _ _
      · exact Finset.mem_insert_of_mem (h.finished x hx)
    · rcases Finset.mem_insert.mp hx with rfl | hx
      · exact hc
      · exact h.fresh x hx
    · show insert c s.finishRan = s.finishRan ∪ {c}
      rw [Finset.insert_eq, Finset.union_comm]
    · intro _ A hA
      show s.connections.erase c = A \ insert c s.finishRan
      rw [hA, Finset.sdiff_insert]

theorem called_reset {s : Server} {c : ConnectionId} : Called s (s.reset c) ∅ := by
  refine ⟨fun h => ⟨fun x hx => ?_, h.fresh⟩, rfl, rfl, rfl, fun _ => (Finset.union_empty _).symm,
    fun _ _ => id⟩
  simp only [reset, Function.update_apply] at hx
  split at hx
  · cases hx
  · exact h.finished x hx

theorem called_nil (s : Server) : Called s s ∅ :=
  ⟨id, rfl, rfl, rfl, fun _ => (Finset.union_empty _).symm, fun _ _ => id⟩

theorem Called.trans {s t u : Server} {ran ran' : Finset ConnectionId} (h : Called s t ran)
    (h' : Called t u ran') : Called s u (ran ∪ ran') where
  inv hs := h'.inv (h.inv hs)
  nextConnection := h'.nextConnection.trans h.nextConnection
  initialised := h'.initialised.trans h.initialised
  built := h'.built.trans h.built
  finishRan hs := by rw [h'.finishRan (h.inv hs), h.finishRan hs, Finset.union_assoc]
  connections hs A hA := h'.connections (h.inv hs) A (h.connections hs A hA)

theorem called_call {s : Server} {u : UserCall} (hu : u.connection < s.nextConnection) :
    Called s (s.call u) (finishes [u]).toFinset := by
  cases u with
  | finish c errMsg => exact called_finish hu
  | reset c => exact called_reset

theorem called_calls {s : Server} {calls : List UserCall}
    (hcalls : ∀ u ∈ calls, u.connection < s.nextConnection) :
    Called s (calls.foldl call s) (finishes calls).toFinset := by
  induction calls generalizing s with
  | nil => exact called_nil s
  | cons u calls ih =>
    have hu := called_call (hcalls u List.mem_cons_self)
    have hrest := ih (s := s.call u) fun v hv => by
      rw [hu.nextConnection]
      exact hcalls v (List.mem_cons_of_mem u hv)
    have hran : (finishes (u :: calls)).toFinset =
        (finishes [u]).toFinset ∪ (finishes calls).toFinset := by
      rw [← List.toFinset_append, finishes, finishes, finishes, ← List.filterMap_append]
      rfl
    rw [hran]
    exact hu.trans hrest

/-! ## The step -/

/-- Where a connection has just been made and the connected handler begins. -/
theorem Inv.build {s : Server} (h : s.Inv) (fd : Int) : (s.build fd).Inv := by
  refine ⟨fun c hc => ?_, fun c hc => Nat.lt_succ_of_lt (h.fresh c hc)⟩
  simp only [Server.build, Function.update_apply] at hc
  split at hc
  · cases hc
  · exact h.finished c hc

theorem Inv.emit {s : Server} (h : s.Inv) (c : ServerCall) : (s.emit c).Inv :=
  ⟨h.finished, h.fresh⟩

theorem newConnectionHandler_of_descriptor (s : Server) (fd : Nat) (noblock noDelay : String)
    (calls : List UserCall) :
    s.newConnectionHandler fd noblock noDelay calls =
      let errMsg := initAccepted noblock noDelay
      let built := (s.build fd).emit (.connected errMsg s.nextConnection)
      if errMsg ≠ "" then calls.foldl call built
      else
        let t := calls.foldl call
          { built with initialised := insert s.nextConnection s.initialised }
        { t with connections := insert s.nextConnection t.connections } := by
  have hfd : ¬ ((fd : Int) < 0) := by omega
  simp only [newConnectionHandler, Server.build, hfd, decide_false, Bool.false_eq_true, if_false]
  rfl

theorem mem_finishes {calls : List UserCall} {c : ConnectionId} :
    c ∈ finishes calls ↔ ∃ errMsg, .finish c errMsg ∈ calls := by
  simp only [finishes, List.mem_filterMap]
  constructor
  · rintro ⟨u, hu, hc⟩
    cases u with
    | finish d errMsg => cases hc; exact ⟨errMsg, hu⟩
    | reset d => cases hc
  · rintro ⟨errMsg, hu⟩
    exact ⟨_, hu, rfl⟩

theorem error_ne_empty (strerror : String) : (SysAccept.error strerror).accept.2 ≠ "" := by
  simp [SysAccept.accept]

/-- The connected handler has returned and the connection `c` is inserted: the law holds exactly if
the handler did not finish `c`. -/
theorem Called.insert {b t : Server} {ran A : Finset ConnectionId} {c : ConnectionId}
    (h : Called b t ran) (hb : b.Inv) (hconn : b.connections = A \ b.finishRan)
    (hinit : b.initialised = Insert.insert c A) (hc : c ∉ b.finishRan)
    (hbuilt : ∀ fd ∈ b.built, 0 ≤ fd) :
    ServerLaw { t with connections := Insert.insert c t.connections } ↔ c ∉ ran := by
  have hran : c ∈ t.finishRan ↔ c ∈ ran := by
    rw [h.finishRan hb, Finset.mem_union]
    exact or_iff_right hc
  constructor
  · intro hlaw hmem
    have hin : c ∈ Insert.insert c t.connections := Finset.mem_insert_self _ _
    have hconn' : Insert.insert c t.connections = t.initialised \ t.finishRan := hlaw.connections
    rw [hconn'] at hin
    exact (Finset.mem_sdiff.mp hin).2 (hran.mpr hmem)
  · intro hnot
    refine ⟨?_, ?_⟩
    · show Insert.insert c t.connections = t.initialised \ t.finishRan
      rw [h.connections hb A hconn, h.initialised, hinit,
        Finset.insert_sdiff_of_notMem _ (fun hmem => hnot (hran.mp hmem))]
    · show ∀ fd ∈ t.built, 0 ≤ fd
      rw [h.built]
      exact hbuilt

theorem Inv.newConnectionHandler {s : Server} (h : s.Inv) (fd : Nat) (noblock noDelay : String)
    {calls : List UserCall} (hcalls : ∀ u ∈ calls, u.connection < s.nextConnection + 1) :
    (s.newConnectionHandler fd noblock noDelay calls).Inv := by
  have hb := (h.build fd).emit (.connected (initAccepted noblock noDelay) s.nextConnection)
  rw [newConnectionHandler_of_descriptor]
  dsimp only
  split
  · exact (called_calls (s := (s.build fd).emit _) hcalls).inv hb
  · have hinv := (called_calls (s :=
      { (s.build fd).emit (.connected (initAccepted noblock noDelay) s.nextConnection) with
        initialised := Insert.insert s.nextConnection s.initialised }) hcalls).inv
      ⟨hb.finished, hb.fresh⟩
    exact ⟨hinv.finished, hinv.fresh⟩

/-- A connection is made for the descriptor, and the connected handler returns. -/
theorem serverLaw_descriptor {s : Server} (h : s.Inv) (hlaw : s.ServerLaw) (fd : Nat)
    (noblock noDelay : String) {calls : List UserCall}
    (hcalls : ∀ u ∈ calls, u.connection < s.nextConnection + 1) :
    (s.newConnectionHandler fd noblock noDelay calls).ServerLaw ↔
      s.HandlesAccept (.readable (.descriptor fd) noblock noDelay calls) := by
  have hbuilt : ∀ x ∈ s.built ++ [(fd : Int)], 0 ≤ x := by
    intro x hx
    rcases List.mem_append.mp hx with hx | hx
    · exact hlaw.built x hx
    · rw [List.mem_singleton.mp hx]; exact Int.natCast_nonneg fd
  have hb := (h.build fd).emit (.connected (initAccepted noblock noDelay) s.nextConnection)
  rw [newConnectionHandler_of_descriptor]
  dsimp only
  split
  · -- `InitAccepted` failed: the connection is not inserted, whatever the handler does
    next herr =>
    have hcalled := called_calls
      (s := (s.build fd).emit (.connected (initAccepted noblock noDelay) s.nextConnection)) hcalls
    refine iff_of_true ⟨?_, ?_⟩ fun hok => absurd hok herr
    · rw [hcalled.initialised]
      exact hcalled.connections hb _ hlaw.connections
    · rw [hcalled.built]
      exact hbuilt
  · next herr =>
    have hcalled := called_calls (s :=
      { (s.build fd).emit (.connected (initAccepted noblock noDelay) s.nextConnection) with
        initialised := Insert.insert s.nextConnection s.initialised }) hcalls
    rw [hcalled.insert ⟨hb.finished, hb.fresh⟩ hlaw.connections rfl
      (fun hmem => Nat.lt_irrefl _ (h.fresh _ hmem)) hbuilt]
    simp only [HandlesAccept, List.mem_toFinset, mem_finishes, not_exists, not_not.mp herr,
      forall_const]

theorem Inv.step {s t : Server} {a : ServerAction} (h : s.Inv) (ht : s.step a = some t) :
    t.Inv := by
  cases a with
  | call u =>
    simp only [Server.step] at ht
    split at ht
    · cases ht
    · next hguard =>
      cases ht
      exact (called_call (not_not.mp (not_or.mp hguard).2)).inv h
  | readable r noblock noDelay calls =>
    simp only [Server.step] at ht
    split at ht
    · cases ht
    · next hguard =>
      cases r with
      | descriptor fd =>
        cases ht
        exact h.newConnectionHandler fd noblock noDelay fun u hu =>
          Nat.lt_succ_of_le (not_not.mp (not_or.mp hguard).2 u hu)
      | eagain => cases ht; exact h.build (-1)
      | error strerror =>
        rw [if_pos (error_ne_empty strerror)] at ht
        cases ht
        exact h

/-- One step keeps the law exactly if it meets the condition. -/
theorem serverLaw_step {s t : Server} {a : ServerAction} (h : s.Inv) (hlaw : s.ServerLaw)
    (ht : s.step a = some t) : t.ServerLaw ↔ s.HandlesAccept a := by
  cases a with
  | call u =>
    simp only [Server.step] at ht
    split at ht
    · cases ht
    · next hguard =>
      cases ht
      have hcalled := called_call (s := s) (u := u) (not_not.mp (not_or.mp hguard).2)
      refine iff_of_true ⟨?_, ?_⟩ True.intro
      · rw [hcalled.initialised]
        exact hcalled.connections h _ hlaw.connections
      · rw [hcalled.built]
        exact hlaw.built
  | readable r noblock noDelay calls =>
    simp only [Server.step] at ht
    split at ht
    · cases ht
    · next hguard =>
      cases r with
      | descriptor fd =>
        cases ht
        exact serverLaw_descriptor h hlaw fd noblock noDelay fun u hu =>
          Nat.lt_succ_of_le (not_not.mp (not_or.mp hguard).2 u hu)
      | eagain =>
        -- a connection is made for -1
        cases ht
        refine iff_of_false (fun hlaw' => ?_) id
        have hneg := hlaw'.built (-1) (List.mem_append_right _ (List.mem_singleton_self _))
        exact absurd hneg (by decide)
      | error strerror =>
        rw [if_pos (error_ne_empty strerror)] at ht
        cases ht
        exact iff_of_true hlaw True.intro

/-! ## Every run -/

theorem serverLaw_new : new.ServerLaw := ⟨rfl, fun _ h => by cases h⟩

/-- A run keeps the law in all its states if and only if no `accept` returns `EAGAIN` and no
connected handler finishes the connection that it is called with and that is inserted then. -/
theorem serverLaw_iff (as : List ServerAction) (hrun : (system.run new as).isSome) :
    system.AllStates ServerLaw new as ↔ system.AllSteps HandlesAccept new as :=
  System.allStates_iff_allSteps (L := fun _ => True) serverLaw_new inv_new
    (fun _ _ _ h ht => h.step ht) (fun _ _ _ h hlaw _ ht => serverLaw_step h hlaw ht)
    (fun _ _ => True.intro) hrun

/-- Two connections are accepted, the second fails to initialise, and its handler finishes both. -/
def acceptTwo : List ServerAction :=
  [.readable (.descriptor 5) "" "" [], .readable (.error "aborted") "" "" [],
    .readable (.descriptor 6) "" "call sys setsockopt TCP_NODELAY failed: "
      [.finish 1 "", .finish 0 ""]]

theorem serverLaw_iff_acceptTwo : system.AllStates ServerLaw new acceptTwo ↔
    system.AllSteps HandlesAccept new acceptTwo :=
  serverLaw_iff acceptTwo rfl

/-- A connected handler that finishes its connection leaves it in `connections_` for ever, and
`EAGAIN` makes a connection without a descriptor. -/
theorem serverLaw_fails :
    (∃ s, system.run new [.readable (.descriptor 5) "" "" [.finish 0 "bye"]] = some s ∧
      s.finishRan = {0} ∧ s.connections = {0} ∧ ¬ s.ServerLaw) ∧
    ∃ s, system.run new [.readable .eagain "" "" []] = some s ∧ s.built = [-1] ∧ s.aborted ∧
      ¬ s.ServerLaw :=
  ⟨⟨_, rfl, by decide, by decide, fun h => absurd h.connections (by decide)⟩,
    _, rfl, rfl, rfl, fun h => absurd (h.built (-1) (by decide)) (by decide)⟩

end Server

end Sheep
