import Mathlib.Data.List.Nodup
import Mathlib.Data.List.Perm.Basic
import Sheep.Coroutine.Fairness
import Sheep.Net.Server

/-!
# `CoServer`

`coServer coroNum` is a `CoServer` on the scheduler whose `run` polls its loop: a `Server` with the
connected handler of the constructor, which adds a coroutine that calls the user's
`connectedHandler_`, and the scheduler with these and all other coroutines and threads.

`CoServerLaw`: the server keeps its own law, each connection that is accepted has exactly one call
of `connectedHandler_`, begun or waiting in a slot, with the error of its `InitAccepted`, and none
is waiting when the iteration of `run` that accepted it ends. `coServerLaw_iff`: a run keeps the law
exactly if no `accept` returns `EAGAIN` and a slot is free whenever a connection is accepted. The
constructor does not look at what `addCoroutine` returns; and unlike a handler of `Server`, a
`connectedHandler_` may finish the connection that it is called with, since it is called after
`connections_->insert`.
-/

namespace Sheep

/-- The arguments of a call of `connectedHandler_`. -/
abbrev ConnectedArgs := String × ConnectionId

structure CoServer where
  server : Server
  sched : Scheduler
  /-- what `func_` of a slot calls `connectedHandler_` with, if the server has set it -/
  func : Nat → Option ConnectedArgs
  /-- the calls of `connectedHandler_`, as the coroutines begin them -/
  handled : List ConnectedArgs

inductive CoServerAction
  /-- a step of `run`, of a coroutine or of another thread -/
  | sched (a : SchedulerAction)
  /-- a readable event of the listening socket -/
  | readable (r : SysAccept) (noblock noDelay : String)
  /-- a call of the loop, or of a user through its `CoTcpConnection` -/
  | call (u : UserCall)
  deriving DecidableEq, Repr

/-- The calls of the connected handler of a `Server`. -/
def connectedCalls (log : List ServerCall) : List ConnectedArgs :=
  log.filterMap fun
    | .connected errMsg c => some (errMsg, c)
    | .disconnected _ => none

namespace CoServer

def init (coroNum : Nat) : CoServer := ⟨.new, .init coroNum, fun _ => none, []⟩

/-- `addCoroutine`; its result is not looked at. -/
def addCoroutine (s : CoServer) (func : Option ConnectedArgs) : CoServer :=
  match s.sched.freeList with
  | [] => s
  | info :: _ => { s with sched := s.sched.addCoroutine, func := Function.update s.func info func }

/-- The two handlers that the constructor sets. The second one only logs. -/
def handle (s : CoServer) : ServerCall → CoServer
  | .connected errMsg c => s.addCoroutine (some (errMsg, c))
  | .disconnected _ => s

/-- A step of the server, with the calls of its handlers. -/
def serve (s : CoServer) (a : ServerAction) : Option CoServer :=
  (s.server.step a).map fun server =>
    (server.log.drop s.server.log.length).foldl handle { s with server := server }

/-- The call of `connectedHandler_` that a slot begins with when it is switched to. -/
def pending (s : CoServer) (c : Nat) : Option ConnectedArgs :=
  if s.sched.status c = .ready then s.func c else none

/-- The calls of `connectedHandler_` that are to come. -/
def waiting (coroNum : Nat) (s : CoServer) : List ConnectedArgs :=
  (List.range coroNum).filterMap s.pending

def schedStep (coroNum : Nat) (s : CoServer) : SchedulerAction → Option CoServer
  | .addCoroutine => some (s.addCoroutine none)
  | .next =>
    (s.sched.stepAny coroNum .next).map fun sched =>
      { s with sched := sched, handled := s.handled ++ (s.sched.nextCoro.bind s.pending).toList }
  | a => (s.sched.stepAny coroNum a).map fun sched => { s with sched := sched }

def step (coroNum : Nat) (s : CoServer) : CoServerAction → Option CoServer
  | .sched a => if s.server.aborted then none else s.schedStep coroNum a
  | .readable r noblock noDelay =>
    -- `runOnce` is called at the start of an iteration
    if s.sched.pc = .wakeUpSleep then s.serve (.readable r noblock noDelay []) else none
  | .call u => s.serve (.call u)

end CoServer

def coServer (coroNum : Nat) : System CoServer CoServerAction :=
  ⟨.init coroNum, CoServer.step coroNum⟩

structure CoServerLaw (coroNum : Nat) (s : CoServer) : Prop where
  server : s.server.ServerLaw
  /-- the connections in the order in which they are accepted -/
  accepted : (connectedCalls s.server.log).map Prod.snd = List.range s.server.nextConnection
  once : (s.handled ++ s.waiting coroNum).Perm (connectedCalls s.server.log)
  /-- the coroutines of the connections have begun when an iteration ends -/
  begun : s.sched.pc = .yielding [] → s.waiting coroNum = []

/-- `accept` does not return `EAGAIN`, and a slot is free for the connection. -/
def HasSlot (s : CoServer) : CoServerAction → Prop
  | .readable .eagain _ _ => False
  | .readable (.descriptor _) _ _ => s.sched.freeList ≠ []
  | .readable (.error _) _ _ | .sched _ | .call _ => True

/-! ## The slots of a scheduler -/

/-- A slot of the free list is free, and only slots below `coroNum` are used. -/
structure SlotsInv (coroNum : Nat) (s : Scheduler) : Prop where
  free : ∀ c ∈ s.freeList, s.status c = .free ∧ c < coroNum
  live : ∀ c, s.status c ≠ .free → c < coroNum
  current : ∀ c, s.currentCoro = some c → s.status c = .running

namespace SlotsInv

open Scheduler

variable {coroNum : Nat} {s t : Scheduler} {c : Nat}

theorem init (coroNum : Nat) : SlotsInv coroNum (.init coroNum) := by
  refine ⟨fun c hc => ⟨rfl, ?_⟩, fun c hc => absurd rfl hc, nofun⟩
  simpa [Scheduler.init] using hc

theorem update {st : CoroStatus} (h : SlotsInv coroNum s) (hc : c < coroNum) (d : Nat) :
    Function.update s.status c st d ≠ .free → d < coroNum := by
  intro hd
  rcases eq_or_ne d c with rfl | hdc
  · exact hc
  · exact h.live d (by rwa [Function.update_of_ne hdc] at hd)

theorem leaves {a : SchedulerAction} {st : CoroStatus} (h : SlotsInv coroNum s)
    (hl : s.Leaves a c st t) : SlotsInv coroNum t := by
  have hc : c < coroNum := h.live c (by rw [h.current c hl.running]; nofun)
  refine ⟨?_, hl.status ▸ h.update hc, fun d hd => absurd (hl.current.symm.trans hd) nofun⟩
  rw [hl.status]
  rcases hl.freeList with hlist | ⟨hlist, ha⟩ <;> intro d hd <;> rw [hlist] at hd
  · obtain ⟨hd, hdc⟩ := List.mem_filter.mp hd
    rw [Function.update_of_ne (of_decide_eq_true hdc)]
    exact h.free d hd
  · rcases mem_linked (P := True) True.intro hd with ⟨hd, hdc⟩ | ⟨rfl, -⟩
    · rw [Function.update_of_ne hdc]
      exact h.free d hd
    · rw [Function.update_self]
      exact ⟨hl.free.mpr ha, hc⟩

theorem addCoroutine (h : SlotsInv coroNum s) : SlotsInv coroNum s.addCoroutine := by
  unfold Scheduler.addCoroutine
  split
  next => exact h
  next info freeList hlist =>
    have hinfo := h.free info (hlist ▸ List.mem_cons_self)
    refine ⟨fun d hd => ?_, h.update hinfo.2, fun d hd => ?_⟩
    · obtain ⟨hd, hdi⟩ := List.mem_filter.mp hd
      exact ⟨(Function.update_of_ne (of_decide_eq_true hdi) ..).trans (h.free d hd).1,
        (h.free d hd).2⟩
    · have hrun := h.current d hd
      have hdi : d ≠ info := by
        rintro rfl
        rw [hinfo.1] at hrun
        cases hrun
      exact (Function.update_of_ne hdi ..).trans hrun

/-- `run` does not get past a switch to a free slot. -/
theorem live_of_nextCoro (ht : s.stepAny coroNum .next = some t) (hc : s.nextCoro = some c) :
    s.status c ≠ .free := by
  simp only [stepAny, Scheduler.step, Option.ite_none_right_eq_some] at ht
  replace ht := ht.2
  have switched (pc : RunPc) (hrest : s.pc.rest = c :: pc.rest)
      (ht : { s with pc := pc }.switchTo c = some t) : s.status c ≠ .free :=
    (Option.ite_none_left_eq_some.mp ht).1
  unfold nextCoro at hc
  unfold Scheduler.next at ht
  split at ht
  next hpc => rw [hpc] at hc; cases hc
  next hpc => rw [hpc] at hc; cases hc
  next hpc => rw [hpc] at hc; cases hc
  next d rest hpc =>
    rw [hpc] at hc
    cases hc
    exact switched (.resuming rest) (by rw [hpc]; rfl) ht
  next hpc => rw [hpc] at hc; cases hc
  next d rest hpc =>
    rw [hpc] at hc
    cases hc
    exact switched (.yielding rest) (by rw [hpc]; rfl) ht

theorem next (h : SlotsInv coroNum s) (ht : s.stepAny coroNum .next = some t) :
    SlotsInv coroNum t := by
  have hlive {c : Nat} := live_of_nextCoro (c := c) ht
  obtain ⟨hcur, hnext⟩ := nextStep ht
  cases hnext with
  | wakeUpSleep hpc | resumed hpc | ended hpc => exact ⟨h.free, h.live, h.current⟩
  | drain hpc =>
    refine ⟨fun c hc => ?_, fun c hc => h.live c ?_, fun c hc => ?_⟩
    · rw [show s.drain.status c = s.status c from congrFun s.drain_status c]
      exact h.free c (mem_of_mem_drain_freeList hc)
    · rwa [← s.drain_status]
    · exact absurd (s.drain_currentCoro.symm.trans hc) (by rw [hcur]; nofun)
  | switched d pc hrest hpart hdrain =>
    have hd : s.status d ≠ .free := hlive (by rw [nextCoro, hrest]; rfl)
    refine ⟨fun c hc => ?_, h.update (h.live d hd), fun c hc => ?_⟩
    · have hcd : c ≠ d := by
        rintro rfl
        exact hd (h.free c hc).1
      exact ⟨(Function.update_of_ne hcd ..).trans (h.free c hc).1, (h.free c hc).2⟩
    · cases hc
      exact Function.update_self ..

theorem step {a : SchedulerAction} (h : SlotsInv coroNum s) (ht : s.stepAny coroNum a = some t) :
    SlotsInv coroNum t := by
  cases a with
  | clock now => cases ht; exact ⟨h.free, h.live, h.current⟩
  | next => exact h.next ht
  | yield | suspend | sleep ms | finish =>
    obtain ⟨c, st, hl⟩ := leaves_of_stepAny rfl ht
    exact h.leaves hl
  | addCoroutine => cases ht; exact h.addCoroutine
  | resume c =>
    simp only [stepAny, Option.ite_none_right_eq_some, Option.some.injEq] at ht
    obtain ⟨-, rfl⟩ := ht
    exact ⟨h.free, h.live, h.current⟩

/-- Only `addCoroutine` and a switch of `run` change which slots are ready. -/
theorem ready_iff {a : SchedulerAction} (h : SlotsInv coroNum s) (hnext : a ≠ .next)
    (hadd : a ≠ .addCoroutine) (ht : s.stepAny coroNum a = some t) (c : Nat) :
    t.status c = .ready ↔ s.status c = .ready := by
  have left {d : Nat} {st : CoroStatus} (hd : s.currentCoro = some d) (hst : st ≠ .ready) :
      Function.update s.status d st c = .ready ↔ s.status c = .ready := by
    rcases eq_or_ne c d with rfl | hcd
    · rw [Function.update_self, h.current c hd]
      exact iff_of_false hst nofun
    · rw [Function.update_of_ne hcd]
  cases a with
  | clock now => cases ht; rfl
  | next => exact absurd rfl hnext
  | yield | suspend | finish | sleep ms =>
    obtain ⟨d, hd, rfl⟩ := Option.map_eq_some_iff.mp ht
    exact left hd nofun
  | addCoroutine => exact absurd rfl hadd
  | resume d =>
    simp only [stepAny, Option.ite_none_right_eq_some, Option.some.injEq] at ht
    obtain ⟨-, rfl⟩ := ht
    rfl

end SlotsInv

/-! ## Until its first switch -/

/-- The slot `c` is switched to before the iteration that polls next. -/
def Begins (c : Nat) (s : Scheduler) : Prop :=
  (s.pc = .wakeUpSleep ∧ c ∈ s.yieldList ∧ s.currentCoro ≠ some c) ∨ InRound c s

namespace Begins

open Scheduler

variable {coroNum c : Nat} {s t : Scheduler}

theorem aside {a : SchedulerAction} (h : Begins c s) (ha : a ≠ .next)
    (ht : s.stepAny coroNum a = some t) : Begins c t := by
  have hkeep := KeepsRequests.of_step (c := c) ha ht
  rcases h with ⟨hpc, hyield, hcur⟩ | hround
  · exact .inl ⟨hkeep.pc.trans hpc, hkeep.yield hyield hcur⟩
  · exact .inr (hround.aside hkeep)

theorem next (h : Begins c s) (ht : s.stepAny coroNum .next = some t) (hc : s.nextCoro ≠ some c) :
    Begins c t := by
  rcases h with ⟨hpc, hyield, hcur⟩ | hround
  · obtain ⟨hnone, hnext⟩ := nextStep ht
    cases hnext with
    | wakeUpSleep hpc' =>
      exact .inr (.inr (.inr ⟨rfl, hyield, hcur⟩))
    | drain hpc' | resumed hpc' | ended hpc' => rw [hpc] at hpc'; cases hpc'
    | switched d pc hrest hpart hdrain => rw [hpc] at hrest; cases hrest
  · exact .inr (hround.next ht fun hE => hc hE.2)

theorem pc_ne (h : Begins c s) : s.pc ≠ .yielding [] := by
  intro hpc
  rw [Begins, InRound, hpc] at h
  rcases h with ⟨hpc, -⟩ | hrest | ⟨hpc, -⟩ | ⟨hpart, -⟩
  · cases hpc
  · exact List.not_mem_nil hrest
  · cases hpc
  · cases hpart

end Begins

/-! ## The handlers of the server -/

/-- What a step of the server adds to the calls of its handlers. -/
theorem connectedCalls_append (log calls : List ServerCall) :
    connectedCalls (log ++ calls) = connectedCalls log ++ connectedCalls calls :=
  List.filterMap_append

theorem Server.newConnectionHandler_log (s : Server) (fd : Nat) (noblock noDelay : String) :
    (s.newConnectionHandler fd noblock noDelay []).log =
        s.log ++ [.connected (initAccepted noblock noDelay) s.nextConnection] ∧
      (s.newConnectionHandler fd noblock noDelay []).nextConnection = s.nextConnection + 1 := by
  rw [newConnectionHandler_of_descriptor]
  dsimp only
  split <;> exact ⟨rfl, rfl⟩

/-- A call of a user brings no connection. -/
theorem Server.call_log (s : Server) (u : UserCall) :
    (∃ calls, (s.call u).log = s.log ++ calls ∧ ∀ c ∈ calls, ∃ errMsg, c = .disconnected errMsg) ∧
      (s.call u).nextConnection = s.nextConnection := by
  cases u with
  | finish c errMsg =>
    unfold Server.call Server.finish
    dsimp only
    split
    · exact ⟨⟨[], (List.append_nil _).symm, nofun⟩, rfl⟩
    · exact ⟨⟨[.disconnected errMsg], rfl, fun c hc => ⟨errMsg, List.mem_singleton.mp hc⟩⟩, rfl⟩
  | reset c => exact ⟨⟨[], (List.append_nil _).symm, nofun⟩, rfl⟩

theorem foldl_disconnected {calls : List ServerCall}
    (h : ∀ c ∈ calls, ∃ errMsg, c = .disconnected errMsg) (s : CoServer) :
    calls.foldl CoServer.handle s = s ∧ connectedCalls calls = [] := by
  induction calls with
  | nil => exact ⟨rfl, rfl⟩
  | cons c calls ih =>
    obtain ⟨errMsg, rfl⟩ := h c List.mem_cons_self
    exact ih fun d hd => h d (List.mem_cons_of_mem _ hd)

/-- The step of the server brings no connection. -/
structure ServesNone (s t : CoServer) (a : ServerAction) : Prop where
  server : s.server.step a = some t.server
  rest : t = { s with server := t.server }
  calls : connectedCalls t.server.log = connectedCalls s.server.log
  nextConnection : t.server.nextConnection = s.server.nextConnection

/-- The step of the server accepts a connection and calls the connected handler. -/
structure ServesOne (s t : CoServer) (a : ServerAction) (errMsg : String) : Prop where
  server : s.server.step a = some t.server
  rest : t = { s with server := t.server }.addCoroutine (some (errMsg, s.server.nextConnection))
  calls : connectedCalls t.server.log =
    connectedCalls s.server.log ++ [(errMsg, s.server.nextConnection)]
  nextConnection : t.server.nextConnection = s.server.nextConnection + 1

namespace CoServer

variable {coroNum : Nat} {s t : CoServer}

theorem addCoroutine_server (s : CoServer) (func : Option ConnectedArgs) :
    (s.addCoroutine func).server = s.server := by
  unfold addCoroutine
  split <;> rfl

theorem servesNone_of_call {u : UserCall} (ht : s.serve (.call u) = some t) :
    ServesNone s t (.call u) := by
  obtain ⟨server, hserver, rfl⟩ := Option.map_eq_some_iff.mp ht
  have hserver' := hserver
  simp only [Server.step] at hserver'
  split at hserver'
  · cases hserver'
  · cases hserver'
    obtain ⟨⟨calls, hlog, hcalls⟩, hnum⟩ := s.server.call_log u
    rw [hlog, List.drop_left, (foldl_disconnected hcalls _).1]
    refine ⟨hserver, rfl, ?_, hnum⟩
    show connectedCalls (s.server.call u).log = _
    rw [hlog, connectedCalls_append, (foldl_disconnected hcalls s).2, List.append_nil]

theorem servesNone_of_error {strerror noblock noDelay : String}
    (ht : s.serve (.readable (.error strerror) noblock noDelay []) = some t) :
    ServesNone s t (.readable (.error strerror) noblock noDelay []) := by
  obtain ⟨server, hserver, rfl⟩ := Option.map_eq_some_iff.mp ht
  have hserver' := hserver
  simp only [Server.step] at hserver'
  split at hserver'
  · cases hserver'
  · rw [if_pos (Server.error_ne_empty strerror)] at hserver'
    cases hserver'
    rw [List.drop_length]
    exact ⟨hserver, rfl, rfl, rfl⟩

theorem servesOne {fd : Nat} {noblock noDelay : String}
    (ht : s.serve (.readable (.descriptor fd) noblock noDelay []) = some t) :
    ServesOne s t (.readable (.descriptor fd) noblock noDelay [])
      (Server.initAccepted noblock noDelay) := by
  obtain ⟨server, hserver, rfl⟩ := Option.map_eq_some_iff.mp ht
  have hserver' := hserver
  simp only [Server.step] at hserver'
  split at hserver'
  · cases hserver'
  · cases hserver'
    obtain ⟨hlog, hnum⟩ := s.server.newConnectionHandler_log fd noblock noDelay
    rw [show (SysAccept.descriptor fd).accept.1 = (fd : Int) from rfl, hlog, List.drop_left]
    have hkeep := addCoroutine_server
      { s with server := s.server.newConnectionHandler fd noblock noDelay [] }
      (some (Server.initAccepted noblock noDelay, s.server.nextConnection))
    refine ⟨hserver.trans (congrArg some hkeep.symm), ?_, ?_, ?_⟩
    · show _ = addCoroutine { s with server := (addCoroutine _ _).server } _
      rw [hkeep]
      rfl
    · show connectedCalls (addCoroutine _ _).server.log = _
      rw [hkeep, hlog, connectedCalls_append]
      rfl
    · show (addCoroutine _ _).server.nextConnection = _
      rw [hkeep, hnum]

/-! ## The calls that are to come -/

theorem pending_of_status {c : Nat} (hc : s.sched.status c ≠ .ready) : s.pending c = none :=
  if_neg hc

theorem pending_congr {c : Nat} (hfunc : t.func = s.func)
    (hready : t.sched.status c = .ready ↔ s.sched.status c = .ready) :
    t.pending c = s.pending c := by
  unfold pending
  rw [hfunc]
  exact ite_congr (propext hready) (fun _ => rfl) fun _ => rfl

theorem addCoroutine_of_cons {info : Nat} {freeList : List Nat} (func : Option ConnectedArgs)
    (hlist : s.sched.freeList = info :: freeList) :
    s.addCoroutine func =
      { s with sched := s.sched.addCoroutine, func := Function.update s.func info func } := by
  simp only [addCoroutine, hlist]

theorem pending_addCoroutine {info : Nat} {freeList : List Nat} (func : Option ConnectedArgs)
    (hlist : s.sched.freeList = info :: freeList) (c : Nat) :
    (s.addCoroutine func).pending c = if c = info then func else s.pending c := by
  have hstatus : s.sched.addCoroutine.status = Function.update s.sched.status info .ready := by
    simp only [Scheduler.addCoroutine, hlist]
    rfl
  rw [addCoroutine_of_cons func hlist]
  simp only [pending, hstatus]
  rcases eq_or_ne c info with rfl | hc
  · rw [if_pos rfl, Function.update_self, if_pos rfl, Function.update_self]
  · simp only [Function.update_of_ne hc, if_neg hc]

/-- Two lists of calls that differ in one slot. -/
theorem filterMap_perm {α : Type} {f g : Nat → Option α} {l : List Nat} {c : Nat} (hl : l.Nodup)
    (hc : c ∈ l) (h : ∀ d, d ≠ c → f d = g d) :
    (l.filterMap f ++ (g c).toList).Perm (l.filterMap g ++ (f c).toList) := by
  have hout (k : Nat → Option α) :
      (l.filterMap k).Perm ((k c).toList ++ (l.erase c).filterMap k) := by
    have hperm := (List.perm_cons_erase hc).filterMap k
    cases hk : k c <;> simpa [List.filterMap_cons, hk] using hperm
  have hrest : (l.erase c).filterMap f = (l.erase c).filterMap g :=
    List.filterMap_congr fun d hd => h d ((hl.mem_erase_iff).mp hd).1
  calc (l.filterMap f ++ (g c).toList).Perm
        ((f c).toList ++ (l.erase c).filterMap f ++ (g c).toList) := (hout f).append_right _
    _ = (f c).toList ++ ((l.erase c).filterMap g ++ (g c).toList) := by
        rw [hrest, List.append_assoc]
    List.Perm _ ((f c).toList ++ ((g c).toList ++ (l.erase c).filterMap g)) :=
        List.perm_append_comm.append_left _
    List.Perm _ ((f c).toList ++ l.filterMap g) := (hout g).symm.append_left _
    List.Perm _ (l.filterMap g ++ (f c).toList) := List.perm_append_comm

theorem waiting_perm {c : Nat} (hc : c < coroNum) (h : ∀ d, d ≠ c → t.pending d = s.pending d) :
    (t.waiting coroNum ++ (s.pending c).toList).Perm
      (s.waiting coroNum ++ (t.pending c).toList) :=
  filterMap_perm List.nodup_range (List.mem_range.mpr hc) h

theorem waiting_congr (h : ∀ d, t.pending d = s.pending d) :
    t.waiting coroNum = s.waiting coroNum :=
  List.filterMap_congr fun d _ => h d

end CoServer

/-! ## The invariant -/

structure CoServerInv (coroNum : Nat) (s : CoServer) : Prop where
  law : s.server.ServerLaw
  accepted : (connectedCalls s.server.log).map Prod.snd = List.range s.server.nextConnection
  once : (s.handled ++ s.waiting coroNum).Perm (connectedCalls s.server.log)
  server : s.server.Inv
  slots : SlotsInv coroNum s.sched
  begins : ∀ c, s.pending c ≠ none → Begins c s.sched

namespace CoServerInv

open CoServer

variable {coroNum : Nat} {s t : CoServer}

theorem init (coroNum : Nat) : CoServerInv coroNum (.init coroNum) where
  law := Server.serverLaw_new
  accepted := rfl
  once := by
    rw [show (CoServer.init coroNum).waiting coroNum = [] from
      List.filterMap_eq_nil_iff.mpr fun c _ => rfl]
    exact .nil
  server := Server.inv_new
  slots := .init coroNum
  begins c hc := absurd rfl hc

theorem coServerLaw (h : CoServerInv coroNum s) : CoServerLaw coroNum s := by
  refine ⟨h.law, h.accepted, h.once, fun hpc => List.filterMap_eq_nil_iff.mpr fun c _ => ?_⟩
  by_contra hc
  exact (h.begins c hc).pc_ne hpc

/-- A step that takes neither a call from a slot nor puts one there. -/
theorem aside (h : CoServerInv coroNum s) (hserver : t.server = s.server)
    (hhandled : t.handled = s.handled) (hpending : ∀ c, t.pending c = s.pending c)
    (hslots : SlotsInv coroNum t.sched)
    (hbegins : ∀ c, s.pending c ≠ none → Begins c t.sched) : CoServerInv coroNum t where
  law := hserver ▸ h.law
  accepted := hserver ▸ h.accepted
  once := by
    rw [hserver, hhandled, waiting_congr hpending]
    exact h.once
  server := hserver ▸ h.server
  slots := hslots
  begins c hc := hbegins c (hpending c ▸ hc)

theorem addCoroutine (h : CoServerInv coroNum s) : CoServerInv coroNum (s.addCoroutine none) := by
  cases hlist : s.sched.freeList with
  | nil => simpa only [CoServer.addCoroutine, hlist] using h
  | cons info freeList =>
    have hinfo : s.pending info = none := pending_of_status (by
      rw [(h.slots.free info (hlist ▸ List.mem_cons_self)).1]
      nofun)
    refine h.aside (addCoroutine_server ..) ?_ (fun c => ?_) ?_ fun c hc => ?_
    · rw [addCoroutine_of_cons none hlist]
    · rw [pending_addCoroutine none hlist]
      split
      next hc => rw [hc, hinfo]
      next => rfl
    · rw [addCoroutine_of_cons none hlist]
      exact h.slots.addCoroutine
    · rw [addCoroutine_of_cons none hlist]
      have hadd : s.sched.stepAny coroNum .addCoroutine = some s.sched.addCoroutine := rfl
      exact (h.begins c hc).aside (by decide : SchedulerAction.addCoroutine ≠ .next) hadd

/-- A step of `run`; the coroutine that it switches to may begin its call. -/
theorem next (h : CoServerInv coroNum s) (ht : s.schedStep coroNum .next = some t) :
    CoServerInv coroNum t := by
  obtain ⟨sched, hsched, rfl⟩ := Option.map_eq_some_iff.mp ht
  have hslots := h.slots.next hsched
  cases hnext : s.sched.nextCoro with
  | none =>
    have hstatus : sched.status = s.sched.status := by
      obtain ⟨-, hstep⟩ := Scheduler.nextStep hsched
      cases hstep with
      | wakeUpSleep hpc | resumed hpc | ended hpc => rfl
      | drain hpc => exact s.sched.drain_status
      | switched d pc hrest hpart hdrain => rw [Scheduler.nextCoro, hrest] at hnext; cases hnext
    refine h.aside rfl (List.append_nil _) (fun c => pending_congr rfl (by rw [hstatus])) hslots
      fun c hc => (h.begins c hc).next hsched (by rw [hnext]; exact (Option.some_ne_none c).symm)
  | some c =>
    have hc : c < coroNum := h.slots.live c (SlotsInv.live_of_nextCoro hsched hnext)
    have hstatus : sched.status = Function.update s.sched.status c .running := by
      obtain ⟨-, hstep⟩ := Scheduler.nextStep hsched
      cases hstep with
      | wakeUpSleep hpc | resumed hpc | ended hpc | drain hpc =>
        rw [Scheduler.nextCoro, hpc] at hnext
        cases hnext
      | switched d pc hrest hpart hdrain =>
        rw [Scheduler.nextCoro, hrest] at hnext
        cases hnext
        rfl
    have hrunning : sched.status c = .running := by rw [hstatus, Function.update_self]
    let u : CoServer := { s with
      sched := sched, handled := s.handled ++ ((some c).bind s.pending).toList }
    have hpending : u.pending c = none := pending_of_status (by rw [hrunning]; decide)
    have hothers : ∀ d, d ≠ c → u.pending d = s.pending d := fun d hd =>
      pending_congr rfl (by rw [hstatus, Function.update_of_ne hd])
    have hperm := waiting_perm hc hothers
    rw [hpending, Option.toList_none, List.append_nil] at hperm
    refine ⟨h.law, h.accepted, ?_, h.server, hslots, fun d hd => ?_⟩
    · have hmove : (u.handled ++ u.waiting coroNum).Perm
          (s.handled ++ (u.waiting coroNum ++ (s.pending c).toList)) := by
        rw [List.append_assoc]
        exact List.perm_append_comm.append_left _
      exact hmove.trans ((hperm.append_left _).trans h.once)
    · have hdc : d ≠ c := by
        rintro rfl
        exact hd hpending
      refine (h.begins d (hothers d hdc ▸ hd)).next hsched ?_
      rw [hnext]
      exact fun hcd => hdc (Option.some.inj hcd).symm

theorem schedStep {a : SchedulerAction} (h : CoServerInv coroNum s)
    (ht : s.schedStep coroNum a = some t) : CoServerInv coroNum t := by
  have other (hnext : a ≠ .next) (hadd : a ≠ .addCoroutine) {sched : Scheduler}
      (hsched : s.sched.stepAny coroNum a = some sched) :
      CoServerInv coroNum { s with sched := sched } :=
    h.aside rfl rfl (fun c => pending_congr rfl (h.slots.ready_iff hnext hadd hsched c))
      (h.slots.step hsched) fun c hc => (h.begins c hc).aside hnext hsched
  cases a with
  | next => exact h.next ht
  | addCoroutine =>
    cases ht
    exact h.addCoroutine
  | clock now | yield | suspend | sleep ms | finish | resume c =>
    simp only [CoServer.schedStep] at ht
    obtain ⟨sched, hsched, rfl⟩ := Option.map_eq_some_iff.mp ht
    exact other nofun nofun hsched

theorem servesNone {a : ServerAction} (h : CoServerInv coroNum s) (ht : ServesNone s t a)
    (ha : s.server.HandlesAccept a) : CoServerInv coroNum t where
  law := (Server.serverLaw_step h.server h.law ht.server).mpr ha
  accepted := by
    rw [ht.calls, ht.nextConnection]
    exact h.accepted
  once := by
    rw [ht.calls, ht.rest]
    exact h.once
  server := h.server.step ht.server
  slots := by
    rw [ht.rest]
    exact h.slots
  begins := by
    rw [ht.rest]
    exact h.begins

/-- The connection that is accepted goes to a free slot, and its coroutine begins in this
iteration. -/
theorem servesOne {a : ServerAction} {errMsg : String} (h : CoServerInv coroNum s)
    (ht : ServesOne s t a errMsg) (ha : s.server.HandlesAccept a)
    (hpc : s.sched.pc = .wakeUpSleep) (hslot : s.sched.freeList ≠ []) : CoServerInv coroNum t := by
  obtain ⟨info, freeList, hlist⟩ := List.exists_cons_of_ne_nil hslot
  obtain ⟨hfree, hinfo⟩ := h.slots.free info (hlist ▸ List.mem_cons_self)
  have hnone : s.pending info = none := pending_of_status (by rw [hfree]; nofun)
  have hrest := ht.rest
  rw [addCoroutine_of_cons (s := { s with server := t.server }) _ hlist] at hrest
  have hpending (c : Nat) : t.pending c =
      if c = info then some (errMsg, s.server.nextConnection) else s.pending c := by
    rw [ht.rest]
    exact pending_addCoroutine (s := { s with server := t.server }) _ hlist c
  refine ⟨(Server.serverLaw_step h.server h.law ht.server).mpr ha, ?_, ?_, h.server.step ht.server,
    ?_, fun c hc => ?_⟩
  · rw [ht.calls, ht.nextConnection, List.range_succ, List.map_append, h.accepted]
    rfl
  · have hperm := waiting_perm (s := s) (t := t) hinfo fun d hd => by rw [hpending, if_neg hd]
    rw [hnone, hpending, if_pos rfl, Option.toList_none, List.append_nil] at hperm
    rw [ht.calls, show t.handled = s.handled by rw [hrest]]
    calc (s.handled ++ t.waiting coroNum).Perm
          (s.handled ++ (s.waiting coroNum ++ [(errMsg, s.server.nextConnection)])) :=
        hperm.append_left _
      _ = s.handled ++ s.waiting coroNum ++ [(errMsg, s.server.nextConnection)] :=
        (List.append_assoc ..).symm
      List.Perm _ (connectedCalls s.server.log ++ [(errMsg, s.server.nextConnection)]) :=
        h.once.append_right _
  · rw [hrest]
    exact h.slots.addCoroutine
  · have hsched : t.sched = s.sched.addCoroutine := by rw [hrest]
    rw [hsched]
    rcases eq_or_ne c info with rfl | hci
    · refine .inl ?_
      simp only [Scheduler.addCoroutine, hlist]
      refine ⟨hpc, List.mem_cons_self, fun hcur => ?_⟩
      have hrun := h.slots.current c hcur
      rw [hfree] at hrun
      cases hrun
    · rw [hpending, if_neg hci] at hc
      have hadd : s.sched.stepAny coroNum .addCoroutine = some s.sched.addCoroutine := rfl
      exact (h.begins c hc).aside (by decide : SchedulerAction.addCoroutine ≠ .next) hadd

theorem handlesAccept_nil {server : Server} {fd : Nat} {noblock noDelay : String} :
    server.HandlesAccept (.readable (.descriptor fd) noblock noDelay []) := fun _ _ => nofun

theorem step {a : CoServerAction} (h : CoServerInv coroNum s) (ha : HasSlot s a)
    (ht : s.step coroNum a = some t) : CoServerInv coroNum t := by
  cases a with
  | sched a =>
    simp only [CoServer.step, Option.ite_none_left_eq_some] at ht
    exact h.schedStep ht.2
  | call u => exact h.servesNone (servesNone_of_call ht) True.intro
  | readable r noblock noDelay =>
    simp only [CoServer.step, Option.ite_none_right_eq_some] at ht
    cases r with
    | descriptor fd =>
      exact h.servesOne (CoServer.servesOne ht.2) handlesAccept_nil ht.1 ha
    | eagain => exact absurd ha id
    | error strerror => exact h.servesNone (servesNone_of_error ht.2) True.intro

/-- Without a slot there is a connection that no coroutine calls the handler with. -/
theorem not_law {a : CoServerAction} (h : CoServerInv coroNum s) (ha : ¬ HasSlot s a)
    (ht : s.step coroNum a = some t) : ¬ CoServerLaw coroNum t := by
  cases a with
  | sched a => exact absurd True.intro ha
  | call u => exact absurd True.intro ha
  | readable r noblock noDelay =>
    simp only [CoServer.step, Option.ite_none_right_eq_some] at ht
    cases r with
    | descriptor fd =>
      intro hlaw
      have hserves := CoServer.servesOne ht.2
      have hlist : s.sched.freeList = [] := not_not.mp ha
      have hrest := hserves.rest
      simp only [CoServer.addCoroutine, hlist] at hrest
      have hsame : t.handled ++ t.waiting coroNum = s.handled ++ s.waiting coroNum := by
        rw [hrest]
        rfl
      have hlen := hlaw.once.length_eq
      rw [hsame, h.once.length_eq, hserves.calls, List.length_append, List.length_singleton] at hlen
      exact absurd hlen (Nat.ne_of_lt (Nat.lt_succ_self _))
    | eagain =>
      intro hlaw
      obtain ⟨server, hserver, rfl⟩ := Option.map_eq_some_iff.mp ht.2
      have hlog : server.log = s.server.log := by
        simp only [Server.step] at hserver
        split at hserver
        · cases hserver
        · cases hserver
          rfl
      have hsame := hlaw.server
      rw [hlog, List.drop_length] at hsame
      exact (Server.serverLaw_step h.server h.law hserver).mp hsame
    | error strerror => exact absurd True.intro ha

end CoServerInv

/-! ## Every run -/

/-- A run keeps the law exactly if no `accept` returns `EAGAIN` and a slot is free for every
connection that is accepted. -/
theorem coServerLaw_iff (coroNum : Nat) (as : List CoServerAction)
    (hrun : ((coServer coroNum).run (coServer coroNum).init as).isSome) :
    (coServer coroNum).AllStates (CoServerLaw coroNum) (coServer coroNum).init as ↔
      (coServer coroNum).AllSteps HasSlot (coServer coroNum).init as :=
  System.allStates_iff_of_invariant (I := CoServerInv coroNum) (.init coroNum)
    (fun _ h => h.coServerLaw) (fun _ _ _ h ha ht => h.step ha ht)
    (fun _ _ _ h ha ht => h.not_law ha ht) hrun

/-- Two connections are accepted; the handler of the first one, which failed to initialise, finishes
it, and the handler of the second one suspends. -/
def serveTwo : List CoServerAction :=
  [.readable (.descriptor 5) "" "call sys setsockopt TCP_NODELAY failed: ",
    .readable (.descriptor 6) "" "", .sched .next, .sched .next, .sched .next, .sched .next,
    .sched .suspend, .sched .next, .call (.finish 0 ""), .sched .finish, .sched .next]

theorem coServerLaw_iff_serveTwo :
    (coServer 2).AllStates (CoServerLaw 2) (coServer 2).init serveTwo ↔
      (coServer 2).AllSteps HasSlot (coServer 2).init serveTwo :=
  coServerLaw_iff 2 serveTwo rfl

end Sheep
