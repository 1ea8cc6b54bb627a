import Mathlib.Data.List.Basic
import Sheep.Lib.System

/-!
# `FlowService`

One event goes through the ploys of a service (`extends/small_flow/small_flow.h`). A ploy may
start a call and suspend the flow; the callback of the call then runs the flow again. The callback
may come while the ploy is still running, as `GrpcClient::doReq` does when there is no stub: `Run`
is then called inside `Run`.

`FlowLaw`: the ploys run in the order of the list, each at most once, and when no callback is to
come `Finish` has been called exactly once. `flowLaw_iff`: this holds of the whole flow if and only
if no error comes up inside a `Run` inside a `Run`. The outer `Run` looks at `ctx.errMsg` again, and
calls `Finish` for an error for which the inner one has called it.
-/

namespace Sheep

/-- When the callback of a call comes: after the ploy and its `Run` have returned, since both hold
the lock of the event, or inside the ploy. -/
inductive CallbackTime
  | later
  | synchronous
  deriving DecidableEq, Repr

/-- What `Ploy::Run` does in this flow. -/
inductive Ploy
  | returns
  /-- sets `ctx.errMsg` -/
  | setsErrMsg (errMsg : String)
  /-- starts a call and sets `ctx.suspend`; the callback sets `ctx.errMsg` unless `errMsg` is
  empty -/
  | calls (time : CallbackTime) (errMsg : String)
  deriving DecidableEq, Repr

structure FlowCtx where
  errMsg : String
  nextIndex : Nat
  suspend : Bool
  deriving DecidableEq, Repr

inductive FlowEvent
  /-- `ploys[i]->Run` -/
  | run (i : Nat)
  /-- `ploys[i]->Trace` -/
  | trace (i : Nat)
  /-- `event.Finish()` -/
  | finish
  deriving DecidableEq, Repr

/-- The context of the event, what has happened, and the callbacks that are to come, with the errors
that they set. -/
structure Flow where
  ctx : FlowCtx
  log : List FlowEvent
  pending : List String
  deriving DecidableEq, Repr

namespace Flow

def setErrMsg (s : Flow) (errMsg : String) : Flow :=
  { s with ctx := { s.ctx with errMsg := errMsg } }

def setNextIndex (s : Flow) (i : Nat) : Flow :=
  { s with ctx := { s.ctx with nextIndex := i } }

def setSuspend (s : Flow) (b : Bool) : Flow :=
  { s with ctx := { s.ctx with suspend := b } }

def addPending (s : Flow) (errMsg : String) : Flow := { s with pending := s.pending ++ [errMsg] }

def emit (s : Flow) (e : FlowEvent) : Flow := { s with log := s.log ++ [e] }

/-- The loop of `Run` calls the ploy number `i`. -/
def called (s : Flow) (i : Nat) : Flow := (s.setNextIndex (i + 1)).emit (.run i)

/-- What a callback does with its error before it calls `Run`. -/
def callbackErrMsg (s : Flow) (errMsg : String) : Flow :=
  if errMsg = "" then s else s.setErrMsg errMsg

/-- The numbers of the ploys that have run, in this order. -/
def runs (s : Flow) : List Nat :=
  s.log.filterMap fun
    | .run i => some i
    | _ => none

def finishes (s : Flow) : Nat := s.log.count .finish

end Flow

namespace FlowService

/-- `Run` up to its loop. -/
def enter (loop : Flow → Flow) (s : Flow) : Flow :=
  let s := s.setSuspend false
  if s.ctx.errMsg ≠ "" then s.emit .finish else loop s

/-- The loop of `Run` behind `ploys[i]->Run`. -/
def traced (next : Flow → Flow) (i : Nat) (s : Flow) : Flow :=
  let s := s.emit (.trace i)
  if s.ctx.errMsg ≠ "" then s.emit .finish
  else if s.ctx.suspend then s
  else next s

/-- The loop of `Run` from the index `i` on, where these ploys are left. A synchronous callback runs
the loop from `nextIndex` on, which is `i + 1` there. -/
def loop : List Ploy → Nat → Flow → Flow
  | [], _, s => s.emit .finish
  | p :: ps, i, s =>
    let s := s.called i
    traced (loop ps (i + 1)) i <|
      match p with
      | .returns => s
      | .setsErrMsg errMsg => s.setErrMsg errMsg
      | .calls .later errMsg => (s.addPending errMsg).setSuspend true
      | .calls .synchronous errMsg =>
        (enter (fun s => loop ps s.ctx.nextIndex s) (s.callbackErrMsg errMsg)).setSuspend true

def run (ploys : List Ploy) (s : Flow) : Flow :=
  enter (fun s => loop (ploys.drop s.ctx.nextIndex) s.ctx.nextIndex s) s

/-- The callback number `k` of those that are to come. -/
def callback (ploys : List Ploy) (s : Flow) (k : Nat) : Option Flow :=
  s.pending[k]?.map fun errMsg =>
    run ploys ({ s with pending := s.pending.eraseIdx k }.callbackErrMsg errMsg)

end FlowService

/-- The flow of an event that `onMessage` starts with the error `errMsg`, empty for none. -/
def flow (ploys : List Ploy) (errMsg : String) : System Flow Nat :=
  ⟨FlowService.run ploys ⟨⟨errMsg, 0, false⟩, [], []⟩, FlowService.callback ploys⟩

/-! ## The contract -/

structure FlowLaw (ploys : List Ploy) (s : Flow) : Prop where
  runs : ∃ n ≤ ploys.length, s.runs = List.range n
  finishes : s.pending = [] → s.finishes = 1

/-- No error comes up in a `Run` inside a `Run`; `nested` says that one is active. The flow ends
with its first error, and a later callback is not nested. -/
def ErrorsOutside : Bool → List Ploy → Prop
  | _, [] => True
  | nested, .returns :: ps => ErrorsOutside nested ps
  | nested, .setsErrMsg errMsg :: ps =>
    if errMsg = "" then ErrorsOutside nested ps else nested = false
  | _, .calls .later errMsg :: ps => errMsg = "" → ErrorsOutside false ps
  | _, .calls .synchronous errMsg :: ps => errMsg = "" ∧ ErrorsOutside true ps

/-- What the flow has to meet: no error comes up in a `Run` inside a `Run`. -/
def FinishesOnce (ploys : List Ploy) (errMsg : String) : Prop :=
  errMsg = "" → ErrorsOutside false ploys

/-! ## One call of `Run` -/

namespace Flow

variable {s : Flow} {i : Nat}

@[simp] theorem runs_run : (s.emit (.run i)).runs = s.runs ++ [i] := by
  simp [runs, emit]

@[simp] theorem runs_trace : (s.emit (.trace i)).runs = s.runs := by
  simp [runs, emit]

@[simp] theorem runs_finish : (s.emit .finish).runs = s.runs := by
  simp [runs, emit]

@[simp] theorem finishes_run : (s.emit (.run i)).finishes = s.finishes := by
  simp [finishes, emit]

@[simp] theorem finishes_trace : (s.emit (.trace i)).finishes = s.finishes := by
  simp [finishes, emit]

@[simp] theorem finishes_finish : (s.emit .finish).finishes = s.finishes + 1 := by
  simp [finishes, emit]

theorem setErrMsg_self (h : s.ctx.errMsg = "") : s.setErrMsg "" = s := by
  rw [setErrMsg, ← h]

theorem setSuspend_self (h : s.ctx.suspend = false) : s.setSuspend false = s := by
  rw [setSuspend, ← h]

theorem callbackErrMsg_of_ne {errMsg : String} (h : errMsg ≠ "") :
    s.callbackErrMsg errMsg = s.setErrMsg errMsg := if_neg h

/-- The flow comes to the ploy number `i`. -/
structure Ready (s : Flow) (i : Nat) : Prop where
  errMsg : s.ctx.errMsg = ""
  nextIndex : s.ctx.nextIndex = i
  suspend : s.ctx.suspend = false
  pending : s.pending = []
  runs : s.runs = List.range i

@[simp] theorem finishes_called : (s.called i).finishes = s.finishes := finishes_run

theorem runs_called (h : s.Ready i) : (s.called i).runs = List.range (i + 1) := by
  rw [List.range_succ, ← h.runs]
  exact runs_run

theorem Ready.called (h : s.Ready i) : (s.called i).Ready (i + 1) :=
  ⟨h.errMsg, rfl, h.suspend, h.pending, runs_called h⟩

theorem Ready.trace {j : Nat} (h : s.Ready i) : (s.emit (.trace j)).Ready i :=
  ⟨h.errMsg, h.nextIndex, h.suspend, h.pending, runs_trace.trans h.runs⟩

end Flow

/-- How the loop of `Run` ends: at the end of the list; with an error, for which the `Run`s around
call `Finish` again; or with a callback to come, and these ploys left. -/
inductive FlowOutcome
  | ends
  | fails (again : Nat)
  | waits (rest : List Ploy) (errMsg : String)

/-- The `Run` around one that ended so. -/
def FlowOutcome.outer : FlowOutcome → FlowOutcome
  | .ends => .ends
  | .fails again => .fails (again + 1)
  | .waits rest errMsg => .waits rest errMsg

def FlowService.outcome : List Ploy → FlowOutcome
  | [] => .ends
  | .returns :: ps => outcome ps
  | .setsErrMsg errMsg :: ps => if errMsg = "" then outcome ps else .fails 0
  | .calls .later errMsg :: ps => .waits ps errMsg
  | .calls .synchronous errMsg :: ps => if errMsg = "" then (outcome ps).outer else .fails 1

/-- The flow `t` comes from `s` by a loop with this outcome. -/
def FlowOutcome.Meets (ploys : List Ploy) (s t : Flow) : FlowOutcome → Prop
  | .ends => t.ctx.errMsg = "" ∧ t.pending = [] ∧ t.finishes = s.finishes + 1
  | .fails again => t.ctx.errMsg ≠ "" ∧ t.pending = [] ∧ t.finishes = s.finishes + 1 + again
  | .waits rest errMsg => t.ctx.errMsg = "" ∧ t.pending = [errMsg] ∧ t.finishes = s.finishes ∧
      s.ctx.nextIndex < t.ctx.nextIndex ∧ ploys.drop t.ctx.nextIndex = rest

structure FlowService.LoopMeets (ploys : List Ploy) (s t : Flow) (o : FlowOutcome) : Prop where
  runs : t.runs = List.range t.ctx.nextIndex
  bound : t.ctx.nextIndex ≤ ploys.length
  outcome : o.Meets ploys s t

namespace FlowService

variable {ploys ps : List Ploy} {s s' t : Flow} {i : Nat} {o : FlowOutcome}

/-- The start of a loop matters by its `Finish` calls and its index. -/
theorem LoopMeets.from (h : LoopMeets ploys s' t o) (hfinishes : s'.finishes = s.finishes)
    (hindex : s.ctx.nextIndex ≤ s'.ctx.nextIndex) : LoopMeets ploys s t o := by
  refine ⟨h.runs, h.bound, ?_⟩
  have ho := h.outcome
  cases o with
  | ends =>
    obtain ⟨herr, hpending, hcount⟩ := ho
    exact ⟨herr, hpending, hfinishes ▸ hcount⟩
  | fails again =>
    obtain ⟨herr, hpending, hcount⟩ := ho
    exact ⟨herr, hpending, hfinishes ▸ hcount⟩
  | waits rest errMsg =>
    obtain ⟨herr, hpending, hcount, hlt, hrest⟩ := ho
    exact ⟨herr, hpending, hcount.trans hfinishes, Nat.lt_of_le_of_lt hindex hlt, hrest⟩

/-- A ploy that has failed. -/
theorem traced_failed {next : Flow → Flow} (herr : t.ctx.errMsg ≠ "") :
    traced next i t = (t.emit (.trace i)).emit .finish := if_pos herr

/-- A ploy that has suspended the flow. -/
theorem traced_suspended {next : Flow → Flow} (herr : t.ctx.errMsg = "")
    (hsuspend : t.ctx.suspend = true) : traced next i t = t.emit (.trace i) :=
  (if_neg (not_not_intro herr)).trans (if_pos hsuspend)

theorem traced_next {next : Flow → Flow} (herr : t.ctx.errMsg = "")
    (hsuspend : t.ctx.suspend = false) : traced next i t = next (t.emit (.trace i)) :=
  (if_neg (not_not_intro herr)).trans (if_neg (by simp [Flow.emit, hsuspend]))

theorem enter_failed {next : Flow → Flow} (herr : t.ctx.errMsg ≠ "") :
    enter next t = (t.setSuspend false).emit .finish := if_pos herr

theorem enter_ok {next : Flow → Flow} (herr : t.ctx.errMsg = "") :
    enter next t = next (t.setSuspend false) := if_neg (not_not_intro herr)

/-- The end of a ploy whose synchronous callback has run the flow as far as it goes. -/
theorem LoopMeets.outer {next : Flow → Flow} (h : LoopMeets ploys s t o) :
    LoopMeets ploys s (traced next i (t.setSuspend true)) o.outer := by
  have hfinishes : ((t.setSuspend true).emit (.trace i)).finishes = t.finishes :=
    Flow.finishes_trace
  have hruns : ((t.setSuspend true).emit (.trace i)).runs = List.range t.ctx.nextIndex :=
    Flow.runs_trace.trans h.runs
  have ho := h.outcome
  cases o with
  | ends =>
    obtain ⟨herr, hpending, hcount⟩ := ho
    rw [traced_suspended (t := t.setSuspend true) herr rfl]
    exact ⟨hruns, h.bound, herr, hpending, hfinishes.trans hcount⟩
  | fails again =>
    obtain ⟨herr, hpending, hcount⟩ := ho
    rw [traced_failed (t := t.setSuspend true) herr]
    refine ⟨Flow.runs_finish.trans hruns, h.bound, herr, hpending, ?_⟩
    rw [Flow.finishes_finish, hfinishes, hcount]
    rfl
  | waits rest errMsg =>
    obtain ⟨herr, hpending, hcount, hlt, hrest⟩ := ho
    rw [traced_suspended (t := t.setSuspend true) herr rfl]
    exact ⟨hruns, h.bound, herr, hpending, hfinishes.trans hcount, hlt, hrest⟩

theorem loop_setsErrMsg {errMsg : String} : loop (.setsErrMsg errMsg :: ps) i s =
    traced (loop ps (i + 1)) i ((s.called i).setErrMsg errMsg) := rfl

theorem loop_later {errMsg : String} : loop (.calls .later errMsg :: ps) i s =
    traced (loop ps (i + 1)) i (((s.called i).addPending errMsg).setSuspend true) := rfl

/-- The loop from a flow that comes to the ploy number `i`. The induction is on the ploys left; a
synchronous callback runs the loop on the same rest as the `Run` around it would. -/
theorem loop_meets (hps : ploys.drop i = ps) (hi : i ≤ ploys.length) (h : s.Ready i) :
    LoopMeets ploys s (loop ps i s) (outcome ps) := by
  induction ps generalizing i s with
  | nil =>
    refine ⟨?_, ?_, h.errMsg, h.pending, Flow.finishes_finish⟩
    · exact Flow.runs_finish.trans (h.runs.trans (congrArg List.range h.nextIndex.symm))
    · exact h.nextIndex ▸ hi
  | cons p ps ih =>
    have hlt : i < ploys.length := by
      by_contra hge
      rw [List.drop_eq_nil_of_le (Nat.le_of_not_lt hge)] at hps
      cases hps
    have hps' : ploys.drop (i + 1) = ps := by
      rw [← List.tail_drop, hps]
      rfl
    have hready := h.called
    have hindex : s.ctx.nextIndex ≤ i + 1 := h.nextIndex ▸ Nat.le_succ i
    -- the next round, after a ploy that has neither failed nor suspended the flow
    have hnext : LoopMeets ploys s (traced (loop ps (i + 1)) i (s.called i)) (outcome ps) := by
      rw [traced_next hready.errMsg hready.suspend]
      exact (ih hps' hlt hready.trace).from (Flow.finishes_trace.trans Flow.finishes_called) hindex
    cases p with
    | returns => exact hnext
    | setsErrMsg errMsg =>
      by_cases he : errMsg = ""
      · subst he
        rw [loop_setsErrMsg, Flow.setErrMsg_self hready.errMsg]
        exact hnext
      · rw [loop_setsErrMsg, traced_failed (t := (s.called i).setErrMsg errMsg) he, outcome,
          if_neg he]
        refine ⟨?_, hlt, he, h.pending, ?_⟩
        · exact Flow.runs_finish.trans (Flow.runs_trace.trans hready.runs)
        · rw [Flow.finishes_finish, Flow.finishes_trace]
          exact congrArg (· + 1) Flow.finishes_called
    | calls time errMsg =>
      cases time with
      | later =>
        rw [loop_later, traced_suspended (t := ((s.called i).addPending errMsg).setSuspend true)
          hready.errMsg rfl]
        refine ⟨Flow.runs_trace.trans hready.runs, hlt, h.errMsg, ?_, ?_, ?_, hps'⟩
        · exact congrArg (· ++ [errMsg]) h.pending
        · exact Flow.finishes_trace.trans Flow.finishes_called
        · exact h.nextIndex ▸ Nat.lt_succ_self i
      | synchronous =>
        by_cases he : errMsg = ""
        · subst he
          have hinner : LoopMeets ploys s (enter (fun s => loop ps s.ctx.nextIndex s) (s.called i))
              (outcome ps) := by
            rw [enter_ok hready.errMsg, Flow.setSuspend_self hready.suspend]
            exact (ih hps' hlt hready).from Flow.finishes_called hindex
          exact hinner.outer
        · rw [outcome, if_neg he]
          have hinner : LoopMeets ploys s (enter (fun s => loop ps s.ctx.nextIndex s)
              ((s.called i).callbackErrMsg errMsg)) (.fails 0) := by
            rw [Flow.callbackErrMsg_of_ne he, enter_failed he]
            refine ⟨Flow.runs_finish.trans hready.runs, hlt, he, h.pending, ?_⟩
            rw [Flow.finishes_finish]
            exact congrArg (· + 1) Flow.finishes_called
          exact hinner.outer

/-- `Run` with the ploys that are left. -/
theorem run_eq (hps : ploys.drop s.ctx.nextIndex = ps) :
    run ploys s = enter (fun s => loop ps s.ctx.nextIndex s) s := by
  subst hps
  rfl

end FlowService

/-! ## The condition and the outcome -/

theorem errorsOutside_outcome (nested : Bool) (ps : List Ploy) :
    ErrorsOutside nested ps ↔
      match FlowService.outcome ps with
      | .ends => True
      | .fails again => again = 0 ∧ nested = false
      | .waits rest errMsg => errMsg = "" → ErrorsOutside false rest := by
  induction ps generalizing nested with
  | nil => simp [ErrorsOutside, FlowService.outcome]
  | cons p ps ih =>
    cases p with
    | returns => exact ih nested
    | setsErrMsg errMsg =>
      by_cases he : errMsg = ""
      · simp only [ErrorsOutside, FlowService.outcome, he, ↓reduceIte]
        exact ih nested
      · simp [ErrorsOutside, FlowService.outcome, he]
    | calls time errMsg =>
      cases time with
      | later => exact Iff.rfl
      | synchronous =>
        by_cases he : errMsg = ""
        · have h := ih true
          simp only [ErrorsOutside, FlowService.outcome, he, ↓reduceIte, true_and]
          rw [h]
          cases FlowService.outcome ps <;> simp [FlowOutcome.outer]
        · simp [ErrorsOutside, FlowService.outcome, he]

/-! ## The whole flow -/

/-- Whether the flow is over or waits for a callback; `once` is what it started with and has to meet
for one `Finish`. -/
inductive FlowStage (ploys : List Ploy) (once : Prop) (s : Flow) : Prop
  | ended (pending : s.pending = []) (finishes : s.finishes = 1 ↔ once)
  | waits (errMsg : String) (pending : s.pending = [errMsg]) (clear : s.ctx.errMsg = "")
      (finishes : s.finishes = 0)
      (rest : (errMsg = "" → ErrorsOutside false (ploys.drop s.ctx.nextIndex)) ↔ once)

/-- What holds after `onMessage` and after each callback. -/
structure FlowInv (ploys : List Ploy) (once : Prop) (s : Flow) : Prop where
  runs : s.runs = List.range s.ctx.nextIndex
  bound : s.ctx.nextIndex ≤ ploys.length
  stage : FlowStage ploys once s

namespace FlowService

variable {ploys : List Ploy} {once : Prop} {s t : Flow}

/-- A call of `Run` from outside. -/
theorem run_inv (hruns : s.runs = List.range s.ctx.nextIndex)
    (hbound : s.ctx.nextIndex ≤ ploys.length) (hpending : s.pending = [])
    (hfinishes : s.finishes = 0)
    (honce : (s.ctx.errMsg = "" → ErrorsOutside false (ploys.drop s.ctx.nextIndex)) ↔ once) :
    FlowInv ploys once (run ploys s) ∧
      ((run ploys s).pending ≠ [] → s.ctx.nextIndex < (run ploys s).ctx.nextIndex) := by
  rw [run_eq rfl]
  by_cases he : s.ctx.errMsg = ""
  · have hready : (s.setSuspend false).Ready s.ctx.nextIndex := ⟨he, rfl, rfl, hpending, hruns⟩
    have hmeets := loop_meets rfl hbound hready
    generalize ht : loop (ploys.drop s.ctx.nextIndex) s.ctx.nextIndex (s.setSuspend false) = t
      at hmeets
    have henter : enter (fun s' => loop (ploys.drop s.ctx.nextIndex) s'.ctx.nextIndex s') s = t :=
      (enter_ok he).trans ht
    rw [henter]
    rw [errorsOutside_outcome] at honce
    obtain ⟨hruns', hbound', ho⟩ := hmeets
    have hzero : (s.setSuspend false).finishes = 0 := hfinishes
    cases houtcome : outcome (ploys.drop s.ctx.nextIndex) with
    | ends =>
      rw [houtcome] at ho honce
      obtain ⟨-, hpend, hcount⟩ := ho
      refine ⟨⟨hruns', hbound', .ended hpend ?_⟩, fun hne => absurd hpend hne⟩
      rw [hcount, hzero, ← honce]
      simp
    | fails again =>
      rw [houtcome] at ho honce
      obtain ⟨-, hpend, hcount⟩ := ho
      refine ⟨⟨hruns', hbound', .ended hpend ?_⟩, fun hne => absurd hpend hne⟩
      rw [hcount, hzero, ← honce]
      simp [he]
    | waits rest errMsg =>
      rw [houtcome] at ho honce
      obtain ⟨herr, hpend, hcount, hlt, hrest⟩ := ho
      refine ⟨⟨hruns', hbound', .waits errMsg hpend herr (hcount.trans hzero) ?_⟩, fun _ => hlt⟩
      rw [← honce]
      simp [he, ← hrest]
  · rw [enter_failed he]
    refine ⟨⟨Flow.runs_finish.trans hruns, hbound, .ended hpending ?_⟩,
      fun hne => absurd hpending hne⟩
    have hone : ((s.setSuspend false).emit .finish).finishes = 1 :=
      Flow.finishes_finish.trans (congrArg (· + 1) hfinishes)
    exact ⟨fun _ => honce.mp fun h => absurd h he, fun _ => hone⟩

theorem onMessage_inv (ploys : List Ploy) (errMsg : String) :
    FlowInv ploys (FinishesOnce ploys errMsg) (flow ploys errMsg).init :=
  (run_inv (s := ⟨⟨errMsg, 0, false⟩, [], []⟩) rfl (Nat.zero_le _) rfl rfl Iff.rfl).1

theorem callback_inv {k : Nat} (h : FlowInv ploys once s) (hs : callback ploys s k = some t) :
    FlowInv ploys once t ∧ (t.pending ≠ [] → s.ctx.nextIndex < t.ctx.nextIndex) := by
  obtain ⟨errMsg', hk, rfl⟩ := Option.map_eq_some_iff.mp hs
  cases h.stage with
  | ended hpending => simp [hpending] at hk
  | waits errMsg hpending hclear hfinishes hrest =>
    rw [hpending] at hk
    cases k with
    | succ k => simp at hk
    | zero =>
      obtain rfl : errMsg = errMsg' := by simpa using hk
      have hnil : s.pending.eraseIdx 0 = [] := by rw [hpending]; rfl
      by_cases he : errMsg = ""
      · subst he
        refine run_inv h.runs h.bound hnil hfinishes ?_
        rw [← hrest]
        exact ⟨fun hall _ => hall hclear, fun hall _ => hall rfl⟩
      · rw [Flow.callbackErrMsg_of_ne he]
        exact run_inv h.runs h.bound hnil hfinishes hrest

/-- All callbacks come: each one lets another ploy run. -/
theorem flow_ends {errMsg : String} (hs : (flow ploys errMsg).Reachable s)
    (h : FlowInv ploys once s) : ∃ t, (flow ploys errMsg).Reachable t ∧ t.pending = [] := by
  induction hn : ploys.length - s.ctx.nextIndex using Nat.strongRecOn generalizing s with
  | ind n ih =>
    cases h.stage with
    | ended hpending => exact ⟨s, hs, hpending⟩
    | waits errMsg' hpending =>
      obtain ⟨t, ht⟩ : ∃ t, callback ploys s 0 = some t := by
        rw [callback, hpending]
        exact ⟨_, rfl⟩
      have ht' := hs.step trivial ht
      obtain ⟨hinv, hlt⟩ := callback_inv h ht
      by_cases hend : t.pending = []
      · exact ⟨t, ht', hend⟩
      · have hbound := hinv.bound
        have hless := hlt hend
        exact ih _ (by omega) ht' hinv rfl

end FlowService

/-- The whole flow of an event keeps the contract if and only if no error comes up in a `Run` inside
a `Run`. -/
theorem flowLaw_iff (ploys : List Ploy) (errMsg : String) :
    (∀ s, (flow ploys errMsg).Reachable s → FlowLaw ploys s) ↔ FinishesOnce ploys errMsg := by
  have hinv : ∀ s, (flow ploys errMsg).Reachable s →
      FlowInv ploys (FinishesOnce ploys errMsg) s := fun s hs =>
    hs.invariant (FlowService.onMessage_inv ploys errMsg) fun _ _ _ h _ ha =>
      (FlowService.callback_inv h ha).1
  constructor
  · intro hlaw
    obtain ⟨t, ht, hend⟩ := FlowService.flow_ends .init (hinv _ .init)
    have hone := (hlaw t ht).finishes hend
    cases (hinv t ht).stage with
    | ended _ hfinishes => exact hfinishes.mp hone
    | waits _ hpending => simp [hpending] at hend
  · intro honce s hs
    refine ⟨⟨s.ctx.nextIndex, (hinv s hs).bound, (hinv s hs).runs⟩, fun hend => ?_⟩
    cases (hinv s hs).stage with
    | ended _ hfinishes => exact hfinishes.mpr honce
    | waits _ hpending => simp [hpending] at hend

/-- The call of the ploy fails at once and its callback sets the error: `Finish` is called by the
`Run` of the callback, and by the one that runs the ploy. -/
theorem synchronous_error_finishes_twice :
    (flow [.calls .synchronous "stub is nullptr"] "").init.log =
        [.run 0, .finish, .trace 0, .finish] ∧
      ¬ ∀ s, (flow [.calls .synchronous "stub is nullptr"] "").Reachable s →
        FlowLaw [.calls .synchronous "stub is nullptr"] s := by
  refine ⟨by decide, fun h => ?_⟩
  have hlaw := (h _ .init).finishes (by decide)
  exact absurd hlaw (by decide)

end Sheep
