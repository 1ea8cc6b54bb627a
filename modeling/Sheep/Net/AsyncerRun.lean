import Sheep.Lib.System
import Sheep.Net.TcpConnection

/-!
# The life of an `Asyncer`

`AsyncDo`, `Cancel`, the loop that polls and dispatches the event, and the destructor
(`net/common/asyncer/asyncer.cpp`), in any order, where a handler may call `Cancel` and `AsyncDo`
again.

`AsyncerLaw`: the handler of the first `AsyncDo` is called once by the time the asyncer is
destroyed, without an error exactly when the loop has dispatched the event in time, and every later
`AsyncDo` calls its handler with an error. `asyncerLaw_iff`: a run keeps the law if and only if the
handler does not call `Cancel` out of the destructor. `Cancel` and the callback of the event set
`done_` before they call the handler, the destructor does not.
-/

namespace Sheep

/-- The event of an asyncer. -/
structure AsyncerEvent where
  readNotify : Bool
  readAble : Bool
  deriving DecidableEq, Repr

/-- An `Asyncer`, with the fields that its handler finds when it calls the methods again. -/
structure AsyncerObject where
  handler : Option Handler
  event : Option AsyncerEvent
  done : Bool
  used : Bool
  deriving DecidableEq, Repr

/-- A call of a handler, with its `errMsg`. -/
abbrev AsyncerCall := Handler × String

namespace AsyncerObject

/-- The constructor leaves `done_` as it is. -/
def new (done : Bool) : AsyncerObject := ⟨none, none, done, false⟩

/-- `handler_(errMsg)`. An empty `handler_` would throw; there is one once there is an event. -/
def callHandler (a : AsyncerObject) (errMsg : String) : List AsyncerCall :=
  a.handler.toList.map fun h => (h, errMsg)

/-- `DisableReadNotify`, and the handler unless `done_` is set: `Cancel` and the callback of the
event differ in the error. -/
def complete (a : AsyncerObject) (e : AsyncerEvent) (errMsg : String) :
    AsyncerObject × List AsyncerCall :=
  let a := { a with event := some { e with readNotify := false } }
  if a.done then (a, []) else ({ a with done := true }, a.callHandler errMsg)

def cancel (a : AsyncerObject) : AsyncerObject × List AsyncerCall :=
  match a.event with
  | none => (a, [])
  | some e => a.complete e "Asyncer Canceled"

def asyncDo (a : AsyncerObject) (h : Handler) : AsyncerObject × List AsyncerCall :=
  if a.used then (a, [(h, "Asyncer can't reuse")])
  else
    match cancel { a with used := true, done := false } with
    | (a, calls) => ({ a with handler := some h, event := some ⟨true, false⟩ }, calls)

/-- `Event::Do`, while the asyncer lives. -/
def dispatch (a : AsyncerObject) : AsyncerObject × List AsyncerCall :=
  match a.event with
  | some ⟨true, true⟩ => a.complete ⟨true, false⟩ ""
  | _ => (a, [])

/-- The destructor. -/
def destroy (a : AsyncerObject) : List AsyncerCall :=
  if a.done then [] else a.callHandler "Asyncer Canceled"

end AsyncerObject

inductive AsyncerPhase
  | live
  /-- the destructor has called the handler -/
  | destroying
  | destroyed
  deriving DecidableEq, Repr

inductive AsyncerAction
  | asyncDo
  | cancel
  | poll
  /-- the loop dispatches the event that a poll has returned -/
  | dispatch
  /-- the last `shared_ptr` to the asyncer goes -/
  | destroy
  /-- the handler returns to the destructor -/
  | destroyed
  deriving DecidableEq, Repr

/-- The `n`-th call of `AsyncDo` passes the handler `n`, starting with 0. -/
structure AsyncerRun where
  asyncer : AsyncerObject
  phase : AsyncerPhase
  /-- the loop has the event still to dispatch -/
  polled : Bool
  /-- the number of calls of `AsyncDo` -/
  asyncDos : Nat
  calls : List AsyncerCall
  /-- `Cancel` was called after the first `AsyncDo` -/
  canceled : Bool
  /-- the loop has dispatched the event before the destruction and before any `Cancel` that came
  after the first `AsyncDo` -/
  inTime : Bool
  deriving DecidableEq, Repr

namespace AsyncerRun

def new (done : Bool) : AsyncerRun := ⟨.new done, .live, false, 0, [], false, false⟩

/-- A method has left the asyncer and called the handlers so. -/
def called (s : AsyncerRun) (r : AsyncerObject × List AsyncerCall) : AsyncerRun :=
  { s with asyncer := r.1, calls := s.calls ++ r.2 }

def asyncDo (s : AsyncerRun) : AsyncerRun :=
  { s.called (s.asyncer.asyncDo s.asyncDos) with asyncDos := s.asyncDos + 1 }

def cancel (s : AsyncerRun) : AsyncerRun :=
  { s.called s.asyncer.cancel with canceled := s.canceled || decide (0 < s.asyncDos) }

/-- The poller has the event while its notification is on. -/
def poll (s : AsyncerRun) : AsyncerRun :=
  match s.asyncer.event with
  | some ⟨true, _⟩ =>
    { s with asyncer := { s.asyncer with event := some ⟨true, true⟩ }, polled := true }
  | _ => s

/-- Once the destructor runs, the callback finds that `weakThis` has expired. -/
def dispatch (s : AsyncerRun) : AsyncerRun :=
  let s := { s with polled := false }
  if s.phase = .live then
    { s.called s.asyncer.dispatch with inTime := s.inTime || !s.canceled }
  else s

def destroy (s : AsyncerRun) : AsyncerRun :=
  match s.asyncer.destroy with
  | [] => { s with phase := .destroyed }
  | calls => { s with phase := .destroying, calls := s.calls ++ calls }

def step (s : AsyncerRun) : AsyncerAction → Option AsyncerRun
  | .asyncDo => if s.phase = .destroyed then none else some s.asyncDo
  | .cancel => if s.phase = .destroyed then none else some s.cancel
  | .poll => if s.phase = .destroyed then none else some s.poll
  | .dispatch => if s.polled then some s.dispatch else none
  | .destroy => if s.phase = .live then some s.destroy else none
  | .destroyed => if s.phase = .destroying then some { s with phase := .destroyed } else none

def system (done : Bool) : System AsyncerRun AsyncerAction := ⟨new done, step⟩

/-- How often the handler of the `k`-th `AsyncDo` has been called. -/
def timesCalled (s : AsyncerRun) (k : Nat) : Nat := s.calls.countP fun c => c.1 = k

end AsyncerRun

structure AsyncerLaw (s : AsyncerRun) : Prop where
  atMostOnce : s.timesCalled 0 ≤ 1
  once : s.phase = .destroyed → 0 < s.asyncDos → s.timesCalled 0 = 1
  success : (0, "") ∈ s.calls ↔ s.inTime = true
  later : ∀ k, 0 < k → k < s.asyncDos → s.timesCalled k = 1 ∧ (k, "") ∉ s.calls
  known : ∀ c ∈ s.calls, c.1 < s.asyncDos

namespace AsyncerRun

/-- An `AsyncDo` after the first one calls its own handler, and does nothing else. -/
def OnlyRefuses (s : AsyncerRun) (a : AsyncerAction) : Prop :=
  a = .asyncDo → 0 < s.asyncDos → ∀ t, s.step a = some t →
    t = { s with
      asyncDos := s.asyncDos + 1
      calls := s.calls ++ [(s.asyncDos, "Asyncer can't reuse")] }

/-- The handler does not call `Cancel` out of the destructor. -/
def CancelsOutside (s : AsyncerRun) (a : AsyncerAction) : Prop :=
  a = .cancel → s.phase ≠ .destroying

instance (s : AsyncerRun) (a : AsyncerAction) : Decidable (s.CancelsOutside a) := by
  unfold CancelsOutside; infer_instance

/-! ## The log -/

variable {s t : AsyncerRun} {done : Bool}

/-- What the calls so far are, in every stage. -/
structure Logged (s : AsyncerRun) : Prop where
  success : (0, "") ∈ s.calls ↔ s.inTime = true
  later : ∀ k, 0 < k → k < s.asyncDos → s.timesCalled k = 1 ∧ (k, "") ∉ s.calls
  known : ∀ c ∈ s.calls, c.1 < s.asyncDos

theorem timesCalled_append {cs : List AsyncerCall} (hcalls : t.calls = s.calls ++ cs) (k : Nat) :
    t.timesCalled k = s.timesCalled k + cs.countP fun c => c.1 = k := by
  rw [timesCalled, hcalls, List.countP_append]
  rfl

theorem Logged.unknown (hs : s.Logged) {k : Nat} (hk : s.asyncDos ≤ k) : s.timesCalled k = 0 := by
  rw [timesCalled, List.countP_eq_zero]
  intro c hc
  have hlt := hs.known c hc
  simp only [decide_eq_true_eq]
  exact Nat.ne_of_lt (Nat.lt_of_lt_of_le hlt hk)

/-- No handler is called. -/
theorem Logged.of_eq (hs : s.Logged) (hcalls : t.calls = s.calls)
    (hasyncDos : t.asyncDos = s.asyncDos) (hinTime : t.inTime = s.inTime) : t.Logged := by
  refine ⟨?_, ?_, ?_⟩
  · rw [hcalls, hinTime]
    exact hs.success
  · simp only [timesCalled, hcalls, hasyncDos]
    exact hs.later
  · rw [hcalls, hasyncDos]
    exact hs.known

/-- The handler of the first `AsyncDo` is called. -/
theorem Logged.first (hs : s.Logged) {errMsg : String} (hcalls : t.calls = s.calls ++ [(0, errMsg)])
    (hpos : 0 < s.asyncDos) (hasyncDos : t.asyncDos = s.asyncDos)
    (hinTime : t.inTime = true ↔ s.inTime = true ∨ errMsg = "") : t.Logged := by
  refine ⟨?_, fun k hk hlt => ?_, fun c hc => ?_⟩
  · rw [hcalls, List.mem_append, hs.success, hinTime, List.mem_singleton, Prod.mk.injEq, eq_comm]
    simp only [true_and, eq_comm]
  · obtain ⟨hone, hnot⟩ := hs.later k hk (hasyncDos ▸ hlt)
    have hne : (0 : Nat) ≠ k := Nat.ne_of_lt hk
    refine ⟨?_, ?_⟩
    · rw [timesCalled_append hcalls, hone, List.countP_singleton, if_neg (by simpa using hne)]
    · rw [hcalls, List.mem_append, List.mem_singleton, Prod.mk.injEq]
      exact fun h => h.elim hnot fun h => hne h.1.symm
  · rw [hasyncDos]
    rcases List.mem_append.mp (hcalls ▸ hc) with hc | hc
    · exact hs.known c hc
    · rw [List.mem_singleton.mp hc]
      exact hpos

/-- A later `AsyncDo` calls its own handler. -/
theorem Logged.reuse (hs : s.Logged) (errMsg : String) (herr : errMsg ≠ "")
    (hcalls : t.calls = s.calls ++ [(s.asyncDos, errMsg)])
    (hasyncDos : t.asyncDos = s.asyncDos + 1) (hinTime : t.inTime = s.inTime) : t.Logged := by
  have hmem : ∀ k, (k, "") ∈ t.calls ↔ (k, "") ∈ s.calls := by
    intro k
    rw [hcalls, List.mem_append, List.mem_singleton, Prod.mk.injEq]
    exact ⟨fun h => h.resolve_right fun h => herr h.2.symm, .inl⟩
  refine ⟨?_, fun k hk hlt => ?_, fun c hc => ?_⟩
  · rw [hmem, hinTime]
    exact hs.success
  · rw [hmem, timesCalled_append hcalls, List.countP_singleton]
    rw [hasyncDos] at hlt
    rcases Nat.lt_succ_iff_lt_or_eq.mp hlt with hlt | rfl
    · obtain ⟨hone, hnot⟩ := hs.later k hk hlt
      have hne : s.asyncDos ≠ k := Nat.ne_of_gt hlt
      exact ⟨by rw [hone, if_neg (by simpa using hne)], hnot⟩
    · refine ⟨by rw [hs.unknown (Nat.le_refl _), if_pos (by simp)], fun h => ?_⟩
      exact absurd (hs.known _ h) (Nat.lt_irrefl _)
  · rw [hasyncDos]
    rcases List.mem_append.mp (hcalls ▸ hc) with hc | hc
    · exact Nat.lt_succ_of_lt (hs.known c hc)
    · rw [List.mem_singleton.mp hc]
      exact Nat.lt_succ_self _

/-! ## The stages of a run -/

/-- The handler has been called, and the loop has nothing to dispatch any more. -/
structure Completed (a : AsyncerObject) : Prop where
  done : a.done = true
  event : ∀ e ∈ a.event, e.readNotify = false

inductive Stage (s : AsyncerRun) : Prop
  | unused (hphase : s.phase ≠ .destroying) (hused : s.asyncer.used = false)
      (hhandler : s.asyncer.handler = none) (hevent : s.asyncer.event = none)
      (hasyncDos : s.asyncDos = 0) (hcalls : s.calls = []) (hpolled : s.polled = false)
      (hcanceled : s.canceled = false)
  | waiting (readAble : Bool) (hphase : s.phase = .live)
      (hasyncer : s.asyncer = ⟨some 0, some ⟨true, readAble⟩, false, true⟩)
      (hpolled : s.polled = true → readAble = true) (hasyncDos : 0 < s.asyncDos)
      (hcount : s.timesCalled 0 = 0) (hcanceled : s.canceled = false) (hinTime : s.inTime = false)
  | called (hphase : s.phase ≠ .destroying) (hused : s.asyncer.used = true)
      (hcompleted : Completed s.asyncer) (hasyncDos : 0 < s.asyncDos)
      (hcount : s.timesCalled 0 = 1) (hwhy : s.inTime = true ∨ s.canceled = true)
  | destroying (readAble : Bool) (hphase : s.phase = .destroying)
      (hasyncer : s.asyncer = ⟨some 0, some ⟨true, readAble⟩, false, true⟩)
      (hasyncDos : 0 < s.asyncDos) (hcount : s.timesCalled 0 = 1)
  | destroyed (hphase : s.phase = .destroyed) (hused : s.asyncer.used = true)
      (hasyncDos : 0 < s.asyncDos) (hcount : s.timesCalled 0 = 1)

structure Good (s : AsyncerRun) : Prop where
  logged : s.Logged
  stage : s.Stage

theorem good_new : (new done).Good where
  logged := ⟨iff_of_false nofun nofun, nofun, nofun⟩
  stage := .unused nofun rfl rfl rfl rfl rfl rfl rfl

/-! ## What a step leads to -/

theorem asyncDo_used (hused : s.asyncer.used = true) : s.asyncDo = { s with
    asyncDos := s.asyncDos + 1
    calls := s.calls ++ [(s.asyncDos, "Asyncer can't reuse")] } := by
  simp only [asyncDo, called, AsyncerObject.asyncDo, hused, if_true]

theorem refuse_timesCalled (hpos : 0 < s.asyncDos) (hcalls : t.calls =
    s.calls ++ [(s.asyncDos, "Asyncer can't reuse")]) : t.timesCalled 0 = s.timesCalled 0 := by
  have hne : s.asyncDos ≠ 0 := Nat.ne_of_gt hpos
  rw [timesCalled_append hcalls, List.countP_singleton, if_neg (by simpa using hne), Nat.add_zero]

theorem Good.asyncDo (hs : s.Good) (hphase : s.phase ≠ .destroyed) : s.asyncDo.Good := by
  have hlogged : s.asyncer.used = true → s.asyncDo.Logged := by
    intro hused
    rw [asyncDo_used hused]
    exact hs.logged.reuse "Asyncer can't reuse" (by decide) rfl rfl rfl
  cases hs.stage with
  | unused hnot hused hhandler hevent hasyncDos hcalls hpolled hcanceled =>
    have heq : s.asyncDo = { s with
        asyncer := ⟨some 0, some ⟨true, false⟩, false, true⟩, asyncDos := 1 } := by
      simp [AsyncerRun.asyncDo, called, AsyncerObject.asyncDo, AsyncerObject.cancel, hused, hevent,
        hasyncDos]
    have hlive : s.phase = .live := by
      cases hp : s.phase with
      | live => rfl
      | destroying => exact absurd hp hnot
      | destroyed => exact absurd hp hphase
    have hinTime : s.inTime = false := by
      have h := hs.logged.success
      rw [hcalls] at h
      exact Bool.eq_false_iff.mpr fun hin => nomatch h.mpr hin
    rw [heq]
    refine ⟨⟨hs.logged.success, fun k hk hlt => ?_, ?_⟩, ?_⟩
    · exact absurd hk (Nat.not_lt.mpr (Nat.le_of_lt_succ hlt))
    · rw [hcalls]
      exact nofun
    · refine .waiting false hlive rfl (fun h => ?_) Nat.one_pos ?_ hcanceled hinTime
      · exact absurd (hpolled.symm.trans h) nofun
      · rw [timesCalled, hcalls]
        rfl
  | waiting readAble hlive hasyncer hpolled hasyncDos hcount hcanceled hinTime =>
    have hused : s.asyncer.used = true := by rw [hasyncer]
    refine ⟨hlogged hused, ?_⟩
    rw [asyncDo_used hused]
    exact .waiting readAble hlive hasyncer hpolled (Nat.succ_pos _)
      ((refuse_timesCalled hasyncDos rfl).trans hcount) hcanceled hinTime
  | called hnot hused hcompleted hasyncDos hcount hwhy =>
    refine ⟨hlogged hused, ?_⟩
    rw [asyncDo_used hused]
    exact .called hnot hused hcompleted (Nat.succ_pos _)
      ((refuse_timesCalled hasyncDos rfl).trans hcount) hwhy
  | destroying readAble hp hasyncer hasyncDos hcount =>
    have hused : s.asyncer.used = true := by rw [hasyncer]
    refine ⟨hlogged hused, ?_⟩
    rw [asyncDo_used hused]
    exact .destroying readAble hp hasyncer (Nat.succ_pos _)
      ((refuse_timesCalled hasyncDos rfl).trans hcount)
  | destroyed hp => exact absurd hp hphase

/-- Once the handler has been called, `complete` calls it no more. -/
theorem Completed.complete {a : AsyncerObject} (ha : Completed a) (e : AsyncerEvent)
    (errMsg : String) : (a.complete e errMsg).2 = [] ∧ Completed (a.complete e errMsg).1 ∧
      (a.complete e errMsg).1.used = a.used := by
  have heq : a.complete e errMsg =
      ({ a with event := some { e with readNotify := false } }, []) := if_pos ha.done
  rw [heq]
  refine ⟨rfl, ⟨ha.done, fun e' he' => ?_⟩, rfl⟩
  cases he'
  rfl

theorem Completed.cancel {a : AsyncerObject} (ha : Completed a) :
    a.cancel.2 = [] ∧ Completed a.cancel.1 ∧ a.cancel.1.used = a.used := by
  unfold AsyncerObject.cancel
  split
  next => exact ⟨rfl, ha, rfl⟩
  next => exact ha.complete _ _

theorem Completed.dispatch {a : AsyncerObject} (ha : Completed a) : a.dispatch = (a, []) := by
  unfold AsyncerObject.dispatch
  split
  next he => exact absurd (ha.event _ he) nofun
  next => rfl

/-- `Cancel`, unless the destructor is running. -/
theorem Good.cancel (hs : s.Good) (hphase : s.phase ≠ .destroyed) (hG : s.phase ≠ .destroying) :
    s.cancel.Good := by
  cases hs.stage with
  | unused hnot hused hhandler hevent hasyncDos hcalls hpolled hcanceled =>
    have heq : s.asyncer.cancel = (s.asyncer, []) := by rw [AsyncerObject.cancel, hevent]
    have hsame : s.cancel.calls = s.calls := by
      rw [AsyncerRun.cancel, AsyncerRun.called, heq, List.append_nil]
    have hasyncer : s.cancel.asyncer = s.asyncer := by
      rw [AsyncerRun.cancel, AsyncerRun.called, heq]
    refine ⟨hs.logged.of_eq hsame rfl rfl, .unused hnot (hasyncer ▸ hused) (hasyncer ▸ hhandler)
      (hasyncer ▸ hevent) hasyncDos (hsame.trans hcalls) hpolled ?_⟩
    simp [AsyncerRun.cancel, hcanceled, hasyncDos]
  | waiting readAble hlive hasyncer hpolled hasyncDos hcount hcanceled hinTime =>
    have hcalls : s.cancel.calls = s.calls ++ [(0, "Asyncer Canceled")] := by
      rw [AsyncerRun.cancel, AsyncerRun.called, hasyncer]
      rfl
    refine ⟨hs.logged.first hcalls hasyncDos rfl ⟨.inl, fun h => h.resolve_right (by decide)⟩, ?_⟩
    refine .called ?_ ?_ ⟨?_, ?_⟩ hasyncDos ?_ (.inr ?_)
    · exact hG
    · rw [AsyncerRun.cancel, AsyncerRun.called, hasyncer]
      rfl
    · rw [AsyncerRun.cancel, AsyncerRun.called, hasyncer]
      rfl
    · rw [AsyncerRun.cancel, AsyncerRun.called, hasyncer]
      rintro e ⟨⟩
      rfl
    · rw [timesCalled_append hcalls, hcount]
      rfl
    · simp [AsyncerRun.cancel, hasyncDos]
  | called hnot hused hcompleted hasyncDos hcount hwhy =>
    obtain ⟨hnone, hcompleted', hused'⟩ := hcompleted.cancel
    have hcalls : s.cancel.calls = s.calls := by
      rw [AsyncerRun.cancel, AsyncerRun.called, hnone, List.append_nil]
    refine ⟨hs.logged.of_eq hcalls rfl rfl, .called hnot (hused'.trans hused) hcompleted' hasyncDos
      ?_ (hwhy.imp_right fun h => ?_)⟩
    · rw [timesCalled, hcalls]
      exact hcount
    · simp [AsyncerRun.cancel, h]
  | destroying readAble hp => exact absurd hp hG
  | destroyed hp => exact absurd hp hphase

theorem Good.poll (hs : s.Good) : s.poll.Good := by
  unfold AsyncerRun.poll
  split
  next readAble' he =>
    refine ⟨hs.logged.of_eq rfl rfl rfl, ?_⟩
    cases hs.stage with
    | unused _ _ _ hevent => exact absurd (hevent.symm.trans he) nofun
    | waiting readAble hlive hasyncer hpolled hasyncDos hcount hcanceled hinTime =>
      exact .waiting true hlive (by rw [hasyncer]) (fun _ => rfl) hasyncDos hcount hcanceled hinTime
    | called _ _ hcompleted => exact absurd (hcompleted.event _ he) nofun
    | destroying readAble hp hasyncer hasyncDos hcount =>
      exact .destroying true hp (by rw [hasyncer]) hasyncDos hcount
    | destroyed hp hused hasyncDos hcount => exact .destroyed hp hused hasyncDos hcount
  next => exact hs

theorem dispatch_gone (h : s.phase ≠ .live) : s.dispatch = { s with polled := false } := by
  rw [AsyncerRun.dispatch, if_neg h]

theorem dispatch_live (h : s.phase = .live) : s.dispatch =
    { ({ s with polled := false } : AsyncerRun).called s.asyncer.dispatch with
      inTime := s.inTime || !s.canceled } := by
  rw [AsyncerRun.dispatch, if_pos h]

theorem Good.dispatch (hs : s.Good) (hpolled : s.polled = true) : s.dispatch.Good := by
  cases hs.stage with
  | unused _ _ _ _ _ _ hnot => exact absurd (hnot.symm.trans hpolled) nofun
  | waiting readAble hlive hasyncer hready hasyncDos hcount hcanceled hinTime =>
    obtain rfl := hready hpolled
    have heq : s.dispatch = { s with
        asyncer := ⟨some 0, some ⟨false, false⟩, true, true⟩
        polled := false
        calls := s.calls ++ [(0, "")]
        inTime := true } := by
      simp [AsyncerRun.dispatch, AsyncerRun.called, hlive, hasyncer, AsyncerObject.dispatch,
        AsyncerObject.complete, AsyncerObject.callHandler, hcanceled]
    rw [heq]
    refine ⟨hs.logged.first rfl hasyncDos rfl (iff_of_true rfl (.inr rfl)), ?_⟩
    refine .called ?_ rfl ⟨rfl, ?_⟩ hasyncDos ?_ (.inl rfl)
    · rw [hlive]
      exact nofun
    · rintro e ⟨⟩
      rfl
    · rw [timesCalled_append rfl, hcount]
      rfl
  | called hnot hused hcompleted hasyncDos hcount hwhy =>
    rcases eq_or_ne s.phase .live with hlive | hgone
    · have hinTime : (s.inTime || !s.canceled) = s.inTime := by
        rcases hwhy with h | h <;> simp [h]
      have heq : s.dispatch = { s with polled := false } := by
        simp [AsyncerRun.dispatch, AsyncerRun.called, hlive, hcompleted.dispatch, hinTime]
      rw [heq]
      exact ⟨hs.logged.of_eq rfl rfl rfl, .called hnot hused hcompleted hasyncDos hcount hwhy⟩
    · rw [dispatch_gone hgone]
      exact ⟨hs.logged.of_eq rfl rfl rfl, .called hnot hused hcompleted hasyncDos hcount hwhy⟩
  | destroying readAble hp hasyncer hasyncDos hcount =>
    rw [dispatch_gone (by rw [hp]; exact nofun)]
    exact ⟨hs.logged.of_eq rfl rfl rfl, .destroying readAble hp hasyncer hasyncDos hcount⟩
  | destroyed hp hused hasyncDos hcount =>
    rw [dispatch_gone (by rw [hp]; exact nofun)]
    exact ⟨hs.logged.of_eq rfl rfl rfl, .destroyed hp hused hasyncDos hcount⟩

theorem Good.destroy (hs : s.Good) (hlive : s.phase = .live) : s.destroy.Good := by
  cases hs.stage with
  | unused _ hused hhandler hevent hasyncDos hcalls hpolled hcanceled =>
    have heq : s.destroy = { s with phase := .destroyed } := by
      simp [AsyncerRun.destroy, AsyncerObject.destroy, AsyncerObject.callHandler, hhandler]
    rw [heq]
    exact ⟨hs.logged.of_eq rfl rfl rfl,
      .unused nofun hused hhandler hevent hasyncDos hcalls hpolled hcanceled⟩
  | waiting readAble _ hasyncer _ hasyncDos hcount _ hinTime =>
    have heq : s.destroy = { s with
        phase := .destroying, calls := s.calls ++ [(0, "Asyncer Canceled")] } := by
      simp [AsyncerRun.destroy, AsyncerObject.destroy, AsyncerObject.callHandler, hasyncer]
    rw [heq]
    refine ⟨hs.logged.first rfl hasyncDos rfl ⟨.inl, fun h => h.resolve_right (by decide)⟩,
      .destroying readAble rfl hasyncer hasyncDos ?_⟩
    rw [timesCalled_append rfl, hcount]
    rfl
  | called _ hused hcompleted hasyncDos hcount hwhy =>
    have heq : s.destroy = { s with phase := .destroyed } := by
      simp [AsyncerRun.destroy, AsyncerObject.destroy, hcompleted.done]
    rw [heq]
    exact ⟨hs.logged.of_eq rfl rfl rfl, .called nofun hused hcompleted hasyncDos hcount hwhy⟩
  | destroying _ hp | destroyed hp => exact absurd (hlive.symm.trans hp) nofun

theorem Good.destroyed (hs : s.Good) (hp : s.phase = .destroying) :
    Good { s with phase := .destroyed } := by
  refine ⟨hs.logged.of_eq rfl rfl rfl, ?_⟩
  cases hs.stage with
  | unused hnot | called hnot => exact absurd hp hnot
  | waiting _ hlive => exact absurd (hlive.symm.trans hp) nofun
  | destroying _ _ hasyncer hasyncDos hcount =>
    exact .destroyed rfl (by rw [hasyncer]) hasyncDos hcount
  | destroyed hgone => exact absurd (hgone.symm.trans hp) nofun

theorem Good.step {a : AsyncerAction} (hs : s.Good) (hG : s.CancelsOutside a)
    (hstep : s.step a = some t) : t.Good := by
  cases a with
  | asyncDo =>
    obtain ⟨hphase, ht⟩ := Option.ite_none_left_eq_some.mp hstep
    cases ht
    exact hs.asyncDo hphase
  | cancel =>
    obtain ⟨hphase, ht⟩ := Option.ite_none_left_eq_some.mp hstep
    cases ht
    exact hs.cancel hphase (hG rfl)
  | poll =>
    obtain ⟨-, ht⟩ := Option.ite_none_left_eq_some.mp hstep
    cases ht
    exact hs.poll
  | dispatch =>
    obtain ⟨hpolled, ht⟩ := Option.ite_none_right_eq_some.mp hstep
    cases ht
    exact hs.dispatch hpolled
  | destroy =>
    obtain ⟨hlive, ht⟩ := Option.ite_none_right_eq_some.mp hstep
    cases ht
    exact hs.destroy hlive
  | destroyed =>
    obtain ⟨hp, ht⟩ := Option.ite_none_right_eq_some.mp hstep
    cases ht
    exact hs.destroyed hp

/-! ## The law -/

theorem Good.law (hs : s.Good) : AsyncerLaw s where
  atMostOnce := by
    cases hs.stage with
    | unused _ _ _ _ _ hcalls => simp [timesCalled, hcalls]
    | waiting _ _ _ _ _ hcount => rw [hcount]; exact Nat.zero_le 1
    | called _ _ _ _ hcount | destroying _ _ _ _ hcount | destroyed _ _ _ hcount =>
      exact Nat.le_of_eq hcount
  once hgone hpos := by
    cases hs.stage with
    | unused _ _ _ _ hzero => exact absurd hzero (Nat.ne_of_gt hpos)
    | waiting _ hp | destroying _ hp => exact absurd (hp.symm.trans hgone) nofun
    | called _ _ _ _ hcount | destroyed _ _ _ hcount => exact hcount
  success := hs.logged.success
  later := hs.logged.later
  known := hs.logged.known

/-- The handler was called a second time, and no later step takes that back. -/
theorem step_timesCalled {a : AsyncerAction} (hstep : s.step a = some t) :
    s.timesCalled 0 ≤ t.timesCalled 0 := by
  have hadd : ∀ {u : AsyncerRun} (cs : List AsyncerCall), u.calls = s.calls ++ cs →
      s.timesCalled 0 ≤ u.timesCalled 0 := by
    intro u cs hcalls
    rw [timesCalled_append hcalls]
    exact Nat.le_add_right _ _
  have hsame : ∀ {u : AsyncerRun}, u.calls = s.calls → s.timesCalled 0 ≤ u.timesCalled 0 :=
    fun h => hadd [] (h.trans (List.append_nil _).symm)
  cases a with
  | asyncDo =>
    cases (Option.ite_none_left_eq_some.mp hstep).2
    exact hadd _ rfl
  | cancel =>
    cases (Option.ite_none_left_eq_some.mp hstep).2
    exact hadd _ rfl
  | poll =>
    cases (Option.ite_none_left_eq_some.mp hstep).2
    unfold AsyncerRun.poll
    split
    all_goals exact hsame rfl
  | dispatch =>
    cases (Option.ite_none_right_eq_some.mp hstep).2
    rcases eq_or_ne s.phase .live with hlive | hgone
    · rw [dispatch_live hlive]
      exact hadd _ rfl
    · rw [dispatch_gone hgone]
      exact hsame rfl
  | destroy =>
    cases (Option.ite_none_right_eq_some.mp hstep).2
    unfold AsyncerRun.destroy
    split
    next => exact hsame rfl
    next => exact hadd _ rfl
  | destroyed =>
    cases (Option.ite_none_right_eq_some.mp hstep).2
    exact hsame rfl

/-- A `Cancel` out of the destructor: `done_` is not set yet, and the handler is called again. -/
theorem Good.cancel_destroying (hs : s.Good) (hp : s.phase = .destroying) :
    s.cancel.timesCalled 0 = 2 := by
  cases hs.stage with
  | unused hnot | called hnot => exact absurd hp hnot
  | waiting _ hlive => exact absurd (hlive.symm.trans hp) nofun
  | destroying readAble _ hasyncer _ hcount =>
    have hcalls : s.cancel.calls = s.calls ++ [(0, "Asyncer Canceled")] := by
      rw [AsyncerRun.cancel, AsyncerRun.called, hasyncer]
      rfl
    rw [timesCalled_append hcalls, hcount]
    rfl
  | destroyed hgone => exact absurd (hgone.symm.trans hp) nofun

theorem Good.step_twice {a : AsyncerAction} (hs : s.Good) (hG : ¬ s.CancelsOutside a)
    (hstep : s.step a = some t) : 2 ≤ t.timesCalled 0 := by
  simp only [CancelsOutside, Classical.not_imp, not_not] at hG
  obtain ⟨rfl, hp⟩ := hG
  cases (Option.ite_none_left_eq_some.mp hstep).2
  exact Nat.le_of_eq (hs.cancel_destroying hp).symm

/-! ## Later calls of `AsyncDo` -/

theorem complete_used (a : AsyncerObject) (e : AsyncerEvent) (errMsg : String) :
    (a.complete e errMsg).1.used = a.used := by
  unfold AsyncerObject.complete
  dsimp only
  split
  all_goals rfl

theorem cancel_used (a : AsyncerObject) : a.cancel.1.used = a.used := by
  unfold AsyncerObject.cancel
  split
  next => rfl
  next => exact complete_used ..

/-- `used_` is set by the first `AsyncDo`. -/
def UsedByFirst (s : AsyncerRun) : Prop := s.asyncer.used = true ↔ 0 < s.asyncDos

theorem UsedByFirst.step {a : AsyncerAction} (hs : s.UsedByFirst) (hstep : s.step a = some t) :
    t.UsedByFirst := by
  cases a with
  | asyncDo =>
    cases (Option.ite_none_left_eq_some.mp hstep).2
    refine iff_of_true ?_ (Nat.succ_pos _)
    simp only [AsyncerRun.asyncDo, AsyncerRun.called, AsyncerObject.asyncDo]
    split
    next hused => exact hused
    next => exact cancel_used { s.asyncer with used := true, done := false }
  | cancel =>
    cases (Option.ite_none_left_eq_some.mp hstep).2
    simpa only [UsedByFirst, AsyncerRun.cancel, AsyncerRun.called, cancel_used] using hs
  | poll =>
    cases (Option.ite_none_left_eq_some.mp hstep).2
    unfold AsyncerRun.poll
    split
    all_goals exact hs
  | dispatch =>
    cases (Option.ite_none_right_eq_some.mp hstep).2
    rcases eq_or_ne s.phase .live with hlive | hgone
    · have hused : s.asyncer.dispatch.1.used = s.asyncer.used := by
        unfold AsyncerObject.dispatch
        split
        next => exact complete_used ..
        next => rfl
      rw [dispatch_live hlive]
      simpa only [UsedByFirst, AsyncerRun.called, hused] using hs
    · rw [dispatch_gone hgone]
      exact hs
  | destroy =>
    cases (Option.ite_none_right_eq_some.mp hstep).2
    unfold AsyncerRun.destroy
    split
    all_goals exact hs
  | destroyed =>
    cases (Option.ite_none_right_eq_some.mp hstep).2
    exact hs

theorem UsedByFirst.onlyRefuses (hs : s.UsedByFirst) (a : AsyncerAction) : s.OnlyRefuses a := by
  rintro rfl hpos t hstep
  cases (Option.ite_none_left_eq_some.mp hstep).2
  exact asyncDo_used (hs.mpr hpos)

/-- A run keeps the law exactly if its handlers do not call `Cancel` out of the destructor. In every
run a later `AsyncDo` only calls its own handler, at once. -/
theorem asyncerLaw_iff {as : List AsyncerAction}
    (hrun : ((system done).run (new done) as).isSome) :
    ((system done).AllStates AsyncerLaw (new done) as ↔
        (system done).AllSteps CancelsOutside (new done) as) ∧
      (system done).AllSteps OnlyRefuses (new done) as := by
  constructor
  · refine System.allStates_iff_of_split (P := Good) (Q := fun s => 2 ≤ s.timesCalled 0) good_new
      (fun _ _ _ hs ha hstep => hs.step ha hstep)
      (fun _ _ _ hs ha hstep => hs.step_twice ha hstep)
      (fun _ _ _ htwice hstep => Nat.le_trans htwice (step_timesCalled hstep))
      (fun _ hs => hs.law) (fun _ htwice hlaw => ?_) hrun
    exact absurd hlaw.atMostOnce (Nat.not_le.mpr htwice)
  · exact System.AllSteps.trivial.imp (P := UsedByFirst) (by simp [UsedByFirst, new,
      AsyncerObject.new]) (fun s a t hs _ hstep => hs.step hstep) fun s a hs _ => hs.onlyRefuses a

/-- `Cancel` comes first and has no effect, the handler cancels the asyncer, and a later `AsyncDo`
fails. -/
def cancelAround : List AsyncerAction :=
  [.cancel, .asyncDo, .poll, .dispatch, .cancel, .asyncDo, .destroy]

theorem asyncerLaw_iff_cancelAround :
    (system true).AllStates AsyncerLaw (new true) cancelAround :=
  (asyncerLaw_iff (by decide)).1.mpr (by decide)

/-- The asyncer is destroyed before the loop has run, and the handler cancels it. -/
def cancelInDestructor : List AsyncerAction := [.asyncDo, .destroy, .cancel]

theorem asyncerLaw_fails :
    ¬ (system false).AllStates AsyncerLaw (new false) cancelInDestructor := by
  intro hlaw
  have hend : ((system false).run (new false) cancelInDestructor).map AsyncerRun.calls =
      some [(0, "Asyncer Canceled"), (0, "Asyncer Canceled")] := by decide
  obtain ⟨s, hrun, hcalls⟩ := Option.map_eq_some_iff.mp hend
  have honce := (hlaw.last hrun).atMostOnce
  rw [timesCalled, hcalls] at honce
  exact absurd honce (by decide)

end AsyncerRun

end Sheep
