import Sheep.Coroutine.SlotReuse
import Sheep.Lib.Contexts
import Sheep.Lib.Simulation

/-!
# How coroutines switch

`CoroutineInfo` at the level of `jump_fcontext`. Every `registerFunc` makes a stack with a context
at its top, jumps there and comes back from the first jump of `initContext`; `switchTo` and
`switchBack` jump between the stack of `run` and that of a coroutine through `ctx_` and `ctxFrom_`
of its slot. Which coroutine switches back is read from the `thread_local` `currentCoro`, which
nobody resets, and which slot is ending from the local variable of `initContext` on its stack.

`contextRun coroNum` is a scheduler that switches in this way, with threads that add coroutines. It
asks nobody about the state of a coroutine: what a jump comes to is what its cell holds.
`contexts_refine`: run for run it does what `slotReuse coroNum` says, where a coroutine is resumed
and switches back as a call and its return, and each thread runs on the stack that this takes.
-/

namespace Sheep

inductive Stack
  /-- the stack that a thread was started on -/
  | thread (t : Nat)
  /-- the stack of the `n`-th `registerFunc` -/
  | coro (n : Nat)
  deriving DecidableEq, Repr

/-- Where a stack stands that nobody runs on. -/
inductive Point
  /-- `make_fcontext`: before the first line of `initContext` -/
  | initContext
  /-- in the first jump of `initContext`, before `func_` -/
  | started
  /-- in the last jump of `initContext`, before `assert(false)` -/
  | ended
  | registerFunc
  | switchTo
  | switchBack
  deriving DecidableEq, Repr

/-- An `fcontext_t`: the one that `make_fcontext` puts on the `n`-th stack, which `ctx_` of a slot
points to, or `ctxFrom_` of a slot. -/
inductive Cell
  | ctx (n : Nat)
  | ctxFrom (c : Nat)
  deriving DecidableEq, Repr

structure ContextRun where
  /-- lists and queues; the status of a coroutine is ghost -/
  slot : SlotRun
  /-- thread `0` is the thread of `run` -/
  contexts : Contexts Nat Stack Point Cell
  /-- `ctx_` of each slot, if it has been set -/
  ctx : Nat → Option Nat
  /-- the local variable `info` of `initContext` on each stack -/
  info : Nat → Nat
  /-- how many stacks have been allocated -/
  allocs : Nat
  /-- `currentCoro` of the thread of `run` -/
  currentCoro : Option Nat

inductive ContextAction
  /-- a step of the scheduler, or an `addCoroutine` of the code that runs on its thread -/
  | sched (a : SchedulerAction)
  /-- `addCoroutine` on another thread -/
  | addCoroutine (t : Nat)
  | endFunc
  /-- the last jump of `initContext` -/
  | switchBack
  deriving DecidableEq, Repr

theorem ctx_ne_ctxFrom (n c : Nat) : Cell.ctx n ≠ .ctxFrom c := nofun

namespace ContextRun

def setSched (s : ContextRun) (sched : Scheduler) : ContextRun :=
  { s with slot := { s.slot with sched := sched } }

/-- No stack has been allocated, and every thread runs on its own. -/
def init (coroNum : Nat) : ContextRun :=
  ⟨.init coroNum, ⟨.thread, fun _ => none, fun _ => none, 0⟩, fun _ => none, fun _ => 0, 0, none⟩

/-- `CoroutineInfo::registerFunc` on the thread `t`: the jump to the new stack, and the first jump
of `initContext`. -/
def registerFunc (s : ContextRun) (t info : Nat) : Option ContextRun :=
  let ctx := Function.update s.ctx info (some s.allocs)
  let made := s.contexts.make (.ctx s.allocs) (.coro s.allocs) .initContext
  match made.jump t (.ctxFrom info) (.ctx s.allocs) .registerFunc with
  | some (.initContext, contexts) =>
    match contexts.jump t (.ctx s.allocs) (.ctxFrom info) .started with
    | some (.registerFunc, contexts) =>
      some { s with
        contexts := contexts
        ctx := ctx
        info := Function.update s.info s.allocs info
        allocs := s.allocs + 1 }
    | _ => none
  | _ => none

/-- `CoroutineInfo::switchTo`. Who comes to the end of `initContext` runs into `assert(false)`. -/
def switchTo (s : ContextRun) (c : Nat) : Option ContextRun :=
  (s.ctx c).bind fun ctx =>
    match s.contexts.jump 0 (.ctxFrom c) (.ctx ctx) .switchTo with
    | some (.started, contexts) | some (.switchBack, contexts) =>
      some { s.setSched { s.slot.sched.setStatus c .running with currentCoro := some c } with
        contexts := contexts
        currentCoro := some c }
    | _ => none

/-- A jump from the stack of a coroutine to that of `run`, through the slot `cur`. -/
def jumpBack (s : ContextRun) (cur : Nat) (p : Point) : Option ContextRun :=
  (s.ctx cur).bind fun ctx =>
    match s.contexts.jump 0 (.ctx ctx) (.ctxFrom cur) p with
    | some (.switchTo, contexts) => some { s with contexts := contexts }
    | _ => none

/-- `CoroutineInfo::switchBack`, after `f` has put the coroutine into another list. -/
def switchBack (s : ContextRun) (f : Scheduler → Nat → Scheduler) : Option ContextRun :=
  match s.contexts.active 0 with
  | .thread _ => none
  | .coro _ => s.currentCoro.bind fun cur =>
    (s.setSched (f s.slot.sched cur)).jumpBack cur .switchBack

/-- The next step of `run`. -/
def next (s : ContextRun) : Option ContextRun :=
  match s.slot.sched.pc with
  | .wakeUpSleep => some (s.setSched { s.slot.sched.wakeUpSleep with pc := .drain })
  | .drain =>
    some (s.setSched { s.slot.sched.drain with pc := .resuming s.slot.sched.drain.resumeList })
  | .resuming [] => some (s.setSched { s.slot.sched with pc := .yielding s.slot.sched.yieldList })
  | .resuming (c :: rest) => (s.setSched { s.slot.sched with pc := .resuming rest }).switchTo c
  | .yielding [] => some (s.setSched { s.slot.sched with pc := .wakeUpSleep })
  | .yielding (c :: rest) => (s.setSched { s.slot.sched with pc := .yielding rest }).switchTo c

/-- `CoroutineScheduler::addCoroutine` on the thread `t`, under `mtx_`. -/
def addCoroutine (s : ContextRun) (t : Nat) : Option ContextRun :=
  match s.slot.sched.freeList with
  | [] => some s
  | info :: _ => (s.registerFunc t info).map fun s =>
    s.setSched ((s.slot.sched.moveToYield info).setStatus info .ready)

def sched (coroNum : Nat) (s : ContextRun) : SchedulerAction → Option ContextRun
  | .clock now => (s.slot.sched.stepAny coroNum (.clock now)).map s.setSched
  | .resume c => (s.slot.sched.stepAny coroNum (.resume c)).map s.setSched
  | .addCoroutine => s.addCoroutine 0
  | .next => if s.contexts.active 0 = .thread 0 then s.next else none
  | .yield => s.switchBack fun sched cur => sched.yield cur
  | .suspend => s.switchBack fun sched cur => sched.suspend cur .suspended
  | .sleep ms => s.switchBack fun sched cur => sched.sleep cur ms
  | .finish => none

/-- `endFunc_`, for the slot that `initContext` was called with. -/
def endFunc (s : ContextRun) : Option ContextRun :=
  match s.contexts.active 0 with
  | .thread _ => none
  | .coro n => some { s with slot := ⟨s.slot.sched.moveToFree (s.info n), some (s.info n)⟩ }

/-- The last jump of `initContext`. -/
def lastJump (s : ContextRun) : Option ContextRun :=
  match s.contexts.active 0 with
  | .thread _ => none
  | .coro n => (s.jumpBack (s.info n) .ended).map fun t =>
    { t with slot := ⟨(t.slot.sched.setStatus (s.info n) .free).switchBack, none⟩ }

/-- Between `endFunc_` and the last jump, `initContext` does nothing else. -/
def step (coroNum : Nat) (s : ContextRun) : ContextAction → Option ContextRun
  | .sched a => if s.slot.canStep a then s.sched coroNum a else none
  | .addCoroutine t => s.addCoroutine (t + 1)
  | .endFunc => if s.slot.ending = none then s.endFunc else none
  | .switchBack => if s.slot.ending.isSome then s.lastJump else none

end ContextRun

/-- A scheduler whose coroutines switch by `jump_fcontext`. -/
def contextRun (coroNum : Nat) : System ContextRun ContextAction :=
  ⟨.init coroNum, ContextRun.step coroNum⟩

/-- The same step, when calls and returns are all one sees of a switch. -/
def ContextAction.slot : ContextAction → SlotAction
  | .sched a => .sched a
  | .addCoroutine _ => .sched .addCoroutine
  | .endFunc => .endFunc
  | .switchBack => .switchBack

/-- Every thread runs where it should: other threads and `run` on their own stacks, a coroutine on
the stack that its slot was last registered with. -/
structure ContextRun.OnItsStack (s : ContextRun) : Prop where
  others : ∀ t, t ≠ 0 → s.contexts.active t = .thread t
  run : s.slot.sched.currentCoro = none → s.contexts.active 0 = .thread 0
  coro : ∀ c, s.slot.sched.currentCoro = some c → s.slot.sched.status c = .running →
    s.currentCoro = some c ∧ ∃ n, s.ctx c = some n ∧ s.contexts.active 0 = .coro n

/-! ## The invariant -/

/-- A coroutine that stands here can be switched to. -/
def Point.resumable : Point → Bool
  | .started | .switchBack => true
  | .initContext | .ended | .registerFunc | .switchTo => false

namespace ContextRun

/-- The coroutine of the slot `c` runs on the `n`-th stack, which the slot names, and `ctxFrom_`
says where `run` is. -/
structure Runs (s : ContextRun) (c n : Nat) : Prop where
  status : s.slot.sched.status c = .running
  ctx : s.ctx c = some n
  from_ : s.contexts.Fresh (.ctxFrom c) (.thread 0) .switchTo

/-- The slot `c` has been taken again while its coroutine ends on the `n`-th stack. -/
structure Taken (s : ContextRun) (c n : Nat) : Prop where
  ending : s.slot.ending = some c
  status : s.slot.sched.status c = .ready
  ctx : s.ctx c ≠ some n
  from_ : s.contexts.Stale (.ctxFrom c)

/-- The invariant: what the contexts have to do with the status of the slots. -/
structure Coherent (s : ContextRun) : Prop where
  dated : s.contexts.Dated
  others : ∀ t, t ≠ 0 → s.contexts.active t = .thread t
  allocated : ∀ c n, s.ctx c = some n → n < s.allocs ∧ s.info n = c
  run : s.slot.sched.currentCoro = none → s.contexts.active 0 = .thread 0 ∧ s.slot.ending = none
  coro : ∀ c, s.slot.sched.currentCoro = some c → s.currentCoro = some c ∧
    ∃ n < s.allocs, s.contexts.active 0 = .coro n ∧ s.info n = c ∧ (s.Runs c n ∨ s.Taken c n)
  ending : ∀ c, s.slot.ending = some c → s.slot.sched.currentCoro = some c
  running : ∀ c, s.slot.sched.status c = .running → s.slot.sched.currentCoro = some c
  waits : ∀ c, s.slot.sched.status c ≠ .free → s.slot.sched.status c ≠ .running →
    ∃ n p, s.ctx c = some n ∧ s.contexts.Fresh (.ctx n) (.coro n) p ∧ p.resumable
  ended : ∀ c n, s.slot.sched.status c = .free → s.ctx c = some n →
    ∃ saved, s.contexts.cell (.ctx n) = some saved ∧ saved.point = .ended
  freeList : ∀ c ∈ s.slot.sched.freeList, s.slot.sched.status c = .free ∨
    (s.slot.ending = some c ∧ s.slot.sched.status c = .running)

/-- The slot state and the context state after a step belong together. -/
def Refines (s : ContextRun) (slot : SlotRun) : Prop := Coherent s ∧ s.slot = slot

namespace Coherent

variable {coroNum c t : Nat} {s : ContextRun} {sched : Scheduler}

theorem init (coroNum : Nat) : Coherent (.init coroNum) where
  dated := nofun
  others := fun _ _ => rfl
  allocated := nofun
  run := fun _ => ⟨rfl, rfl⟩
  coro := nofun
  ending := nofun
  running := nofun
  waits := fun _ h => absurd rfl h
  ended := nofun
  freeList := fun _ _ => .inl rfl

/-- A step that switches nobody, and takes slots out of the free list at most. -/
theorem setSched (h : Coherent s) (hcurrent : sched.currentCoro = s.slot.sched.currentCoro)
    (hstatus : sched.status = s.slot.sched.status)
    (hfree : ∀ c ∈ sched.freeList, c ∈ s.slot.sched.freeList) : Coherent (s.setSched sched) := by
  obtain ⟨hdated, hothers, hallocated, hrun, hcoro, hending, hrunning, hwaits, hended, hlist⟩ := h
  rw [← hcurrent] at hrun hcoro hending hrunning
  rw [← hstatus] at hrunning hwaits hended hlist
  refine ⟨hdated, hothers, hallocated, hrun, fun c hc => ?_, hending, hrunning, hwaits, hended,
    fun c hc => hlist c (hfree c hc)⟩
  obtain ⟨hcur, n, hn, hactive, hinfo, hruns⟩ := hcoro c hc
  refine ⟨hcur, n, hn, hactive, hinfo, hruns.imp (fun h => ?_) fun h => ?_⟩
  · exact ⟨(congrFun hstatus c).trans h.status, h.ctx, h.from_⟩
  · exact ⟨h.ending, (congrFun hstatus c).trans h.status, h.ctx, h.from_⟩

/-- No thread runs on a stack that has not been allocated. -/
theorem active_ne (h : Coherent s) (t : Nat) : .coro s.allocs ≠ s.contexts.active t := by
  intro heq
  rcases eq_or_ne t 0 with rfl | ht
  · cases hcur : s.slot.sched.currentCoro with
    | none => cases heq.trans (h.run hcur).1
    | some c =>
      obtain ⟨-, n, hn, hactive, -⟩ := h.coro c hcur
      cases heq.trans hactive
      exact Nat.lt_irrefl _ hn
  · cases heq.trans (h.others t ht)

/-- Two slots do not name one stack. -/
theorem ctx_inj (h : Coherent s) {d n : Nat} (hc : s.ctx c = some n) (hd : s.ctx d = some n) :
    c = d :=
  (h.allocated c n hc).2.symm.trans (h.allocated d n hd).2

end Coherent

/-! ## `addCoroutine` -/

/-- The state after `registerFunc`. -/
def registered (s : ContextRun) (t info : Nat) : ContextRun :=
  { s with
    contexts := s.contexts.started t (.ctx s.allocs) (.ctxFrom info) (.coro s.allocs) .initContext
      .registerFunc .started
    ctx := Function.update s.ctx info (some s.allocs)
    info := Function.update s.info s.allocs info
    allocs := s.allocs + 1 }

theorem registerFunc_eq {s : ContextRun} (h : Coherent s) (t info : Nat) :
    s.registerFunc t info = some (s.registered t info) := by
  have hcell := ctx_ne_ctxFrom s.allocs info
  unfold registerFunc
  simp only [Contexts.jump_make hcell (h.active_ne t), Contexts.jump_back hcell (h.active_ne t)]
  rfl

theorem fresh_registered {s : ContextRun} {t info : Nat} {cell : Cell} {stack : Stack} {p : Point}
    (h : s.contexts.Fresh cell stack p) (hown : cell ≠ .ctx s.allocs) (hfrom : cell ≠ .ctxFrom info)
    (hstack : stack ≠ .coro s.allocs) (hactive : stack ≠ s.contexts.active t) :
    (s.registered t info).contexts.Fresh cell stack p :=
  Contexts.Fresh.started h hown hfrom hstack hactive

theorem registered_cell {s : ContextRun} {t info : Nat} {cell : Cell} (hown : cell ≠ .ctx s.allocs)
    (hfrom : cell ≠ .ctxFrom info) :
    (s.registered t info).contexts.cell cell = s.contexts.cell cell :=
  Contexts.started_cell hown hfrom

namespace Coherent

variable {c n t info : Nat} {s : ContextRun}

/-- The stack of a coroutine that does not run is not the one of a thread. -/
theorem coro_ne_active (h : Coherent s) (hctx : s.ctx c = some n)
    (hst : s.slot.sched.status c ≠ .running) (t : Nat) : .coro n ≠ s.contexts.active t := by
  intro heq
  rcases eq_or_ne t 0 with rfl | ht
  · cases hcur : s.slot.sched.currentCoro with
    | none => cases heq.trans (h.run hcur).1
    | some d =>
      obtain ⟨-, m, -, hactive, hinfo, hruns⟩ := h.coro d hcur
      cases heq.trans hactive
      obtain rfl : d = c := hinfo.symm.trans (h.allocated c n hctx).2
      rcases hruns with hruns | htaken
      · exact hst hruns.status
      · exact htaken.ctx hctx
  · cases heq.trans (h.others t ht)

/-- While a coroutine runs, nobody runs on the stack of `run`. -/
theorem thread_ne_active (h : Coherent s) (hcur : s.slot.sched.currentCoro = some c) (t : Nat) :
    .thread 0 ≠ s.contexts.active t := by
  intro heq
  rcases eq_or_ne t 0 with rfl | ht
  · obtain ⟨-, m, -, hactive, -⟩ := h.coro c hcur
    cases heq.trans hactive
  · cases heq.trans (h.others t ht)
    exact ht rfl

theorem addCoroutine (h : Coherent s) (hinfo : info ∈ s.slot.sched.freeList) (t : Nat) :
    Coherent ((s.registered t info).setSched
      ((s.slot.sched.moveToYield info).setStatus info .ready)) where
  dated := h.dated.started
  others := fun u hu => by
    show (s.contexts.started ..).active u = _
    rw [Contexts.started_active]
    exact h.others u hu
  allocated := fun c n (hc : Function.update s.ctx info (some s.allocs) c = some n) => by
    show n < s.allocs + 1 ∧ Function.update s.info s.allocs info n = c
    rcases eq_or_ne c info with rfl | hci
    · rw [Function.update_self] at hc
      cases hc
      exact ⟨Nat.lt_succ_self _, Function.update_self ..⟩
    · rw [Function.update_of_ne hci] at hc
      obtain ⟨hn, hinfo⟩ := h.allocated c n hc
      exact ⟨Nat.lt_succ_of_lt hn, (Function.update_of_ne (Nat.ne_of_lt hn) ..).trans hinfo⟩
  run := fun hcur => by
    show (s.contexts.started ..).active 0 = _ ∧ s.slot.ending = none
    rw [Contexts.started_active]
    exact h.run hcur
  coro := fun c (hcur : s.slot.sched.currentCoro = some c) => by
    obtain ⟨hcurrent, n, hn, hactive, hinfon, hruns⟩ := h.coro c hcur
    refine ⟨hcurrent, n, Nat.lt_succ_of_lt hn, ?_,
      (Function.update_of_ne (Nat.ne_of_lt hn) ..).trans hinfon, ?_⟩
    · show (s.contexts.started ..).active 0 = _
      rwa [Contexts.started_active]
    rcases eq_or_ne c info with hci | hci
    · -- its coroutine runs, so it is ending, and the slot is taken from it
      subst hci
      rcases hruns with hruns | htaken
      · rcases h.freeList c hinfo with hfree | ⟨hending, -⟩
        · cases hfree.symm.trans hruns.status
        refine .inr ⟨hending, Function.update_self .., ?_, Contexts.stale_started nofun⟩
        show Function.update s.ctx c (some s.allocs) c ≠ some n
        rw [Function.update_self]
        exact fun heq => Nat.ne_of_lt hn (Option.some.inj heq).symm
      · rcases h.freeList c hinfo with hst | ⟨-, hst⟩ <;> cases hst.symm.trans htaken.status
    · refine hruns.imp (fun hruns => ?_) fun htaken => ?_
      · refine ⟨(Function.update_of_ne hci ..).trans hruns.status,
          (Function.update_of_ne hci ..).trans hruns.ctx, ?_⟩
        exact fresh_registered hruns.from_ nofun (fun heq => hci (Cell.ctxFrom.inj heq)) nofun
          (h.thread_ne_active hcur t)
      · refine ⟨htaken.ending, (Function.update_of_ne hci ..).trans htaken.status, ?_, ?_⟩
        · show Function.update s.ctx info (some s.allocs) c ≠ some n
          rw [Function.update_of_ne hci]
          exact htaken.ctx
        · exact htaken.from_.started h.dated nofun fun heq => hci (Cell.ctxFrom.inj heq)
  ending := h.ending
  running := fun c (hst : Function.update s.slot.sched.status info .ready c = .running) => by
    rcases eq_or_ne c info with rfl | hci
    · rw [Function.update_self] at hst
      cases hst
    · rw [Function.update_of_ne hci] at hst
      exact h.running c hst
  waits := fun c (hfree : Function.update s.slot.sched.status info .ready c ≠ .free)
      (hrun : Function.update s.slot.sched.status info .ready c ≠ .running) => by
    rcases eq_or_ne c info with rfl | hci
    · exact ⟨s.allocs, .started, Function.update_self .., Contexts.fresh_started (h.active_ne t),
        rfl⟩
    · rw [Function.update_of_ne hci] at hfree hrun
      obtain ⟨n, p, hctx, hfresh, hp⟩ := h.waits c hfree hrun
      have hn : n ≠ s.allocs := Nat.ne_of_lt (h.allocated c n hctx).1
      refine ⟨n, p, (Function.update_of_ne hci ..).trans hctx, ?_, hp⟩
      exact fresh_registered hfresh (fun heq => hn (Cell.ctx.inj heq)) nofun
        (fun heq => hn (Stack.coro.inj heq)) (h.coro_ne_active hctx hrun t)
  ended := fun c n (hst : Function.update s.slot.sched.status info .ready c = .free)
      (hctx : Function.update s.ctx info (some s.allocs) c = some n) => by
    rcases eq_or_ne c info with rfl | hci
    · rw [Function.update_self] at hst
      cases hst
    · rw [Function.update_of_ne hci] at hst hctx
      obtain ⟨saved, hcell, hp⟩ := h.ended c n hst hctx
      have hn : n ≠ s.allocs := Nat.ne_of_lt (h.allocated c n hctx).1
      refine ⟨saved, ?_, hp⟩
      exact (registered_cell (fun heq => hn (Cell.ctx.inj heq)) nofun).trans hcell
  freeList := fun c hc => by
    obtain ⟨hc, hne⟩ := List.mem_filter.mp hc
    have hci : c ≠ info := of_decide_eq_true hne
    show Function.update s.slot.sched.status info .ready c = .free ∨
      (s.slot.ending = some c ∧ Function.update s.slot.sched.status info .ready c = .running)
    rw [Function.update_of_ne hci]
    exact h.freeList c hc

/-! ## Switching -/

theorem switched (h : Coherent s) (hcur : s.slot.sched.currentCoro = none)
    (hctx : s.ctx c = some n) (hfree : s.slot.sched.status c ≠ .free) :
    Coherent { s.setSched { s.slot.sched.setStatus c .running with currentCoro := some c } with
      contexts := s.contexts.jumped 0 (.ctxFrom c) .switchTo (.coro n)
      currentCoro := some c } := by
  obtain ⟨hactive, hending⟩ := h.run hcur
  have hnot : ∀ d, s.slot.sched.status d ≠ .running := fun d hd => by
    cases hcur.symm.trans (h.running d hd)
  exact {
    dated := h.dated.jumped 0 (.ctxFrom c) .switchTo (.coro n)
    others := fun t ht => (Contexts.jumped_active_of_ne ht).trans (h.others t ht)
    allocated := h.allocated
    run := fun hc => absurd hc (Option.some_ne_none c)
    coro := by
      rintro _ ⟨⟩
      obtain ⟨hn, hinfo⟩ := h.allocated c n hctx
      have hfresh := Contexts.fresh_jumped (m := s.contexts) (t := 0) (q := Point.switchTo)
        (k := .coro n) (.ctxFrom c) (by rw [hactive]; exact nofun)
      rw [hactive] at hfresh
      have hst : Function.update s.slot.sched.status c .running c = .running :=
        Function.update_self ..
      exact ⟨rfl, n, hn, Contexts.jumped_active_self, hinfo, .inl ⟨hst, hctx, hfresh⟩⟩
    ending := fun d hd => by cases hending.symm.trans hd
    running := fun d (hd : Function.update s.slot.sched.status c .running d = .running) => by
      rcases eq_or_ne d c with hdc | hdc
      · exact congrArg some hdc.symm
      · rw [Function.update_of_ne hdc] at hd
        exact absurd hd (hnot d)
    waits := fun d (hdfree : Function.update s.slot.sched.status c .running d ≠ .free)
        (hdrun : Function.update s.slot.sched.status c .running d ≠ .running) => by
      have hdc : d ≠ c := by
        rintro rfl
        exact hdrun (Function.update_self ..)
      rw [Function.update_of_ne hdc] at hdfree
      obtain ⟨m, p, hm, hfresh, hp⟩ := h.waits d hdfree (hnot d)
      refine ⟨m, p, hm, hfresh.jumped (ctx_ne_ctxFrom m c) (h.coro_ne_active hm (hnot d) 0) ?_, hp⟩
      rintro ⟨⟩
      exact hdc (h.ctx_inj hm hctx)
    ended := fun d m (hd : Function.update s.slot.sched.status c .running d = .free) hm => by
      have hdc : d ≠ c := by
        rintro rfl
        rw [Function.update_self] at hd
        cases hd
      rw [Function.update_of_ne hdc] at hd
      obtain ⟨saved, hcell, hp⟩ := h.ended d m hd hm
      exact ⟨saved, (Contexts.jumped_cell_of_ne (ctx_ne_ctxFrom m c)).trans hcell, hp⟩
    freeList := fun d hd => by
      have hst := (h.freeList d hd).resolve_right fun hd => hnot d hd.2
      refine .inl ((Function.update_of_ne ?_ ..).trans hst)
      rintro rfl
      exact hfree hst }

/-- `switchTo` comes back from the jump in the coroutine exactly if it has not finished. -/
theorem switchTo (h : Coherent s) (hcur : s.slot.sched.currentCoro = none) (c : Nat) :
    Option.Rel Refines (s.switchTo c)
      ((s.slot.sched.switchTo c).map fun sched => { s.slot with sched := sched }) := by
  unfold ContextRun.switchTo Scheduler.switchTo
  have hactive := (h.run hcur).1
  by_cases hfree : s.slot.sched.status c = .free
  · rw [if_pos hfree]
    cases hctx : s.ctx c with
    | none => exact .none
    | some n =>
      obtain ⟨saved, hcell, hp⟩ := h.ended c n hfree hctx
      rw [Option.bind_some]
      cases hjump : s.contexts.jump 0 (.ctxFrom c) (.ctx n) .switchTo with
      | none => exact .none
      | some r =>
        have hr : r.1 = .ended := (Contexts.jump_point hcell (ctx_ne_ctxFrom n c) hjump).trans hp
        obtain ⟨q, m⟩ := r
        cases hr
        exact .none
  · rw [if_neg hfree]
    have hrun : s.slot.sched.status c ≠ .running := fun hst => by
      cases hcur.symm.trans (h.running c hst)
    obtain ⟨n, p, hctx, hfresh, hp⟩ := h.waits c hfree hrun
    rw [hctx, Option.bind_some,
      Contexts.jump_fresh hfresh (ctx_ne_ctxFrom n c) (by rw [hactive]; exact nofun)]
    have hnew := h.switched hcur hctx hfree
    cases p with
    | started | switchBack => exact .some ⟨hnew, rfl⟩
    | initContext | ended | registerFunc | switchTo => cases hp

/-- The coroutine of the slot `c` jumps back to `run`, and stands at `p` from then on. -/
theorem left {sched : Scheduler} {p : Point} (h : Coherent s) (st : CoroStatus)
    (hcur : s.slot.sched.currentCoro = some c) (hruns : s.Runs c n)
    (hactive : s.contexts.active 0 = .coro n) (hnone : sched.currentCoro = none)
    (hstatus : sched.status = Function.update s.slot.sched.status c st) (hst : st ≠ .running)
    (hended : st = .free → p = .ended) (hwaits : st ≠ .free → p.resumable)
    (hfree : ∀ d ∈ sched.freeList, d ∈ s.slot.sched.freeList ∧ (d = c → st = .free)) :
    Coherent { s with
      slot := ⟨sched, none⟩
      contexts := s.contexts.jumped 0 (.ctx n) p (.thread 0) } := by
  have hone : ∀ d, s.slot.sched.status d = .running → d = c := fun d hd =>
    Option.some.inj ((h.running d hd).symm.trans hcur)
  have hself : sched.status c = st := by rw [hstatus, Function.update_self]
  have hother : ∀ {d}, d ≠ c → sched.status d = s.slot.sched.status d := fun hdc => by
    rw [hstatus, Function.update_of_ne hdc]
  have hcell : ∀ {d m}, d ≠ c → s.ctx d = some m → m ≠ n := by
    rintro d m hdc hm rfl
    exact hdc (h.ctx_inj hm hruns.ctx)
  exact {
    dated := h.dated.jumped 0 (.ctx n) p (.thread 0)
    others := fun t ht => (Contexts.jumped_active_of_ne ht).trans (h.others t ht)
    allocated := h.allocated
    run := fun _ => ⟨Contexts.jumped_active_self, rfl⟩
    coro := fun d hd => absurd (hnone.symm.trans hd) (Option.some_ne_none d).symm
    ending := nofun
    running := fun d hd => by
      rcases eq_or_ne d c with rfl | hdc
      · exact absurd (hself.symm.trans hd) hst
      · exact absurd (hone d ((hother hdc).symm.trans hd)) hdc
    waits := fun d hdfree hdrun => by
      rcases eq_or_ne d c with rfl | hdc
      · have hfresh := Contexts.fresh_jumped (m := s.contexts) (t := 0) (q := p)
          (k := .thread 0) (.ctx n) (by rw [hactive]; exact nofun)
        rw [hactive] at hfresh
        exact ⟨n, p, hruns.ctx, hfresh, hwaits fun hst => hdfree (hself.trans hst)⟩
      · have hdrun' : s.slot.sched.status d ≠ .running := fun hd => hdc (hone d hd)
        obtain ⟨m, q, hm, hfresh, hq⟩ :=
          h.waits d (fun hd => hdfree ((hother hdc).trans hd)) hdrun'
        exact ⟨m, q, hm, hfresh.jumped (fun heq => hcell hdc hm (Cell.ctx.inj heq))
          (h.coro_ne_active hm hdrun' 0) nofun, hq⟩
    ended := fun d m hd hm => by
      rcases eq_or_ne d c with rfl | hdc
      · obtain rfl : m = n := Option.some.inj (Eq.trans hm.symm hruns.ctx)
        exact ⟨_, Function.update_self .., hended (hself.symm.trans hd)⟩
      · obtain ⟨saved, hsaved, hp⟩ := h.ended d m ((hother hdc).symm.trans hd) hm
        refine ⟨saved, ?_, hp⟩
        exact (Contexts.jumped_cell_of_ne fun heq => hcell hdc hm (Cell.ctx.inj heq)).trans hsaved
    freeList := fun d hd => by
      obtain ⟨hd, hdc⟩ := hfree d hd
      rcases eq_or_ne d c with heq | heq
      · exact .inl ((heq ▸ hself).trans (hdc heq))
      · refine .inl ((hother heq).trans ((h.freeList d hd).resolve_right fun hrun => ?_))
        exact heq (hone d hrun.2) }

/-- Who runs on the stack of its slot jumps back to `run`. -/
theorem jumpBack_eq (hruns : s.Runs c n) (hactive : s.contexts.active 0 = .coro n) (p : Point)
    (slot : SlotRun) : { s with slot := slot }.jumpBack c p =
      some { s with slot := slot, contexts := s.contexts.jumped 0 (.ctx n) p (.thread 0) } := by
  unfold jumpBack
  rw [hruns.ctx, Option.bind_some, Contexts.jump_fresh hruns.from_ (ctx_ne_ctxFrom n c).symm
    (by rw [hactive]; exact nofun)]

/-- `yield`, `suspend` and `sleep`: the coroutine that jumps back is the current one. -/
theorem switchBack {f : Scheduler → Nat → Scheduler} (h : Coherent s) (st : CoroStatus)
    (hending : s.slot.ending = none) (hst : st ≠ .running) (hfree : st ≠ .free)
    (hnone : ∀ c, (f s.slot.sched c).currentCoro = none)
    (hstatus : ∀ c, (f s.slot.sched c).status = Function.update s.slot.sched.status c st)
    (hlist : ∀ c, (f s.slot.sched c).freeList = s.slot.sched.freeList.filter (· ≠ c)) :
    Option.Rel Refines (s.switchBack f) ((s.slot.sched.currentCoro.map (f s.slot.sched)).map
      fun sched => { s.slot with sched := sched }) := by
  unfold ContextRun.switchBack
  cases hcur : s.slot.sched.currentCoro with
  | none =>
    rw [(h.run hcur).1]
    exact .none
  | some c =>
    obtain ⟨hcurrent, n, -, hactive, -, hruns⟩ := h.coro c hcur
    rcases hruns with hruns | htaken
    · rw [hactive, hcurrent]
      have hback := jumpBack_eq hruns hactive .switchBack
        { s.slot with sched := f s.slot.sched c }
      simp only [Option.bind_some, Option.map_some, ContextRun.setSched, hback]
      rw [hending]
      refine .some ⟨h.left st hcur hruns hactive (hnone c) (hstatus c) hst (fun h => absurd h hfree)
        (fun _ => rfl) fun d hd => ?_, rfl⟩
      rw [hlist] at hd
      obtain ⟨hd, hdc⟩ := List.mem_filter.mp hd
      exact ⟨hd, fun heq => absurd heq (of_decide_eq_true hdc)⟩
    · exact absurd (hending.symm.trans htaken.ending) (Option.some_ne_none c).symm

/-- The last jump comes back to `run` exactly if the slot has not been taken in the meantime. -/
theorem lastJump (h : Coherent s) (hc : s.slot.ending = some c) :
    Option.Rel Refines s.lastJump
      (if s.slot.sched.status c = .running then
        some ⟨(s.slot.sched.setStatus c .free).switchBack, none⟩
      else none) := by
  unfold ContextRun.lastJump
  have hcur := h.ending c hc
  obtain ⟨-, n, -, hactive, hinfo, hruns⟩ := h.coro c hcur
  rw [hactive]
  simp only [hinfo]
  rcases hruns with hruns | htaken
  · rw [if_pos hruns.status, jumpBack_eq hruns hactive .ended s.slot]
    refine .some ⟨h.left .free hcur hruns hactive rfl rfl nofun (fun _ => rfl)
      (fun h => absurd rfl h) fun d hd => ⟨hd, fun _ => rfl⟩, rfl⟩
  · rw [if_neg (by rw [htaken.status]; exact nofun)]
    unfold jumpBack
    cases hctx : s.ctx c with
    | none => exact .none
    | some m =>
      rw [Option.bind_some, Contexts.jump_stale htaken.from_ h.dated (ctx_ne_ctxFrom m c).symm]
      exact .none

/-- The next step of `run`. -/
theorem next (h : Coherent s) (hcur : s.slot.sched.currentCoro = none) :
    Option.Rel Refines s.next
      (s.slot.sched.next.map fun sched => { s.slot with sched := sched }) := by
  unfold ContextRun.next Scheduler.next
  cases s.slot.sched.pc with
  | wakeUpSleep => exact .some ⟨h.setSched rfl rfl fun _ hc => hc, rfl⟩
  | drain =>
    refine .some ⟨h.setSched s.slot.sched.drain_currentCoro s.slot.sched.drain_status ?_, rfl⟩
    exact fun _ hc => Scheduler.mem_of_mem_drain_freeList hc
  | resuming rest =>
    cases rest with
    | nil => exact .some ⟨h.setSched rfl rfl fun _ hc => hc, rfl⟩
    | cons c rest =>
      exact switchTo (s := s.setSched { s.slot.sched with pc := .resuming rest })
        (h.setSched rfl rfl fun _ hc => hc) hcur c
  | yielding rest =>
    cases rest with
    | nil => exact .some ⟨h.setSched rfl rfl fun _ hc => hc, rfl⟩
    | cons c rest =>
      exact switchTo (s := s.setSched { s.slot.sched with pc := .yielding rest })
        (h.setSched rfl rfl fun _ hc => hc) hcur c

theorem addCoroutine_refines (h : Coherent s) (t : Nat) :
    Option.Rel Refines (s.addCoroutine t)
      (some { s.slot with sched := s.slot.sched.addCoroutine }) := by
  unfold ContextRun.addCoroutine Scheduler.addCoroutine
  cases hlist : s.slot.sched.freeList with
  | nil => exact .some ⟨h, rfl⟩
  | cons info rest =>
    simp only [registerFunc_eq h]
    exact .some ⟨h.addCoroutine (hlist ▸ List.mem_cons_self) t, rfl⟩

theorem sched (h : Coherent s) (coroNum : Nat) {a : SchedulerAction}
    (ha : s.slot.canStep a = true) : Option.Rel Refines (s.sched coroNum a)
      ((s.slot.sched.stepAny coroNum a).map fun sched => { s.slot with sched := sched }) := by
  cases a with
  | clock now => exact .some ⟨h.setSched rfl rfl fun _ hc => hc, rfl⟩
  | resume c =>
    simp only [ContextRun.sched, Scheduler.stepAny]
    split
    · exact .some ⟨h.setSched rfl rfl fun _ hc => hc, rfl⟩
    · exact .none
  | addCoroutine => exact h.addCoroutine_refines 0
  | next =>
    simp only [ContextRun.sched, Scheduler.stepAny, Scheduler.step]
    cases hcur : s.slot.sched.currentCoro with
    | none =>
      rw [if_pos (h.run hcur).1, if_pos rfl]
      exact h.next hcur
    | some c =>
      obtain ⟨-, n, -, hactive, -⟩ := h.coro c hcur
      rw [if_neg (by rw [hactive]; intro h; cases h), if_neg (Option.some_ne_none c)]
      exact .none
  | yield =>
    exact h.switchBack (f := fun sched cur => sched.yield cur) .yielded
      (Option.isNone_iff_eq_none.mp ha) (by decide) (by decide) (fun _ => rfl) (fun _ => rfl)
      fun _ => rfl
  | suspend =>
    exact h.switchBack (f := fun sched cur => sched.suspend cur .suspended) .suspended
      (Option.isNone_iff_eq_none.mp ha) (by decide) (by decide) (fun _ => rfl) (fun _ => rfl)
      fun _ => rfl
  | sleep ms =>
    exact h.switchBack (f := fun sched cur => sched.sleep cur ms)
      (.sleeping s.slot.sched.calls) (Option.isNone_iff_eq_none.mp ha) (by intro h; cases h)
      (by intro h; cases h) (fun _ => rfl) (fun _ => rfl) fun _ => rfl
  | finish => cases ha

theorem endFunc (h : Coherent s) (hending : s.slot.ending = none) :
    Option.Rel Refines s.endFunc
      (s.slot.sched.currentCoro.map fun cur => ⟨s.slot.sched.moveToFree cur, some cur⟩) := by
  unfold ContextRun.endFunc
  cases hcur : s.slot.sched.currentCoro with
  | none =>
    rw [(h.run hcur).1]
    exact .none
  | some c =>
    obtain ⟨hcurrent, n, hn, hactive, hinfo, hruns⟩ := h.coro c hcur
    have hruns := hruns.resolve_right fun htaken =>
      absurd (hending.symm.trans htaken.ending) (Option.some_ne_none c).symm
    rw [hactive]
    simp only [hinfo]
    refine .some ⟨⟨h.dated, h.others, h.allocated, fun hnone => ?_, fun d hd => ?_, fun d hd => ?_,
      h.running, h.waits, h.ended, fun d hd => ?_⟩, rfl⟩
    · exact absurd (hnone.symm.trans hcur) (Option.some_ne_none c).symm
    · obtain rfl : c = d := Option.some.inj (hcur.symm.trans hd)
      exact ⟨hcurrent, n, hn, hactive, hinfo, .inl ⟨hruns.status, hruns.ctx, hruns.from_⟩⟩
    · exact hcur.trans hd
    · rcases List.mem_cons.mp hd with rfl | hd
      · exact .inr ⟨rfl, hruns.status⟩
      · refine .inl ((h.freeList d (List.mem_of_mem_filter hd)).resolve_right fun hd => ?_)
        exact absurd (hending.symm.trans hd.1) (Option.some_ne_none d).symm

/-- A step is the step of `slotReuse`. -/
theorem step (h : Coherent s) (coroNum : Nat) (a : ContextAction) :
    Option.Rel Refines (s.step coroNum a) (s.slot.step coroNum a.slot) := by
  cases a with
  | sched a =>
    simp only [ContextRun.step, ContextAction.slot, SlotRun.step]
    split
    next ha => exact h.sched coroNum ha
    next => exact .none
  | addCoroutine t => exact h.addCoroutine_refines (t + 1)
  | endFunc =>
    simp only [ContextRun.step, ContextAction.slot, SlotRun.step]
    split
    next hending => exact h.endFunc hending
    next => exact .none
  | switchBack =>
    simp only [ContextRun.step, ContextAction.slot, SlotRun.step]
    cases hc : s.slot.ending with
    | none => exact .none
    | some c => exact h.lastJump hc

theorem onItsStack (h : Coherent s) : s.OnItsStack where
  others := h.others
  run := fun hcur => (h.run hcur).1
  coro := fun c hcur hst => by
    obtain ⟨hcurrent, n, -, hactive, -, hruns⟩ := h.coro c hcur
    rcases hruns with hruns | htaken
    · exact ⟨hcurrent, n, hruns.ctx, hactive⟩
    · cases hst.symm.trans htaken.status

end Coherent

theorem lockStep (coroNum : Nat) :
    LockStep (contextRun coroNum) (slotReuse coroNum) ContextAction.slot Refines where
  init := ⟨.init coroNum, rfl⟩
  step := fun s _ a hs => by
    obtain ⟨hs, rfl⟩ := hs
    exact hs.step coroNum a

end ContextRun

/-- Whatever the coroutines do and whichever threads add coroutines, the jumps do what calls and
returns would do: the two systems take the same runs to the same scheduler state, and every thread
is on its stack. In particular no jump goes on from a context that is out of date where the calls
and returns go on. -/
theorem contexts_refine (coroNum : Nat) (as : List ContextAction) :
    ((contextRun coroNum).run (contextRun coroNum).init as).map (·.slot) =
      (slotReuse coroNum).run (slotReuse coroNum).init (as.map ContextAction.slot) ∧
    ∀ s ∈ (contextRun coroNum).run (contextRun coroNum).init as, s.OnItsStack := by
  obtain ⟨heq, hall⟩ := option_rel_map ((ContextRun.lockStep coroNum).run as)
  exact ⟨heq, fun s hs => (hall s hs).onItsStack⟩

end Sheep
