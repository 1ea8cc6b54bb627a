import Mathlib.Data.List.Perm.Subperm
import Sheep.Coroutine.Scheduler
import Sheep.Lib.IntrusiveList

/-!
# The scheduler with its intrusive lists

`linkedScheduler s₀` is the scheduler of `Sheep.Coroutine.Scheduler` at the level of pointers: the
four lists are heads, and each `CoroutineInfo` is a node that carries its own `prev` and `next`.
`resume` takes any slot, in whatever state its coroutine is.

`Scheduler.Linked` is the invariant: the four heads are rings that share no node, and every slot is
in one of them. `step_linked`: a step of the pointers is the step of the lists. `lists_wellFormed`
and `linked_refines` say what this comes to for every run.
-/

namespace Sheep

inductive ListHead
  | free
  | suspend
  | resume
  | yield
  deriving DecidableEq, Repr

/-- A `CoroutineInfo`: one of the four heads, or a slot of `coros_`. -/
inductive CoroNode
  | head (h : ListHead)
  | coro (c : Nat)
  deriving DecidableEq, Repr

def CoroNode.coro? : CoroNode → Option Nat
  | .head _ => none
  | .coro c => some c

/-- `Scheduler` with pointers for the lists. -/
structure LinkedScheduler where
  links : Links CoroNode
  coroNum : Nat
  sleepQueue : List SleepInfo
  resumeQueue : List Nat
  now : Nat
  pc : RunPc
  currentCoro : Option Nat
  /-- ghost -/
  status : Nat → CoroStatus
  /-- ghost -/
  calls : Nat

namespace LinkedScheduler

/-- The constructor. -/
def new (coroNum : Nat) : Option LinkedScheduler :=
  ((List.range coroNum).foldlM
    (fun (links : Links CoroNode) c => links.insert (.head .free) (.coro c))
    (Links.null.init (.head .free))).map fun links =>
      let links := links.init (.head .suspend)
      let links := links.init (.head .resume)
      let links := links.init (.head .yield)
      ⟨links, coroNum, [], [], 0, .wakeUpSleep, none, fun _ => .free, 0⟩

/-- `IntrusiveListRemove` and `IntrusiveListInsert`, as `moveToSuspend`, `moveToResume`,
`moveToYield` and `endFunc_` do. -/
def moveTo (h : ListHead) (s : LinkedScheduler) (info : Nat) : Option LinkedScheduler :=
  ((s.links.remove (.coro info)).bind fun links => links.insert (.head h) (.coro info)).map
    fun links => { s with links := links }

/-- `IntrusiveListGetAllNodes`. There are no more nodes than slots. -/
def getAllNodes (s : LinkedScheduler) (h : ListHead) : Option (List Nat) :=
  (s.links.getAllNodes (.head h) s.coroNum).bind fun nodes => nodes.mapM CoroNode.coro?

def setStatus (s : LinkedScheduler) (c : Nat) (st : CoroStatus) : LinkedScheduler :=
  { s with status := Function.update s.status c st }

def wakeUpSleep (s : LinkedScheduler) : LinkedScheduler :=
  { s with
    sleepQueue := s.sleepQueue.dropWhile (·.deadline ≤ s.now)
    resumeQueue :=
      s.resumeQueue ++ (s.sleepQueue.takeWhile (·.deadline ≤ s.now)).map (·.coro) }

/-- The loop over `resumeQueue_`. -/
def drain (s : LinkedScheduler) : Option LinkedScheduler :=
  s.resumeQueue.foldlM (moveTo .resume) { s with resumeQueue := [] }

/-- `CoroutineInfo::switchTo`. A coroutine that has finished would run into `assert(false)`. -/
def switchTo (s : LinkedScheduler) (c : Nat) : Option LinkedScheduler :=
  if s.status c = .free then none
  else some { s.setStatus c .running with currentCoro := some c }

def next (s : LinkedScheduler) : Option LinkedScheduler :=
  match s.pc with
  | .wakeUpSleep => some { s.wakeUpSleep with pc := .drain }
  | .drain => s.drain.bind fun s =>
    (s.getAllNodes .resume).map fun resumeList => { s with pc := .resuming resumeList }
  | .resuming [] =>
    (s.getAllNodes .yield).map fun yieldList => { s with pc := .yielding yieldList }
  | .resuming (c :: rest) => { s with pc := .resuming rest }.switchTo c
  | .yielding [] => some { s with pc := .wakeUpSleep }
  | .yielding (c :: rest) => { s with pc := .yielding rest }.switchTo c

def switchBack (s : LinkedScheduler) : LinkedScheduler := { s with currentCoro := none }

def yield (s : LinkedScheduler) (cur : Nat) : Option LinkedScheduler :=
  (s.moveTo .yield cur).map fun s => (s.setStatus cur .yielded).switchBack

def suspend (s : LinkedScheduler) (cur : Nat) (st : CoroStatus) : Option LinkedScheduler :=
  (s.moveTo .suspend cur).map fun s => (s.setStatus cur st).switchBack

def sleep (s : LinkedScheduler) (cur : Nat) (ms : Nat) : Option LinkedScheduler :=
  let s' := { s with
    sleepQueue := Scheduler.pushSleep ⟨s.now + ms, cur, s.calls⟩ s.sleepQueue
    calls := s.calls + 1 }
  s'.suspend cur (.sleeping s.calls)

/-- `endFunc_` and the last switch back. -/
def finish (s : LinkedScheduler) (cur : Nat) : Option LinkedScheduler :=
  (s.moveTo .free cur).map fun s => (s.setStatus cur .free).switchBack

/-- `addCoroutine`, with its result. -/
def addCoroutine (s : LinkedScheduler) : Option (Bool × LinkedScheduler) :=
  match s.links.front (.head .free) with
  | none => some (false, s)
  | some node => node.coro?.bind fun info =>
    (s.moveTo .yield info).map fun s => (true, s.setStatus info .ready)

def step (s : LinkedScheduler) : SchedulerAction → Option LinkedScheduler
  | .clock now => some { s with now := now }
  | .next => if s.currentCoro = none then s.next else none
  | .yield => s.currentCoro.bind s.yield
  | .suspend => s.currentCoro.bind fun cur => s.suspend cur .suspended
  | .sleep ms => s.currentCoro.bind fun cur => s.sleep cur ms
  | .finish => s.currentCoro.bind s.finish
  | .addCoroutine => s.addCoroutine.map (·.2)
  | .resume c =>
    if c < s.coroNum then some { s with resumeQueue := s.resumeQueue ++ [c] } else none

end LinkedScheduler

/-- The scheduler from its constructor on. -/
def linkedScheduler (s₀ : LinkedScheduler) : System LinkedScheduler SchedulerAction :=
  ⟨s₀, LinkedScheduler.step⟩

/-! ## The lists that the pointers stand for -/

/-- The scheduler with lists, when any of its slots may be resumed. -/
def Scheduler.stepAny (coroNum : Nat) (s : Scheduler) : SchedulerAction → Option Scheduler
  | .resume c => if c < coroNum then some { s with resumeQueue := s.resumeQueue ++ [c] } else none
  | a => s.step a

def listScheduler (coroNum : Nat) : System Scheduler SchedulerAction :=
  ⟨.init coroNum, Scheduler.stepAny coroNum⟩

theorem Scheduler.leaves_of_stepAny {coroNum : Nat} {s t : Scheduler} {a : SchedulerAction}
    (ha : a.leaves = true) (ht : s.stepAny coroNum a = some t) : ∃ c st, s.Leaves a c st t := by
  cases a with
  | clock now | next | addCoroutine | resume c => cases ha
  | yield | suspend | sleep ms | finish => exact leaves_of_step rfl ht

def Scheduler.moveTo (s : Scheduler) : ListHead → Nat → Scheduler
  | .free => s.moveToFree
  | .suspend => s.moveToSuspend
  | .resume => s.moveToResume
  | .yield => s.moveToYield

/-- The slots in each list, front first. -/
abbrev CoroLists := ListHead → List Nat

namespace CoroLists

def moveTo (lists : CoroLists) (h : ListHead) (c : Nat) : CoroLists :=
  Function.update (fun k => (lists k).filter (· ≠ c)) h (c :: (lists h).filter (· ≠ c))

/-- Every slot is in a list, and nothing else is. -/
def Covers (lists : CoroLists) (coroNum : Nat) : Prop := ∀ c, (∃ h, c ∈ lists h) ↔ c < coroNum

variable {lists : CoroLists} {h k : ListHead} {c d coroNum : Nat}

theorem mem_moveTo : d ∈ lists.moveTo h c k ↔ (d ≠ c ∧ d ∈ lists k) ∨ (d = c ∧ k = h) := by
  unfold moveTo
  rcases eq_or_ne k h with rfl | hk
  · rw [Function.update_self]
    by_cases hd : d = c <;> simp [hd]
  · rw [Function.update_of_ne hk]
    by_cases hd : d = c <;> simp [hd, hk]

theorem Covers.moveTo (hl : lists.Covers coroNum) (hc : c < coroNum) (h : ListHead) :
    (lists.moveTo h c).Covers coroNum := by
  intro d
  rw [← hl d]
  constructor
  · rintro ⟨k, hk⟩
    rcases mem_moveTo.mp hk with ⟨-, hd⟩ | ⟨rfl, -⟩
    · exact ⟨k, hd⟩
    · exact (hl d).mpr hc
  · rintro ⟨k, hk⟩
    rcases eq_or_ne d c with hd | hd
    · exact ⟨h, mem_moveTo.mpr (.inr ⟨hd, rfl⟩)⟩
    · exact ⟨k, mem_moveTo.mpr (.inl ⟨hd, hk⟩)⟩

end CoroLists

/-- The pointers form the four rings. -/
def Links.Forms (links : Links CoroNode) (lists : CoroLists) : Prop :=
  links.Rings .head fun h => (lists h).map .coro

theorem Links.Forms.moveTo {links : Links CoroNode} {lists : CoroLists} {k : ListHead} {c : Nat}
    (hf : links.Forms lists) (hc : c ∈ lists k) (h : ListHead) :
    ∃ links', ((links.remove (.coro c)).bind fun links => links.insert (.head h) (.coro c)) =
      some links' ∧ links'.Forms (lists.moveTo h c) := by
  obtain ⟨links', heq, hr⟩ := Links.Rings.move hf (List.mem_map_of_mem hc) h
  refine ⟨links', heq, ?_⟩
  have hfilter : ∀ l : List Nat, (l.map CoroNode.coro).filter (· ≠ .coro c) =
      (l.filter (· ≠ c)).map .coro := by
    intro l
    rw [List.filter_map]
    congr 1
    refine List.filter_congr fun d _ => ?_
    simp
  have hlists : (fun k => (lists.moveTo h c k).map CoroNode.coro) =
      Function.update (fun k => ((lists k).map CoroNode.coro).filter (· ≠ .coro c)) h
        (.coro c :: ((lists h).map CoroNode.coro).filter (· ≠ .coro c)) := by
    funext k
    unfold CoroLists.moveTo
    rcases eq_or_ne k h with rfl | hk
    · rw [Function.update_self, Function.update_self, hfilter]
      rfl
    · rw [Function.update_of_ne hk, Function.update_of_ne hk, hfilter]
  unfold Forms
  rw [hlists]
  exact hr

namespace LinkedScheduler

/-- The scheduler with the lists that the pointers stand for. -/
def withLists (l : LinkedScheduler) (lists : CoroLists) : Scheduler :=
  ⟨lists .free, lists .suspend, lists .resume, lists .yield, l.sleepQueue, l.resumeQueue, l.now,
    l.pc, l.currentCoro, l.status, l.calls⟩

/-- The invariant. -/
structure Linked (l : LinkedScheduler) (lists : CoroLists) : Prop where
  rings : l.links.Forms lists
  covers : lists.Covers l.coroNum
  sleepers : ∀ e ∈ l.sleepQueue, e.coro < l.coroNum
  requested : ∀ c ∈ l.resumeQueue, c < l.coroNum
  rest : ∀ c ∈ l.pc.rest, c < l.coroNum
  current : ∀ c ∈ l.currentCoro, c < l.coroNum

/-- The two steps are not enabled, or lead to states with the same lists. -/
def Agree (coroNum : Nat) (o : Option LinkedScheduler) (o' : Option Scheduler) : Prop :=
  (o = none ∧ o' = none) ∨
    ∃ l lists, o = some l ∧ o' = some (l.withLists lists) ∧ l.Linked lists ∧ l.coroNum = coroNum

namespace Linked

variable {l : LinkedScheduler} {lists : CoroLists} {h : ListHead} {c coroNum : Nat}

theorem nodup (hl : l.Linked lists) (h : ListHead) : (lists h).Nodup :=
  List.Nodup.of_map _ (List.nodup_cons.mp (hl.rings.ring h).nodup).2

theorem length_le (hl : l.Linked lists) (h : ListHead) : (lists h).length ≤ l.coroNum := by
  have hsub : (lists h).Subperm (List.range l.coroNum) :=
    List.subperm_of_subset (hl.nodup h) fun c hc => List.mem_range.mpr ((hl.covers c).mp ⟨h, hc⟩)
  simpa using hsub.length_le

/-- No slot is in two lists. -/
theorem unique {k : ListHead} (hl : l.Linked lists) (hh : c ∈ lists h) (hk : c ∈ lists k) :
    h = k := by
  by_contra hne
  exact hl.rings.disjoint h k hne (List.mem_cons_of_mem _ (List.mem_map_of_mem hh))
    (List.mem_cons_of_mem _ (List.mem_map_of_mem hk))

theorem front (hl : l.Linked lists) :
    l.links.front (.head .free) = (lists .free).head?.map .coro := by
  rw [(hl.rings.ring .free).front, List.head?_map]

theorem getAllNodes (hl : l.Linked lists) (h : ListHead) :
    l.getAllNodes h = some (lists h) := by
  have hmap : ∀ xs : List Nat, (xs.map CoroNode.coro).mapM CoroNode.coro? = some xs := by
    intro xs
    induction xs with
    | nil => rfl
    | cons x xs ih => simp [List.mapM_cons, ih, CoroNode.coro?]
  unfold LinkedScheduler.getAllNodes
  rw [(hl.rings.ring h).getAllNodes (by simpa using hl.length_le h)]
  exact hmap (lists h)

theorem withLists_moveTo (l : LinkedScheduler) (links : Links CoroNode) (lists : CoroLists)
    (h : ListHead) (c : Nat) : ({ l with links := links }.withLists (lists.moveTo h c)) =
      (l.withLists lists).moveTo h c := by
  cases h <;> rfl

theorem moveTo (hl : l.Linked lists) (hc : c < l.coroNum) (h : ListHead) :
    ∃ links, l.moveTo h c = some { l with links := links } ∧
      Linked { l with links := links } (lists.moveTo h c) := by
  obtain ⟨k, hk⟩ := (hl.covers c).mpr hc
  obtain ⟨links, heq, hforms⟩ := Links.Forms.moveTo hl.rings hk h
  refine ⟨links, ?_, hforms, hl.covers.moveTo hc h, hl.sleepers, hl.requested, hl.rest, hl.current⟩
  unfold LinkedScheduler.moveTo
  rw [heq]
  rfl

/-- A step that moves a slot and changes other fields. -/
theorem agree_moveTo {f : LinkedScheduler → LinkedScheduler} {g : Scheduler → Scheduler}
    (hl : l.Linked lists) (hc : c < l.coroNum) (h : ListHead)
    (hfg : ∀ l lists, (f l).withLists lists = g (l.withLists lists))
    (hlinks : ∀ l, (f l).links = l.links) (hnum : ∀ l, (f l).coroNum = l.coroNum)
    (hf : ∀ links, (∀ e ∈ (f { l with links := links }).sleepQueue, e.coro < l.coroNum) ∧
      (f { l with links := links }).resumeQueue = l.resumeQueue ∧
      (f { l with links := links }).pc = l.pc ∧
      ∀ c ∈ (f { l with links := links }).currentCoro, c < l.coroNum) :
    Agree l.coroNum ((l.moveTo h c).map f) (some (g ((l.withLists lists).moveTo h c))) := by
  obtain ⟨links, heq, hl'⟩ := hl.moveTo hc h
  obtain ⟨h1, h2, h3, h4⟩ := hf links
  refine .inr ⟨f { l with links := links }, lists.moveTo h c, by rw [heq]; rfl, ?_, ?_, hnum _⟩
  · rw [hfg, withLists_moveTo]
  · refine ⟨?_, ?_, ?_, ?_, ?_, ?_⟩
    · rw [hlinks]
      exact hl'.rings
    · rw [hnum]
      exact hl'.covers
    · rw [hnum]
      exact h1
    · rw [hnum, h2]
      exact hl'.requested
    · rw [hnum, h3]
      exact hl'.rest
    · rw [hnum]
      exact h4

/-- The loop over `resumeQueue_`. -/
theorem foldlM_moveTo {q : List Nat} (hl : l.Linked lists) (hq : ∀ c ∈ q, c < l.coroNum) :
    ∃ links lists', q.foldlM (LinkedScheduler.moveTo .resume) l = some { l with links := links } ∧
      Linked { l with links := links } lists' ∧
      { l with links := links }.withLists lists' =
        q.foldl Scheduler.moveToResume (l.withLists lists) := by
  induction q generalizing l lists with
  | nil => exact ⟨l.links, lists, rfl, hl, rfl⟩
  | cons c q ih =>
    obtain ⟨links, heq, hl'⟩ := hl.moveTo (hq c List.mem_cons_self) .resume
    obtain ⟨links', lists', heq', hl'', hsame⟩ :=
      ih hl' fun d hd => hq d (List.mem_cons_of_mem c hd)
    refine ⟨links', lists', ?_, hl'', ?_⟩
    · rw [List.foldlM_cons, heq]
      exact heq'
    · rw [hsame, withLists_moveTo]
      rfl

theorem drain (hl : l.Linked lists) : ∃ links lists',
    l.drain = some { l with links := links, resumeQueue := [] } ∧
      Linked { l with links := links, resumeQueue := [] } lists' ∧
      { l with links := links, resumeQueue := [] }.withLists lists' =
        (l.withLists lists).drain := by
  have hl' : Linked { l with resumeQueue := [] } lists :=
    ⟨hl.rings, hl.covers, hl.sleepers, nofun, hl.rest, hl.current⟩
  exact hl'.foldlM_moveTo hl.requested

theorem switchTo {pc : RunPc} (hl : l.Linked lists) (hc : c < l.coroNum)
    (hrest : ∀ c ∈ pc.rest, c < l.coroNum) :
    Agree l.coroNum ({ l with pc := pc }.switchTo c)
      ({ l.withLists lists with pc := pc }.switchTo c) := by
  unfold LinkedScheduler.switchTo Scheduler.switchTo
  by_cases hfree : l.status c = .free
  · exact .inl ⟨if_pos hfree, if_pos hfree⟩
  · refine .inr ⟨_, lists, if_neg hfree, (if_neg hfree).trans rfl, ⟨hl.rings, hl.covers,
      hl.sleepers, hl.requested, hrest, ?_⟩, rfl⟩
    rintro _ ⟨⟩
    exact hc

theorem next (hl : l.Linked lists) : Agree l.coroNum l.next (l.withLists lists).next := by
  have hpc : (l.withLists lists).pc = l.pc := rfl
  unfold LinkedScheduler.next Scheduler.next
  rw [hpc]
  cases h : l.pc with
  | wakeUpSleep =>
    refine .inr ⟨_, lists, rfl, rfl, ⟨hl.rings, hl.covers, ?_, ?_, nofun, hl.current⟩, rfl⟩
    · exact fun e he => hl.sleepers e ((List.dropWhile_suffix _).subset he)
    · intro c hc
      rcases List.mem_append.mp hc with hc | hc
      · exact hl.requested c hc
      · obtain ⟨e, he, rfl⟩ := List.mem_map.mp hc
        exact hl.sleepers e ((List.takeWhile_prefix _).subset he)
  | drain =>
    obtain ⟨links, lists', hd, hl', hsame⟩ := hl.drain
    have hlist : (l.withLists lists).drain.resumeList = lists' .resume := by
      rw [← hsame]
      rfl
    refine .inr ⟨{ l with links := links, resumeQueue := [], pc := .resuming (lists' .resume) },
      lists', ?_, ?_, ⟨hl'.rings, hl'.covers, hl'.sleepers, nofun, ?_, hl'.current⟩, rfl⟩
    · simp only [hd, Option.bind_some, hl'.getAllNodes, Option.map_some]
    · rw [hlist, ← hsame]
      rfl
    · exact fun c hc => (hl'.covers c).mp ⟨.resume, hc⟩
  | resuming rest =>
    cases rest with
    | nil =>
      simp only [hl.getAllNodes, Option.map_some]
      refine .inr ⟨_, lists, rfl, rfl, ⟨hl.rings, hl.covers, hl.sleepers, hl.requested, ?_,
        hl.current⟩, rfl⟩
      exact fun c hc => (hl.covers c).mp ⟨.yield, hc⟩
    | cons c rest =>
      -- `getAllNodes` has copied the list, so the switch does not read the links
      have hrest := hl.rest
      rw [h] at hrest
      exact hl.switchTo (hrest c List.mem_cons_self) fun d hd =>
        hrest d (List.mem_cons_of_mem c hd)
  | yielding rest =>
    cases rest with
    | nil =>
      exact .inr ⟨_, lists, rfl, rfl, ⟨hl.rings, hl.covers, hl.sleepers, hl.requested, nofun,
        hl.current⟩, rfl⟩
    | cons c rest =>
      have hrest := hl.rest
      rw [h] at hrest
      exact hl.switchTo (hrest c List.mem_cons_self) fun d hd =>
        hrest d (List.mem_cons_of_mem c hd)

/-- `addCoroutine` fails when the free list is empty, and changes nothing then. -/
theorem addCoroutine (hl : l.Linked lists) : ∃ b t lists', l.addCoroutine = some (b, t) ∧
    (b = false ↔ lists .free = []) ∧ (b = false → t = l) ∧ t.Linked lists' ∧
    t.withLists lists' = (l.withLists lists).addCoroutine ∧ t.coroNum = l.coroNum := by
  have hfree : (l.withLists lists).freeList = lists .free := rfl
  unfold LinkedScheduler.addCoroutine Scheduler.addCoroutine
  rw [hl.front, hfree]
  cases h : lists .free with
  | nil => exact ⟨false, l, lists, rfl, ⟨fun _ => rfl, fun _ => rfl⟩, fun _ => rfl, hl, rfl, rfl⟩
  | cons info rest =>
    have hinfo : info < l.coroNum :=
      (hl.covers info).mp ⟨.free, by rw [h]; exact List.mem_cons_self⟩
    obtain ⟨links, heq, hl'⟩ := hl.moveTo hinfo .yield
    refine ⟨true, { l with links := links }.setStatus info .ready, lists.moveTo .yield info, ?_,
      ⟨nofun, nofun⟩, nofun, ⟨hl'.rings, hl'.covers, hl'.sleepers, hl'.requested, hl'.rest,
        hl'.current⟩, ?_, rfl⟩
    · simp only [List.head?_cons, Option.map_some, CoroNode.coro?, Option.bind_some, heq]
    · exact congrArg (fun s : Scheduler => s.setStatus info .ready)
        (withLists_moveTo l links lists .yield info)

theorem step (hl : l.Linked lists) (a : SchedulerAction) :
    Agree l.coroNum (l.step a) ((l.withLists lists).stepAny l.coroNum a) := by
  have hcurrent : (l.withLists lists).currentCoro = l.currentCoro := rfl
  cases a with
  | clock now =>
    exact .inr ⟨_, lists, rfl, rfl, ⟨hl.rings, hl.covers, hl.sleepers, hl.requested, hl.rest,
      hl.current⟩, rfl⟩
  | next =>
    simp only [LinkedScheduler.step, Scheduler.stepAny, Scheduler.step, hcurrent]
    split
    · exact hl.next
    · exact .inl ⟨rfl, rfl⟩
  | yield =>
    simp only [LinkedScheduler.step, Scheduler.stepAny, Scheduler.step, hcurrent]
    cases hcur : l.currentCoro with
    | none => exact .inl ⟨rfl, rfl⟩
    | some cur =>
      exact hl.agree_moveTo (g := fun s => (s.setStatus cur .yielded).switchBack)
        (hl.current cur hcur) .yield (fun _ _ => rfl) (fun _ => rfl) (fun _ => rfl) fun _ =>
        ⟨hl.sleepers, rfl, rfl, by rintro _ ⟨⟩⟩
  | suspend =>
    simp only [LinkedScheduler.step, Scheduler.stepAny, Scheduler.step, hcurrent]
    cases hcur : l.currentCoro with
    | none => exact .inl ⟨rfl, rfl⟩
    | some cur =>
      exact hl.agree_moveTo (g := fun s => (s.setStatus cur .suspended).switchBack)
        (hl.current cur hcur) .suspend (fun _ _ => rfl) (fun _ => rfl) (fun _ => rfl) fun _ =>
        ⟨hl.sleepers, rfl, rfl, by rintro _ ⟨⟩⟩
  | sleep ms =>
    simp only [LinkedScheduler.step, Scheduler.stepAny, Scheduler.step, hcurrent]
    cases hcur : l.currentCoro with
    | none => exact .inl ⟨rfl, rfl⟩
    | some cur =>
      have hc := hl.current cur hcur
      have hl' : Linked { l with
          sleepQueue := Scheduler.pushSleep ⟨l.now + ms, cur, l.calls⟩ l.sleepQueue
          calls := l.calls + 1 } lists := by
        refine ⟨hl.rings, hl.covers, fun e he => ?_, hl.requested, hl.rest, hl.current⟩
        rcases Scheduler.mem_pushSleep he with he | rfl
        · exact hl.sleepers e he
        · exact hc
      exact hl'.agree_moveTo (g := fun s => (s.setStatus cur (.sleeping l.calls)).switchBack) hc
        .suspend (fun _ _ => rfl) (fun _ => rfl) (fun _ => rfl) fun _ =>
        ⟨hl'.sleepers, rfl, rfl, by rintro _ ⟨⟩⟩
  | finish =>
    simp only [LinkedScheduler.step, Scheduler.stepAny, Scheduler.step, hcurrent]
    cases hcur : l.currentCoro with
    | none => exact .inl ⟨rfl, rfl⟩
    | some cur =>
      exact hl.agree_moveTo (g := fun s => (s.setStatus cur .free).switchBack)
        (hl.current cur hcur) .free (fun _ _ => rfl) (fun _ => rfl) (fun _ => rfl) fun _ =>
        ⟨hl.sleepers, rfl, rfl, by rintro _ ⟨⟩⟩
  | addCoroutine =>
    obtain ⟨b, t, lists', heq, -, -, hl', hsame, hnum⟩ := hl.addCoroutine
    refine .inr ⟨t, lists', ?_, congrArg some hsame.symm, hl', hnum⟩
    simp only [LinkedScheduler.step, heq, Option.map_some]
  | resume c =>
    simp only [LinkedScheduler.step, Scheduler.stepAny]
    split
    next hc =>
      refine .inr ⟨_, lists, rfl, rfl, ⟨hl.rings, hl.covers, hl.sleepers, fun d hd => ?_, hl.rest,
        hl.current⟩, rfl⟩
      rcases List.mem_append.mp hd with hd | hd
      · exact hl.requested d hd
      · exact List.mem_singleton.mp hd ▸ hc
    next => exact .inl ⟨rfl, rfl⟩

end Linked

/-! ## The constructor -/

/-- The loop of the constructor. -/
theorem insertAll {cs xs : List Nat} {links : Links CoroNode}
    (hr : links.Ring (.head .free) (xs.map .coro)) (hnodup : (cs ++ xs).Nodup) :
    ∃ links', cs.foldlM (fun (links : Links CoroNode) c => links.insert (.head .free) (.coro c))
        links = some links' ∧ links'.Ring (.head .free) ((cs.reverse ++ xs).map .coro) := by
  induction cs generalizing xs links with
  | nil => exact ⟨links, rfl, hr⟩
  | cons c cs ih =>
    obtain ⟨hc, -⟩ := List.nodup_cons.mp hnodup
    have hnew : CoroNode.coro c ∉ CoroNode.head .free :: xs.map .coro := by
      simpa using fun hx => hc (List.mem_append_right cs hx)
    obtain ⟨links₁, heq, hr₁, -⟩ := hr.insert hnew
    have hr₂ : links₁.Ring (.head .free) ((c :: xs).map .coro) := hr₁
    obtain ⟨links', heq', hr'⟩ := ih hr₂ (List.perm_middle.nodup_iff.mpr hnodup)
    refine ⟨links', ?_, ?_⟩
    · rw [List.foldlM_cons, heq]
      exact heq'
    · rw [List.reverse_cons, List.append_assoc]
      exact hr'

/-- The lists at first: every slot is free. -/
def newLists (coroNum : Nat) : CoroLists
  | .free => (List.range coroNum).reverse
  | _ => []

theorem new_linked (coroNum : Nat) : ∃ l, new coroNum = some l ∧ l.Linked (newLists coroNum) ∧
    l.withLists (newLists coroNum) = .init coroNum ∧ l.coroNum = coroNum := by
  have hempty : (Links.null.init (CoroNode.head .free)).Ring (.head .free)
      (([] : List Nat).map .coro) := Links.ring_init
  have hnodup : (List.range coroNum ++ []).Nodup := by simpa using List.nodup_range
  obtain ⟨links, heq, hfree⟩ := insertAll hempty hnodup
  rw [List.append_nil] at hfree
  have hother : ∀ (xs : List Nat) {h h' : ListHead} {links : Links CoroNode}, h ≠ h' →
      links.Ring (.head h) (xs.map .coro) →
      (links.init (.head h')).Ring (.head h) (xs.map .coro) := by
    intro xs h h' links hne hr
    exact hr.frame Links.sameOff_init (by simpa using hne)
  refine ⟨_, congrArg (Option.map _) heq, ⟨⟨fun h => ?_, fun h h' hne => ?_⟩, fun c => ?_,
    fun _ h => absurd h List.not_mem_nil, fun _ h => absurd h List.not_mem_nil,
    fun _ h => absurd h List.not_mem_nil, nofun⟩, rfl, rfl⟩
  · -- the list heads initialised after a ring leave it as it is
    cases h with
    | free => exact hother _ nofun (hother _ nofun (hother _ nofun hfree))
    | suspend => exact hother [] nofun (hother [] nofun Links.ring_init)
    | resume => exact hother [] nofun Links.ring_init
    | yield => exact Links.ring_init
  · -- no node is in two rings: every head has its own, and every slot is free
    intro n hn hn'
    cases n with
    | head k =>
      have heq : k = h := by simpa using hn
      have heq' : k = h' := by simpa using hn'
      exact hne (heq.symm.trans heq')
    | coro c =>
      have honly : ∀ k, c ∈ newLists coroNum k → k = .free := by
        intro k hk
        cases k with
        | free => rfl
        | suspend | resume | yield => cases hk
      have heq := honly h (by simpa using hn)
      have heq' := honly h' (by simpa using hn')
      exact hne (heq.trans heq'.symm)
  · constructor
    · rintro ⟨h, hc⟩
      cases h <;> simp [newLists] at hc
      exact hc
    · intro hc
      exact ⟨.free, by simpa [newLists] using hc⟩

end LinkedScheduler

/-! ## Every run -/

/-- What the four lists are in a state: rings, with every slot in exactly one of them, and with the
free list deciding whether `addCoroutine` fails. -/
structure WellFormedLists (s : LinkedScheduler) (lists : CoroLists) : Prop where
  ring : ∀ h, s.links.Ring (.head h) ((lists h).map .coro)
  slot : ∀ c < s.coroNum, ∃ h, c ∈ lists h ∧ ∀ k, c ∈ lists k → k = h
  onlySlots : ∀ h, ∀ c ∈ lists h, c < s.coroNum
  addCoroutine : ∃ b t, s.addCoroutine = some (b, t) ∧ (b = false ↔ lists .free = []) ∧
    (b = false → t = s)

namespace LinkedScheduler

theorem Linked.wellFormed {l : LinkedScheduler} {lists : CoroLists} (hl : l.Linked lists) :
    WellFormedLists l lists := by
  refine ⟨hl.rings.ring, fun c hc => ?_, fun h c hc => (hl.covers c).mp ⟨h, hc⟩, ?_⟩
  · obtain ⟨h, hh⟩ := (hl.covers c).mpr hc
    exact ⟨h, hh, fun k hk => hl.unique hk hh⟩
  · obtain ⟨b, t, -, heq, hb, ht, -⟩ := hl.addCoroutine
    exact ⟨b, t, heq, hb, ht⟩

/-- Every state of the pointers stands for a state of the lists. -/
theorem reachable_linked {coroNum : Nat} {s₀ s : LinkedScheduler} (h₀ : new coroNum = some s₀)
    (hs : (linkedScheduler s₀).Reachable s) : s.coroNum = coroNum ∧
      ∃ lists, s.Linked lists ∧ (listScheduler coroNum).Reachable (s.withLists lists) := by
  refine hs.invariant (P := fun s => s.coroNum = coroNum ∧
    ∃ lists, s.Linked lists ∧ (listScheduler coroNum).Reachable (s.withLists lists)) ?_ ?_
  · obtain ⟨l, hl, hlinked, hlists, hnum⟩ := new_linked coroNum
    obtain rfl : l = s₀ := Option.some.inj (hl.symm.trans h₀)
    refine ⟨hnum, newLists coroNum, hlinked, ?_⟩
    show (listScheduler coroNum).Reachable (l.withLists (newLists coroNum))
    rw [hlists]
    exact .init
  · rintro s a t ⟨rfl, lists, hl, hreach⟩ - hstep
    rcases hl.step a with ⟨hnone, -⟩ | ⟨l', lists', heq, heq', hl', hnum⟩
    · exact absurd (hnone.symm.trans hstep) nofun
    · obtain rfl : l' = t := Option.some.inj (heq.symm.trans hstep)
      exact ⟨hnum, lists', hl', hreach.step True.intro heq'⟩

/-- The pointers do in every run what the lists do: a step is enabled for both or for neither. In
particular no step dereferences a null pointer. -/
theorem linked_refines {coroNum : Nat} {s₀ s : LinkedScheduler} (h₀ : new coroNum = some s₀)
    (hs : (linkedScheduler s₀).Reachable s) : ∃ lists,
      (listScheduler coroNum).Reachable (s.withLists lists) ∧
        ∀ a, (s.step a).isSome = ((s.withLists lists).stepAny coroNum a).isSome := by
  obtain ⟨rfl, lists, hl, hreach⟩ := reachable_linked h₀ hs
  refine ⟨lists, hreach, fun a => ?_⟩
  rcases hl.step a with ⟨hnone, hnone'⟩ | ⟨l', lists', heq, heq', -⟩
  · rw [hnone, hnone']
    rfl
  · rw [heq, heq']
    rfl

end LinkedScheduler

/-- The lists of the scheduler are well formed in every state, whatever is resumed, and whenever
coroutines are added. -/
theorem lists_wellFormed (coroNum : Nat) : ∃ s₀, LinkedScheduler.new coroNum = some s₀ ∧
    ∀ s, (linkedScheduler s₀).Reachable s →
      s.coroNum = coroNum ∧ ∃ lists, WellFormedLists s lists := by
  obtain ⟨s₀, h₀, -⟩ := LinkedScheduler.new_linked coroNum
  refine ⟨s₀, h₀, fun s hs => ?_⟩
  obtain ⟨hnum, lists, hl, -⟩ := LinkedScheduler.reachable_linked h₀ hs
  exact ⟨hnum, lists, hl.wellFormed⟩

/-- Both slots are taken; a coroutine that runs, one that yielded, and a slot that is free again are
resumed, and a third coroutine is added. -/
example : ((LinkedScheduler.new 2).bind fun s₀ => (linkedScheduler s₀).run s₀
    [.addCoroutine, .addCoroutine, .addCoroutine, .next, .next, .next, .next, .resume 0, .resume 0,
      .yield, .next, .finish, .resume 1, .addCoroutine, .next, .next, .next]).map
    (fun s => (s.getAllNodes .free, s.getAllNodes .resume, s.getAllNodes .yield)) =
    some (some [], some [1, 0], some []) := by
  decide +kernel

end Sheep
