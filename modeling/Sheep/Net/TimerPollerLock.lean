import Sheep.Lib.Process
import Sheep.Lib.System
import Sheep.Net.TimerPoller

/-!
# `TimerPoller` with its lock

`TimerPoller::Poll` on the loop thread against threads that create, update and drop events. A step
is what a thread does between two points where another thread can come in: taking `lock_`, the
section under it, one look at a weak pointer, the end of an iteration.

`Poll` holds `lock_` while it holds a `shared_ptr` to one event after the other. If that pointer is
the last one, the destructor of the event runs under the lock, and with a flag on it calls
`RemoveEvent`, which waits for the same lock (`~Event` in `net/common/event.cpp`).
-/

namespace Sheep

/-- Where a thread is. -/
inductive PollerThread (E : Type)
  | idle
  /-- in `Poll`, before the guard -/
  | poll
  /-- in the loop of `Poll`, under the lock, with the weak pointers that are left -/
  | polling (tmpEvents : List E)
  /-- in an iteration: `event` is not null -/
  | polled (event : E) (tmpEvents : List E)
  /-- in an iteration: `~Event` has called `RemoveEvent`, before the guard -/
  | pollRemove (event : E) (tmpEvents : List E)
  /-- in `UpdateEvent`, before the guard and under it; its parameter is a `shared_ptr` -/
  | update (event : E)
  | updating (event : E)
  /-- `UpdateEvent` has returned, and its parameter goes -/
  | release (event : E)
  /-- in `RemoveEvent`, before the guard and under it -/
  | remove (event : E)
  | removing (event : E)
  deriving DecidableEq, Repr

inductive TimerPollerAction (T E : Type)
  /-- `make_shared<Event>` -/
  | create (t : T) (e : E)
  /-- a thread makes one more `shared_ptr` to an event, of another one or of a weak one -/
  | copy (t : T) (e : E)
  /-- a `shared_ptr` to the event goes -/
  | drop (t : T) (e : E)
  | enableReadNotify (t : T) (e : E)
  | disableReadNotify (t : T) (e : E)
  /-- the loop thread calls `Poll` -/
  | poll
  /-- the loop thread takes the lock, reads the clock and copies the events that are due -/
  | copyEvents (now : UInt64)
  /-- the next step of a thread in one of the methods -/
  | go (t : T)
  deriving DecidableEq, Repr

structure TimerPollerRun (T E : Type) where
  poller : TimerPoller E
  /-- the thread that holds `lock_` -/
  lock : Option T
  /-- the events that were created -/
  created : E → Bool
  /-- the `shared_ptr`s to an event, without those in the methods of the poller -/
  refs : E → Nat
  /-- the `shared_ptr`s to an event that are parameters of `UpdateEvent` -/
  params : E → Nat
  readNotify : E → Bool
  readAble : E → Bool
  pc : T → PollerThread E

namespace TimerPollerRun

variable {T E : Type} [DecidableEq T] [DecidableEq E] (ev : PolledEvents E) (loop : T)

def new : TimerPollerRun T E :=
  ⟨.new, none, fun _ => false, fun _ => 0, fun _ => 0, fun _ => false, fun _ => false,
    fun _ => .idle⟩

def setPc (s : TimerPollerRun T E) (t : T) (pc : PollerThread E) : TimerPollerRun T E :=
  { s with pc := Function.update s.pc t pc }

omit [DecidableEq E] in
@[simp] theorem setPc_pc (s : TimerPollerRun T E) (t : T) (pc : PollerThread E) :
    (s.setPc t pc).pc = Function.update s.pc t pc := rfl

omit [DecidableEq E] in
@[simp] theorem setPc_readNotify (s : TimerPollerRun T E) (t : T) (pc : PollerThread E) :
    (s.setPc t pc).readNotify = s.readNotify := rfl

/-- The `shared_ptr` of `Poll` points to the event. -/
def Polls (s : TimerPollerRun T E) (e : E) : Prop :=
  match s.pc loop with
  | .polled event _ => event = e
  | _ => False

instance (s : TimerPollerRun T E) (e : E) : Decidable (s.Polls loop e) := by
  unfold Polls
  split <;> infer_instance

/-- `use_count` without the `shared_ptr` of `Poll`. -/
def others (s : TimerPollerRun T E) (e : E) : Nat := s.refs e + s.params e

/-- The object exists. -/
def Alive (s : TimerPollerRun T E) (e : E) : Prop := 0 < s.others e ∨ s.Polls loop e

instance (s : TimerPollerRun T E) (e : E) : Decidable (s.Alive loop e) := by
  unfold Alive; infer_instance

/-- Thread `t` has let a `shared_ptr` go, outside of `Poll`. `~Event` runs after the last one. -/
def afterDrop (s : TimerPollerRun T E) (t : T) (e : E) : TimerPollerRun T E :=
  if s.Alive loop e then s.setPc t .idle
  else if s.readNotify e then
    { s with readNotify := Function.update s.readNotify e false }.setPc t (.remove e)
  else s.setPc t .idle

/-- The `shared_ptr` of `Poll` goes at the end of an iteration. -/
def endIteration (s : TimerPollerRun T E) (t : T) (e : E) (rest : List E) : TimerPollerRun T E :=
  if 0 < s.others e then s.setPc t (.polling rest)
  else if s.readNotify e then
    { s with readNotify := Function.update s.readNotify e false }.setPc t (.pollRemove e rest)
  else s.setPc t (.polling rest)

/-- The next step of thread `t`. A guard is enabled when no thread holds the lock, the thread itself
included. -/
def go (s : TimerPollerRun T E) (t : T) : Option (TimerPollerRun T E) :=
  match s.pc t with
  | .idle | .poll => none
  | .polling [] => some ({ s with lock := none }.setPc t .idle)
  | .polling (e :: rest) =>
    if s.Alive loop e then
      some ({ s with readAble := Function.update s.readAble e true }.setPc t (.polled e rest))
    else some (s.setPc t (.polling rest))
  | .polled e rest => some (s.endIteration t e rest)
  | .pollRemove e rest =>
    if s.lock = none then
      (s.poller.removeEvent ev e).map fun p => { s with poller := p }.setPc t (.polling rest)
    else none
  | .update e =>
    if s.lock = none then some ({ s with lock := some t }.setPc t (.updating e)) else none
  | .updating e =>
    (s.poller.updateEvent ev e).map fun p =>
      { s with poller := p, lock := none }.setPc t (.release e)
  | .release e =>
    some ({ s with params := Function.update s.params e (s.params e - 1) }.afterDrop loop t e)
  | .remove e =>
    if s.lock = none then some ({ s with lock := some t }.setPc t (.removing e)) else none
  | .removing e =>
    (s.poller.removeEvent ev e).map fun p => { s with poller := p, lock := none }.setPc t .idle

def step (s : TimerPollerRun T E) : TimerPollerAction T E → Option (TimerPollerRun T E)
  | .create t e =>
    if s.pc t = .idle ∧ s.created e = false then
      some { s with
        created := Function.update s.created e true
        refs := Function.update s.refs e 1 }
    else none
  | .copy t e =>
    if s.pc t = .idle ∧ s.Alive loop e then
      some { s with refs := Function.update s.refs e (s.refs e + 1) }
    else none
  | .drop t e =>
    if s.pc t = .idle ∧ 0 < s.refs e then
      some ({ s with refs := Function.update s.refs e (s.refs e - 1) }.afterDrop loop t e)
    else none
  | .enableReadNotify t e =>
    if s.pc t = .idle ∧ 0 < s.refs e then
      some ({ s with
        readNotify := Function.update s.readNotify e true
        params := Function.update s.params e (s.params e + 1) }.setPc t (.update e))
    else none
  | .disableReadNotify t e =>
    if s.pc t = .idle ∧ 0 < s.refs e then
      some ({ s with readNotify := Function.update s.readNotify e false }.setPc t (.remove e))
    else none
  | .poll => if s.pc loop = .idle then some (s.setPc loop .poll) else none
  | .copyEvents now =>
    if s.pc loop = .poll ∧ s.lock = none then
      some ({ s with lock := some loop }.setPc loop (.polling (s.poller.tmpEvents now.toInt64)))
    else none
  | .go t => s.go ev loop t

def system : System (TimerPollerRun T E) (TimerPollerAction T E) := ⟨new, step ev loop⟩

/-- The loop thread holds the lock inside `Poll` and is in the destructor of an event that waits for
the lock. -/
def SelfDeadlock (s : TimerPollerRun T E) : Prop :=
  s.lock = some loop ∧ ∃ e rest, s.pc loop = .pollRemove e rest

/-- The event to which the action takes a `shared_ptr` away. -/
def dropped (s : TimerPollerRun T E) : TimerPollerAction T E → Option E
  | .drop _ e => some e
  | .go t =>
    match s.pc t with
    | .release e => some e
    | _ => none
  | _ => none

/-- The action does not take the last other `shared_ptr` to the event that `Poll` holds, unless the
flag of the event is off. -/
def KeepsPolled (s : TimerPollerRun T E) (a : TimerPollerAction T E) : Prop :=
  ∀ e ∈ s.dropped a, s.Polls loop e → s.others e = 1 → s.readNotify e = false

instance (s : TimerPollerRun T E) (a : TimerPollerAction T E) :
    Decidable (s.KeepsPolled loop a) := by
  unfold KeepsPolled; infer_instance

/-- No self-deadlock, and none after the next step of the loop thread. -/
def Safe (s : TimerPollerRun T E) : Prop :=
  ¬ s.SelfDeadlock loop ∧ ∀ t, s.go ev loop loop = some t → ¬ t.SelfDeadlock loop

/-! ## The lock and the parameters -/

/-- Under `lock_`. -/
def inside : PollerThread E → Bool
  | .polling _ | .polled _ _ | .pollRemove _ _ | .updating _ | .removing _ => true
  | .idle | .poll | .update _ | .release _ | .remove _ => false

/-- The parameter of `UpdateEvent` is a `shared_ptr` to the event. -/
def updates (e : E) : PollerThread E → Bool
  | .update event | .updating event | .release event => decide (event = e)
  | .idle | .poll | .polling _ | .polled _ _ | .pollRemove _ _ | .remove _ | .removing _ => false

structure Consistent (s : TimerPollerRun T E) : Prop where
  lock : Owned inside s.pc s.lock
  params : ∀ e, Counted (updates e) s.pc (s.params e)

/-- The step of thread `c` from `p` to `q`, as the lock and the counters see it. -/
structure Moves (s : TimerPollerRun T E) (c : T) (q : PollerThread E) (t : TimerPollerRun T E) :
    Prop where
  pc : t.pc = Function.update s.pc c q
  lock : Owned.Move inside c (s.pc c) q s.lock t.lock
  params : ∀ e, Counted.Move (updates e) (s.pc c) q (s.params e) (t.params e)
  /-- a destructor inside `Poll` goes on only when it gets the lock -/
  waits : ∀ e rest, s.pc c = .pollRemove e rest → s.lock = none

variable {ev loop} {s t : TimerPollerRun T E}

omit [DecidableEq T] in
theorem consistent_new : (new : TimerPollerRun T E).Consistent where
  lock c := by simp [new, inside]
  params e := ⟨by simp [new, updates], by simp [new, updates]⟩

theorem Consistent.moves {c : T} {q : PollerThread E} (hs : s.Consistent) (hm : s.Moves c q t) :
    t.Consistent where
  lock := hm.pc ▸ hs.lock.move rfl hm.lock
  params e := hm.pc ▸ (hs.params e).move rfl (hm.params e)

/-- A step that leaves the parameters as they are. -/
theorem Moves.of {c : T} {p q : PollerThread E} (hp : s.pc c = p)
    (hpc : t.pc = Function.update s.pc c q) (hlock : Owned.Move inside c p q s.lock t.lock)
    (hparams : t.params = s.params) (hupdates : ∀ e, updates e q = updates e p)
    (hp' : ∀ e rest, p ≠ .pollRemove e rest) : s.Moves c q t where
  pc := hpc
  lock := hp ▸ hlock
  params e := by
    rw [hparams, hp]
    exact .stay (hupdates e)
  waits e rest hpc := absurd (hp.symm.trans hpc) (hp' e rest)

theorem afterDrop_cases (loop : T) (s : TimerPollerRun T E) (c : T) (e : E) :
    s.afterDrop loop c e = s.setPc c .idle ∨
      s.afterDrop loop c e =
        { s with readNotify := Function.update s.readNotify e false }.setPc c (.remove e) := by
  unfold afterDrop
  split
  next => exact .inl rfl
  next =>
    split
    next => exact .inr rfl
    next => exact .inl rfl

theorem endIteration_cases (s : TimerPollerRun T E) (c : T) (e : E) (rest : List E) :
    s.endIteration c e rest = s.setPc c (.polling rest) ∨
      s.others e = 0 ∧ s.readNotify e = true ∧ s.endIteration c e rest =
        { s with readNotify := Function.update s.readNotify e false }.setPc c
          (.pollRemove e rest) := by
  unfold endIteration
  split
  next => exact .inl rfl
  next hothers =>
    split
    next hflag => exact .inr ⟨Nat.eq_zero_of_not_pos hothers, hflag, rfl⟩
    next => exact .inl rfl

/-- What the next step of a thread in a method is, by where the thread is. -/
inductive Goes (ev : PolledEvents E) (loop : T) (s : TimerPollerRun T E) (c : T) :
    TimerPollerRun T E → Prop
  | leave (hpc : s.pc c = .polling []) : Goes ev loop s c ({ s with lock := none }.setPc c .idle)
  | look {e : E} {rest : List E} (hpc : s.pc c = .polling (e :: rest)) (halive : s.Alive loop e) :
      Goes ev loop s c
        ({ s with readAble := Function.update s.readAble e true }.setPc c (.polled e rest))
  | skip {e : E} {rest : List E} (hpc : s.pc c = .polling (e :: rest)) :
      Goes ev loop s c (s.setPc c (.polling rest))
  | endIteration {e : E} {rest : List E} (hpc : s.pc c = .polled e rest) :
      Goes ev loop s c (s.endIteration c e rest)
  | pollRemove {e : E} {rest : List E} (hpc : s.pc c = .pollRemove e rest) (hlock : s.lock = none)
      (t : TimerPollerRun T E) : Goes ev loop s c t
  | lockUpdate {e : E} (hpc : s.pc c = .update e) (hlock : s.lock = none) :
      Goes ev loop s c ({ s with lock := some c }.setPc c (.updating e))
  | update {e : E} (hpc : s.pc c = .updating e) (p : TimerPoller E) :
      Goes ev loop s c ({ s with poller := p, lock := none }.setPc c (.release e))
  | release {e : E} (hpc : s.pc c = .release e) :
      Goes ev loop s c
        ({ s with params := Function.update s.params e (s.params e - 1) }.afterDrop loop c e)
  | lockRemove {e : E} (hpc : s.pc c = .remove e) (hlock : s.lock = none) :
      Goes ev loop s c ({ s with lock := some c }.setPc c (.removing e))
  | remove {e : E} (hpc : s.pc c = .removing e) (p : TimerPoller E) :
      Goes ev loop s c ({ s with poller := p, lock := none }.setPc c .idle)

theorem go_goes {c : T} (hgo : s.go ev loop c = some t) : Goes ev loop s c t := by
  unfold go at hgo
  split at hgo
  next => cases hgo
  next => cases hgo
  next hpc =>
    cases hgo
    exact .leave hpc
  next hpc =>
    split at hgo
    next halive =>
      cases hgo
      exact .look hpc halive
    next =>
      cases hgo
      exact .skip hpc
  next hpc =>
    cases hgo
    exact .endIteration hpc
  next hpc => exact .pollRemove hpc (Option.ite_none_right_eq_some.mp hgo).1 t
  next hpc =>
    obtain ⟨hlock, ht⟩ := Option.ite_none_right_eq_some.mp hgo
    cases ht
    exact .lockUpdate hpc hlock
  next hpc =>
    obtain ⟨p, -, rfl⟩ := Option.map_eq_some_iff.mp hgo
    exact .update hpc p
  next hpc =>
    cases hgo
    exact .release hpc
  next hpc =>
    obtain ⟨hlock, ht⟩ := Option.ite_none_right_eq_some.mp hgo
    cases ht
    exact .lockRemove hpc hlock
  next hpc =>
    obtain ⟨p, -, rfl⟩ := Option.map_eq_some_iff.mp hgo
    exact .remove hpc p

omit [DecidableEq T] in
/-- Whoever is under the lock holds it. -/
theorem Consistent.locked {c : T} {p : PollerThread E} (hs : s.Consistent) (hpc : s.pc c = p)
    (hp : inside p = true) : s.lock = some c :=
  (hs.lock c).mp (hpc ▸ hp)

omit [DecidableEq T] in
theorem Consistent.not_pollRemove {c : T} {e : E} {rest : List E} (hs : s.Consistent)
    (hlock : s.lock = none) : s.pc c ≠ .pollRemove e rest := fun hpc =>
  absurd ((hs.locked hpc rfl).symm.trans hlock) nofun

omit [DecidableEq T] in
theorem Consistent.params_pos {c : T} {e : E} (hs : s.Consistent) (hpc : s.pc c = .release e) :
    0 < s.params e :=
  Int.natCast_pos.mp ((hs.params e).pos_of_inside (c := c) (by rw [hpc]; exact decide_eq_true rfl))

/-- The parameter of `UpdateEvent` goes. -/
theorem Consistent.release {c : T} {e : E} (hs : s.Consistent) (hpc : s.pc c = .release e) :
    ∃ q, s.Moves c q
      ({ s with params := Function.update s.params e (s.params e - 1) }.afterDrop loop c e) := by
  have hparams : ∀ q, (∀ e, updates e q = false) → ∀ e', Counted.Move (updates e') (s.pc c) q
      (s.params e') ((Function.update s.params e (s.params e - 1) e' : Nat) : Int) := by
    intro q hq e'
    rw [hpc]
    rcases eq_or_ne e' e with rfl | hne
    · have hpos := hs.params_pos hpc
      rw [Function.update_self, Int.natCast_sub hpos]
      exact .leave (decide_eq_true rfl) (hq e')
    · rw [Function.update_of_ne hne]
      exact .stay ((hq e').trans (decide_eq_false hne.symm).symm)
  have hwaits : ∀ e rest, s.pc c = .pollRemove e rest → s.lock = none :=
    fun e rest h => absurd (hpc.symm.trans h) nofun
  rcases afterDrop_cases loop
    { s with params := Function.update s.params e (s.params e - 1) } c e with heq | heq
  · rw [heq]
    exact ⟨.idle, rfl, hpc ▸ .stay rfl, hparams _ fun _ => rfl, hwaits⟩
  · rw [heq]
    exact ⟨.remove e, rfl, hpc ▸ .stay rfl, hparams _ fun _ => rfl, hwaits⟩

theorem Goes.moves {c : T} (hs : s.Consistent) (hgo : Goes ev loop s c t) :
    ∃ q, s.Moves c q t := by
  cases hgo with
  | leave hpc => exact ⟨_, .of hpc rfl (.leave rfl rfl) rfl (fun _ => rfl) nofun⟩
  | look hpc halive => exact ⟨_, .of hpc rfl (.stay rfl) rfl (fun _ => rfl) nofun⟩
  | skip hpc => exact ⟨_, .of hpc rfl (.stay rfl) rfl (fun _ => rfl) nofun⟩
  | endIteration hpc =>
    rcases endIteration_cases s c _ _ with heq | ⟨-, -, heq⟩
    · rw [heq]
      exact ⟨_, .of hpc rfl (.stay rfl) rfl (fun _ => rfl) nofun⟩
    · rw [heq]
      exact ⟨_, .of hpc rfl (.stay rfl) rfl (fun _ => rfl) nofun⟩
  | pollRemove hpc hlock => exact absurd hpc (hs.not_pollRemove hlock)
  | lockUpdate hpc hlock => exact ⟨_, .of hpc rfl (.enter hlock rfl) rfl (fun _ => rfl) nofun⟩
  | update hpc p => exact ⟨_, .of hpc rfl (.leave rfl rfl) rfl (fun _ => rfl) nofun⟩
  | release hpc => exact hs.release hpc
  | lockRemove hpc hlock => exact ⟨_, .of hpc rfl (.enter hlock rfl) rfl (fun _ => rfl) nofun⟩
  | remove hpc p => exact ⟨_, .of hpc rfl (.leave rfl rfl) rfl (fun _ => rfl) nofun⟩

theorem step_moves {a : TimerPollerAction T E} (hs : s.Consistent)
    (hstep : s.step ev loop a = some t) : ∃ c q, s.Moves c q t := by
  cases a with
  | create c e | copy c e =>
    obtain ⟨⟨hpc, -⟩, ht⟩ := Option.ite_none_right_eq_some.mp hstep
    cases ht
    exact ⟨c, .idle, .of hpc (by rw [← hpc, Function.update_eq_self]) (.stay rfl) rfl
      (fun _ => rfl) nofun⟩
  | drop c e =>
    obtain ⟨⟨hpc, -⟩, ht⟩ := Option.ite_none_right_eq_some.mp hstep
    cases ht
    rcases afterDrop_cases loop { s with refs := Function.update s.refs e (s.refs e - 1) } c e
      with heq | heq
    · rw [heq]
      exact ⟨c, _, .of hpc rfl (.stay rfl) rfl (fun _ => rfl) nofun⟩
    · rw [heq]
      exact ⟨c, _, .of hpc rfl (.stay rfl) rfl (fun _ => rfl) nofun⟩
  | enableReadNotify c e =>
    obtain ⟨⟨hpc, -⟩, ht⟩ := Option.ite_none_right_eq_some.mp hstep
    cases ht
    refine ⟨c, .update e, rfl, hpc ▸ .stay rfl, fun e' => ?_,
      fun e rest h => absurd (hpc.symm.trans h) nofun⟩
    rw [hpc]
    rcases eq_or_ne e' e with rfl | hne
    · simp only [setPc, Function.update_self, Nat.cast_add, Nat.cast_one]
      exact .enter rfl (decide_eq_true rfl)
    · simp only [setPc, Function.update_of_ne hne]
      exact .stay (decide_eq_false hne.symm)
  | disableReadNotify c e =>
    obtain ⟨⟨hpc, -⟩, ht⟩ := Option.ite_none_right_eq_some.mp hstep
    cases ht
    exact ⟨c, .remove e, .of hpc rfl (.stay rfl) rfl (fun _ => rfl) nofun⟩
  | poll =>
    obtain ⟨hpc, ht⟩ := Option.ite_none_right_eq_some.mp hstep
    cases ht
    exact ⟨loop, .poll, .of hpc rfl (.stay rfl) rfl (fun _ => rfl) nofun⟩
  | copyEvents now =>
    obtain ⟨⟨hpc, hlock⟩, ht⟩ := Option.ite_none_right_eq_some.mp hstep
    cases ht
    exact ⟨loop, _, .of hpc rfl (.enter hlock rfl) rfl (fun _ => rfl) nofun⟩
  | go c =>
    obtain ⟨q, hm⟩ := (go_goes hstep).moves hs
    exact ⟨c, q, hm⟩

theorem Consistent.step {a : TimerPollerAction T E} (hs : s.Consistent)
    (hstep : s.step ev loop a = some t) : t.Consistent := by
  obtain ⟨c, q, hm⟩ := step_moves hs hstep
  exact hs.moves hm

/-! ## The event that `Poll` holds -/

/-- `Poll` is not in a destructor, and the event that it holds has another `shared_ptr` or no flag.
-/
structure Guarded (loop : T) (s : TimerPollerRun T E) : Prop where
  notRemoving : ∀ e rest, s.pc loop ≠ .pollRemove e rest
  flagOff : ∀ e, s.Polls loop e → s.others e = 0 → s.readNotify e = false

omit [DecidableEq T] [DecidableEq E] in
theorem polls_iff {e : E} : s.Polls loop e ↔ ∃ rest, s.pc loop = .polled e rest := by
  unfold Polls
  split
  next hpc =>
    rw [hpc]
    exact ⟨fun h => ⟨_, congrArg (PollerThread.polled · _) h⟩,
      fun ⟨_, h⟩ => (PollerThread.polled.inj h).1⟩
  next hpc => exact ⟨False.elim, fun ⟨rest, h⟩ => hpc e rest h⟩

theorem safe_iff_guarded (hs : s.Consistent) : s.Safe ev loop ↔ s.Guarded loop := by
  constructor
  · rintro ⟨hnot, hnext⟩
    refine ⟨fun e rest hpc => hnot ⟨hs.locked hpc rfl, e, rest, hpc⟩, fun e hpolls hothers => ?_⟩
    obtain ⟨rest, hpc⟩ := polls_iff.mp hpolls
    by_contra hflag
    -- the iteration ends, and the destructor runs
    refine hnext (s.endIteration loop e rest) (by simp only [go, hpc]) ?_
    have hflag' : s.readNotify e = true := by simpa using hflag
    simp only [endIteration, hothers, hflag', lt_irrefl, if_false, if_true]
    exact ⟨hs.locked hpc rfl, e, rest, Function.update_self ..⟩
  · intro hg
    refine ⟨fun ⟨_, e, rest, hpc⟩ => hg.notRemoving e rest hpc, ?_⟩
    rintro t hgo ⟨-, e, rest, hpc⟩
    cases go_goes hgo with
    | endIteration hpc' =>
      rcases endIteration_cases s loop _ _ with heq | ⟨hothers, hflag, -⟩
      · rw [heq, setPc_pc, Function.update_self] at hpc
        cases hpc
      · exact absurd (hflag.symm.trans (hg.flagOff _ (polls_iff.mpr ⟨_, hpc'⟩) hothers)) nofun
    | pollRemove hpc' => exact hg.notRemoving _ _ hpc'
    | release hpc' =>
      rcases afterDrop_cases loop
        { s with params := Function.update s.params _ (s.params _ - 1) } loop _ with heq | heq
      · rw [heq, setPc_pc, Function.update_self] at hpc
        cases hpc
      · rw [heq, setPc_pc, Function.update_self] at hpc
        cases hpc
    | leave | look | skip | lockUpdate | update | lockRemove | remove =>
      rw [setPc_pc, Function.update_self] at hpc
      cases hpc

/-- No `shared_ptr` to an event and none of its destructor. -/
def calm : PollerThread E → Bool
  | .polled _ _ | .pollRemove _ _ => false
  | .idle | .poll | .polling _ | .update _ | .updating _ | .release _ | .remove _
  | .removing _ => true

omit [DecidableEq T] [DecidableEq E] in
theorem guarded_of_calm (h : calm (s.pc loop) = true) : s.Guarded loop where
  notRemoving e rest hpc := by
    rw [hpc] at h
    cases h
  flagOff e hpolls := by
    obtain ⟨rest, hpc⟩ := polls_iff.mp hpolls
    rw [hpc] at h
    cases h

omit [DecidableEq T] [DecidableEq E] in
theorem polls_congr (h : t.pc loop = s.pc loop) {e : E} : t.Polls loop e ↔ s.Polls loop e := by
  rw [polls_iff, polls_iff, h]

omit [DecidableEq E] in
/-- A step that takes no `shared_ptr` away and turns no flag on. -/
theorem Guarded.of {c : T} {q : PollerThread E} (hg : s.Guarded loop)
    (hpc : t.pc = Function.update s.pc c q) (hq : c = loop → calm q = true)
    (hothers : ∀ e, t.others e = 0 →
      s.others e = 0 ∧ (t.readNotify e = true → s.readNotify e = true)) : t.Guarded loop := by
  rcases eq_or_ne loop c with rfl | hne
  · exact guarded_of_calm (by rw [hpc, Function.update_self]; exact hq rfl)
  · have hloop : t.pc loop = s.pc loop := by rw [hpc, Function.update_of_ne hne]
    refine ⟨fun e rest => hloop ▸ hg.notRemoving e rest, fun e hpolls h0 => ?_⟩
    obtain ⟨hs0, hflag⟩ := hothers e h0
    exact Bool.eq_false_iff.mpr fun h =>
      absurd ((hflag h).symm.trans (hg.flagOff e ((polls_congr hloop).mp hpolls) hs0)) nofun

/-- A `shared_ptr` goes. What is left is guarded exactly when it was not the last other one of the
event in `Poll`, or the flag is off. -/
theorem guarded_afterDrop {c : T} {e : E} (hg : s.Guarded loop) (hcalm : calm (s.pc c) = true)
    (hpc : t.pc = s.pc) (hnotify : t.readNotify = s.readNotify) (hpos : 0 < s.others e)
    (hself : t.others e = s.others e - 1) (hother : ∀ e', e' ≠ e → t.others e' = s.others e') :
    (t.afterDrop loop c e).Guarded loop ↔
      (s.Polls loop e → s.others e = 1 → s.readNotify e = false) := by
  rcases eq_or_ne loop c with rfl | hne
  · -- the loop thread is not in an iteration
    refine iff_of_true (guarded_of_calm ?_) fun hpolls => ?_
    · rcases afterDrop_cases loop t loop e with heq | heq
      · rw [heq, setPc_pc, Function.update_self]
        rfl
      · rw [heq, setPc_pc, Function.update_self]
        rfl
    · obtain ⟨rest, h⟩ := polls_iff.mp hpolls
      rw [h] at hcalm
      cases hcalm
  · have hloop : (t.afterDrop loop c e).pc loop = s.pc loop := by
      rcases afterDrop_cases loop t c e with heq | heq
      · rw [heq, setPc_pc, Function.update_of_ne hne, hpc]
      · rw [heq, setPc_pc, Function.update_of_ne hne, hpc]
    have hothers : (t.afterDrop loop c e).others = t.others := by
      rcases afterDrop_cases loop t c e with heq | heq
      · rw [heq]
        rfl
      · rw [heq]
        rfl
    constructor
    · intro hg' hpolls h1
      have halive : t.Alive loop e := .inr ((polls_congr (by rw [hpc])).mpr hpolls)
      have hflag := hg'.flagOff e ((polls_congr hloop).mpr hpolls) (by rw [hothers, hself, h1])
      rwa [afterDrop, if_pos halive, setPc_readNotify, hnotify] at hflag
    · intro hoff
      refine ⟨fun e' rest => hloop ▸ hg.notRemoving e' rest, fun e' hpolls h0 => ?_⟩
      rw [polls_congr hloop] at hpolls
      rw [hothers] at h0
      have hflag : s.readNotify e' = false := by
        rcases eq_or_ne e' e with rfl | he
        · exact hoff hpolls (by omega)
        · exact hg.flagOff e' hpolls (hother e' he ▸ h0)
      rcases afterDrop_cases loop t c e with heq | heq
      · rw [heq, setPc_readNotify, hnotify, hflag]
      · rw [heq, setPc_readNotify, hnotify]
        rcases eq_or_ne e' e with rfl | he
        · exact Function.update_self ..
        · exact (Function.update_of_ne he ..).trans hflag

theorem update_off_of {f : E → Bool} {e e' : E} (h : Function.update f e false e' = true) :
    f e' = true := by
  rcases eq_or_ne e' e with rfl | he
  · rw [Function.update_self] at h
    cases h
  · rwa [Function.update_of_ne he] at h

theorem Goes.guarded_iff {c : T} (hs : s.Consistent) (hg : s.Guarded loop)
    (hgo : Goes ev loop s c t) : t.Guarded loop ↔ s.KeepsPolled loop (.go c) := by
  have hkeeps : (∀ e, s.pc c ≠ .release e) → s.KeepsPolled loop (.go c) := by
    intro h e he
    have hnone : s.dropped (.go c) = none := by simp only [dropped]
    rw [hnone] at he
    cases he
  have hsame : ∀ e, s.others e = 0 →
      s.others e = 0 ∧ (s.readNotify e = true → s.readNotify e = true) := fun e h => ⟨h, id⟩
  cases hgo with
  | leave hpc | skip hpc | lockUpdate hpc | update hpc | lockRemove hpc | remove hpc =>
    exact iff_of_true (hg.of rfl (fun _ => rfl) hsame) (hkeeps fun e => by rw [hpc]; exact nofun)
  | look hpc halive =>
    refine iff_of_true ?_ (hkeeps fun e => by rw [hpc]; exact nofun)
    rcases eq_or_ne loop c with rfl | hne
    · -- the pointer was locked, so the event has another one
      refine ⟨fun e rest h => ?_, fun e hpolls h0 => ?_⟩
      · rw [setPc_pc, Function.update_self] at h
        cases h
      · obtain ⟨rest, h⟩ := polls_iff.mp hpolls
        rw [setPc_pc, Function.update_self] at h
        cases h
        rcases halive with hpos | hpolls
        · exact absurd h0 (Nat.ne_of_gt hpos)
        · obtain ⟨rest, h⟩ := polls_iff.mp hpolls
          exact absurd (hpc.symm.trans h) nofun
    · exact hg.of rfl (fun h => absurd h.symm hne) hsame
  | endIteration hpc =>
    refine iff_of_true ?_ (hkeeps fun e => by rw [hpc]; exact nofun)
    rcases endIteration_cases s c _ _ with heq | ⟨hothers, hflag, heq⟩
    · rw [heq]
      exact hg.of rfl (fun _ => rfl) hsame
    · rw [heq]
      refine hg.of rfl (fun h => ?_) fun e h => ⟨h, update_off_of⟩
      subst h
      exact absurd (hflag.symm.trans (hg.flagOff _ (polls_iff.mpr ⟨_, hpc⟩) hothers)) nofun
  | pollRemove hpc hlock => exact absurd hpc (hs.not_pollRemove hlock)
  | @release e hpc =>
    have hpos := hs.params_pos hpc
    refine (guarded_afterDrop
      (t := { s with params := Function.update s.params e (s.params e - 1) })
      hg (by rw [hpc]; rfl) rfl rfl (Nat.add_pos_right _ hpos) ?_ ?_).trans ?_
    rotate_left 2
    · simp only [KeepsPolled, dropped, hpc, Option.mem_some_iff, forall_eq']
    · simp only [others, Function.update_self]
      omega
    · intro e' he
      simp only [others, Function.update_of_ne he]

theorem step_guarded_iff {a : TimerPollerAction T E} (hs : s.Consistent) (hg : s.Guarded loop)
    (hstep : s.step ev loop a = some t) : t.Guarded loop ↔ s.KeepsPolled loop a := by
  have hcalm : ∀ {c : T}, s.pc c = .idle → calm (s.pc c) = true := fun h => by rw [h]; rfl
  cases a with
  | create c e | copy c e =>
    obtain ⟨⟨hpc, -⟩, ht⟩ := Option.ite_none_right_eq_some.mp hstep
    cases ht
    refine iff_of_true (hg.of (Function.update_eq_self c _).symm (fun _ => hcalm hpc) ?_) nofun
    intro e' h
    rcases eq_or_ne e' e with rfl | he
    · simp [others] at h
    · simpa [others, Function.update_of_ne he] using h
  | drop c e =>
    obtain ⟨⟨hpc, hpos⟩, ht⟩ := Option.ite_none_right_eq_some.mp hstep
    cases ht
    refine (guarded_afterDrop (t := { s with refs := Function.update s.refs e (s.refs e - 1) })
      hg (hcalm hpc) rfl rfl (Nat.add_pos_left hpos _) ?_ ?_).trans ?_
    rotate_left 2
    · simp only [KeepsPolled, dropped, Option.mem_some_iff, forall_eq']
    · simp only [others, Function.update_self]
      omega
    · intro e' he
      simp only [others, Function.update_of_ne he]
  | enableReadNotify c e =>
    obtain ⟨-, ht⟩ := Option.ite_none_right_eq_some.mp hstep
    cases ht
    refine iff_of_true (hg.of rfl (fun _ => rfl) fun e' h => ?_) nofun
    rcases eq_or_ne e' e with rfl | he
    · simp [others, setPc] at h
    · simpa [others, setPc, Function.update_of_ne he] using h
  | disableReadNotify c e =>
    obtain ⟨-, ht⟩ := Option.ite_none_right_eq_some.mp hstep
    cases ht
    exact iff_of_true (hg.of rfl (fun _ => rfl) fun e' h => ⟨h, update_off_of⟩) nofun
  | poll =>
    obtain ⟨-, ht⟩ := Option.ite_none_right_eq_some.mp hstep
    cases ht
    exact iff_of_true (hg.of rfl (fun _ => rfl) fun e h => ⟨h, id⟩) nofun
  | copyEvents now =>
    obtain ⟨-, ht⟩ := Option.ite_none_right_eq_some.mp hstep
    cases ht
    exact iff_of_true (hg.of rfl (fun _ => rfl) fun e h => ⟨h, id⟩) nofun
  | go c => exact (go_goes hstep).guarded_iff hs hg

/-! ## Runs -/

/-- A self-deadlock stays: nobody but the loop thread can free the lock. -/
theorem SelfDeadlock.step {a : TimerPollerAction T E} (hs : s.Consistent)
    (hd : s.SelfDeadlock loop) (hstep : s.step ev loop a = some t) : t.SelfDeadlock loop := by
  obtain ⟨hlock, e, rest, hpc⟩ := hd
  obtain ⟨c, q, hm⟩ := step_moves hs hstep
  have hc : loop ≠ c := by
    rintro rfl
    exact absurd (hlock.symm.trans (hm.waits e rest hpc)) nofun
  have houtside : inside (s.pc c) = false :=
    Bool.eq_false_iff.mpr fun h => hc (Option.some.inj (hlock.symm.trans ((hs.lock c).mp h)))
  refine ⟨?_, e, rest, by rw [hm.pc, Function.update_of_ne hc, hpc]⟩
  have hmove := hm.lock
  generalize t.lock = o at hmove
  cases hmove with
  | stay => exact hlock
  | enter hfree => exact absurd (hlock.symm.trans hfree) nofun
  | leave hin => exact absurd (hin.symm.trans houtside) nofun

theorem SelfDeadlock.run {as : List (TimerPollerAction T E)} (hs : s.Consistent)
    (hd : s.SelfDeadlock loop) (hrun : (system ev loop).run s as = some t) :
    t.SelfDeadlock loop := by
  have hlast := System.run_invariant (P := fun s => s.Consistent ∧ s.SelfDeadlock loop) ⟨hs, hd⟩
    (fun s a t h hstep => ⟨h.1.step hstep, h.2.step h.1 hstep⟩) hrun
  exact hlast.2

/-- In no state of a run is the loop thread in a self-deadlock, or one step of its own away from it,
exactly when no step of the run takes the last other `shared_ptr` to an event with a flag while
`Poll` holds the event. -/
theorem noSelfDeadlock_iff {as : List (TimerPollerAction T E)}
    (hrun : ((system ev loop).run new as).isSome) :
    (system ev loop).AllStates (Safe ev loop) new as ↔
      (system ev loop).AllSteps (KeepsPolled loop) new as := by
  have hguarded : (new : TimerPollerRun T E).Guarded loop := guarded_of_calm rfl
  refine System.allStates_iff_allSteps (I := Consistent) (L := fun _ => True)
    ((safe_iff_guarded consistent_new).mpr hguarded) consistent_new
    (fun s a t hs hstep => Consistent.step hs hstep) ?_ (fun _ _ => trivial) hrun
  intro s a t hs hsafe _ hstep
  rw [safe_iff_guarded (hs.step hstep)]
  exact step_guarded_iff hs ((safe_iff_guarded hs).mp hsafe) hstep

/-- An event that is due. -/
def oneEvent : PolledEvents Unit := ⟨fun _ => 0, fun _ => 0, fun _ _ _ => rfl⟩

/-- Thread 1 makes an event, turns its flag on and gives it to the poller; then thread 0 calls
`Poll` and locks the weak pointer. -/
def pollsEvent : List (TimerPollerAction Nat Unit) :=
  [.create 1 (), .enableReadNotify 1 (), .go 1, .go 1, .go 1, .poll, .copyEvents 1, .go 0]

/-- The event is dropped after the iteration: the destructor waits for `Poll` to return. -/
theorem noSelfDeadlock_droppedAfter :
    (system oneEvent 0).AllStates (Safe oneEvent 0) new
      (pollsEvent ++ [.go 0, .drop 1 (), .go 0, .go 1, .go 1]) :=
  (noSelfDeadlock_iff (by decide +kernel)).mpr (by decide +kernel)

/-- The event is dropped while `Poll` holds it: its destructor waits for the lock that its own
thread holds, and no run leads out of that. -/
theorem dropped_during_poll : ∃ s, (system oneEvent 0).Reachable s ∧ s.SelfDeadlock 0 ∧
    ∀ as t, (system oneEvent 0).run s as = some t → t.SelfDeadlock 0 := by
  have hlast : ((system oneEvent 0).run new (pollsEvent ++ [.drop 1 (), .go 0])).map
      (fun s => (s.lock, s.pc 0)) = some (some 0, .pollRemove () []) := by decide +kernel
  obtain ⟨s, hrun, hs⟩ := Option.map_eq_some_iff.mp hlast
  obtain ⟨hlock, hpc⟩ := Prod.mk.inj hs
  have hreach := System.reachable_of_run hrun
  have hcons : s.Consistent :=
    hreach.invariant consistent_new fun s a t hs _ hstep => Consistent.step hs hstep
  exact ⟨s, hreach, ⟨hlock, (), [], hpc⟩, fun as t => SelfDeadlock.run hcons ⟨hlock, (), [], hpc⟩⟩

end TimerPollerRun

end Sheep
