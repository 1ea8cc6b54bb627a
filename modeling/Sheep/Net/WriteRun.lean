import Mathlib.Data.List.Perm.Basic
import Mathlib.Data.List.Range
import Sheep.Lib.System
import Sheep.Net.TcpConnection

/-!
# The handlers of `AsyncWrite`

`writes` is a connection on the loop thread that is written to: any number of `AsyncWrite`s, each
with a handler of its own and issued at any time, also from inside a handler, the deliveries of
their asyncers, writable events with any result of `::write`, and `Finish`.

`HandlerLaw` is the contract of `Finish`: a handler is called at most once, and when `Finish` has
returned every handler has been called. `handlerLaw_of_oneWriteAtATime`: it holds in every run
that delivers an `AsyncWrite` only when the handler delivered before it has been called, and that
finishes the connection only when the last handler delivered has been called or no `AsyncWrite`
was completed before it. Otherwise a handler is lost: `userWriteHandler_` is overwritten, or
`Finish` takes the `writeDone_` of an earlier `AsyncWrite` for its own.
-/

namespace Sheep

structure WriteRun where
  conn : TcpConnection
  /-- the handlers that run, the innermost first, with the rest of the method that called them -/
  frames : List (Call × Frame)
  /-- ghost: the number of `AsyncWrite`s; their handlers are numbered -/
  issued : Nat
  /-- ghost: the handlers called, the latest first -/
  called : List Handler
  /-- ghost: the handler delivered last, until it is called -/
  owed : Option Handler
  /-- ghost: the `Finish` that finished the connection has returned -/
  finishReturned : Bool
  deriving DecidableEq, Repr

inductive WriteAction
  | push (buf : List UInt8)
  | asyncWrite
  /-- the loop runs the asyncer's callback -/
  | deliver
  | writable (r : SysResult)
  | finish (errMsg : String)
  /-- the handler called last returns -/
  | resume
  deriving DecidableEq, Repr

/-- The write handler that a call is of. -/
def Call.writeHandler? : Call → Option Handler
  | .write h _ => some h
  | _ => none

def Call.isFinish : Call → Bool
  | .finish _ => true
  | _ => false

/-- The `AsyncWrite` that is interrupted by the handler it replaced. -/
def Frame.interrupted? : Frame → Option Handler
  | .asyncDo h => some h
  | _ => none

namespace WriteRun

def init : WriteRun := ⟨.connected, [], 0, [], none, false⟩

/-- Control leaves a method, either to a handler or back to the caller. -/
def leave (s : WriteRun) (o : Outcome) : WriteRun :=
  match o.pending with
  | none => { s with conn := o.conn }
  | some (call, frame) =>
    { s with
      conn := o.conn
      frames := (call, frame) :: s.frames
      called := call.writeHandler?.toList ++ s.called
      owed := s.owed.filter fun h => call.writeHandler? ≠ some h }

/-- The loop is not re-entered: it dispatches events when no handler runs. -/
def step (s : WriteRun) : WriteAction → Option WriteRun
  | .push buf => (s.conn.writeBufferPush buf).map fun c => { s with conn := c }
  | .asyncWrite => (s.conn.asyncWrite s.issued).map { s with issued := s.issued + 1 }.leave
  | .deliver =>
    if s.frames = [] then
      s.conn.deliver.map fun o =>
        { s with owed := if s.conn.undelivered.isSome then s.conn.undelivered else s.owed }.leave o
    else none
  | .writable r =>
    if s.frames = [] ∧ s.conn.writeNotify then
      (s.conn.writeHandler r).map fun (o, _) => s.leave o
    else none
  | .finish errMsg => some (s.leave (s.conn.finish errMsg))
  | .resume =>
    match s.frames with
    | [] => none
    | (call, f) :: fs => (f.resume s.conn).map
        { s with frames := fs, finishReturned := s.finishReturned || call.isFinish }.leave

end WriteRun

/-- A connection that is written to. -/
def writes : System WriteRun WriteAction := ⟨.init, WriteRun.step⟩

/-- The contract of `Finish` for write handlers. -/
structure HandlerLaw (s : WriteRun) : Prop where
  once : s.called.Nodup
  settled : s.finishReturned = true → ∀ h < s.issued, h ∈ s.called

/-- The condition on a step: an `AsyncWrite` is delivered when the handler delivered before it has
been called, `Finish` comes when that handler has been called or none was called by a writable
event before, and not from a handler that an `AsyncWrite` has just replaced. -/
def OneWriteAtATime (s : WriteRun) : WriteAction → Prop
  | .deliver => s.owed = none
  | .finish _ => s.conn.finished = true ∨
      ((s.conn.writeDone = true → s.owed = none) ∧ s.frames.filterMap (·.2.interrupted?) = [])
  | _ => True

instance : ∀ s a, Decidable (OneWriteAtATime s a)
  | s, .deliver => inferInstanceAs (Decidable (s.owed = none))
  | s, .finish _ => inferInstanceAs (Decidable (s.conn.finished = true ∨
      ((s.conn.writeDone = true → s.owed = none) ∧
        s.frames.filterMap (·.2.interrupted?) = [])))
  | _, .push _ | _, .asyncWrite | _, .writable _ | _, .resume => isTrue True.intro

/-! ## The invariant -/

namespace WriteRun

/-- The handlers of the `AsyncWrite`s that are interrupted. -/
def interrupted (s : WriteRun) : List Handler := s.frames.filterMap (·.2.interrupted?)

/-- Where the handlers are: called, in an interrupted `AsyncWrite`, in the asyncer, or delivered. -/
def places (s : WriteRun) : List Handler :=
  s.called ++ s.interrupted ++ s.conn.undelivered.toList ++ s.owed.toList

end WriteRun

/-- A failed event is the outermost frame: the loop dispatched it when no handler ran. -/
def FailureOutermost : List (Call × Frame) → Prop
  | [] => True
  | (_, f) :: fs => (f.isCallFinish = true → fs = []) ∧ FailureOutermost fs

/-- What the connection and the frames know of the handler that is owed. -/
structure WriteOwed (s : WriteRun) : Prop where
  kept : ∀ h, s.owed = some h → s.conn.userWriteHandler = some h
  undone : s.conn.writeDone = false → s.conn.userWriteHandler = s.owed
  failure : FailureOutermost s.frames
  failed : (∃ p ∈ s.frames, p.2.isCallFinish = true) → s.conn.writeDone = true ∧ s.owed = none

/-- The part of the invariant that does not depend on how far `Finish` is: every handler is in
exactly one place. -/
structure WriteCore (s : WriteRun) : Prop extends WriteOwed s where
  located : s.places.Perm (List.range s.issued)

/-- A frame of a `Finish` that has finished the connection. -/
def finishing (p : Call × Frame) : Bool :=
  p.2.isFinishCanceled || p.2.isFinishWritten || p.1.isFinish

/-- A connection that is not finished. The write event is on while a delivered handler is owed. -/
structure WriteOpen (s : WriteRun) : Prop where
  notify : s.conn.writeNotify = true →
    (∃ p ∈ s.frames, p.2.isCallFinish = true) ∨ s.owed ≠ none
  frames : ∀ p ∈ s.frames, finishing p = false
  notReturned : s.finishReturned = false

/-- A finished connection. Only a delivered handler may still be owed, until `Finish` gets there. -/
structure WriteClosed (s : WriteRun) : Prop where
  undelivered : s.conn.undelivered = none
  interrupted : s.interrupted = []
  lost : s.owed = none ∨
    (s.conn.writeDone = false ∧ ∃ p ∈ s.frames, p.2.isFinishCanceled = true)
  event : s.conn.event = none ∨
    ∃ p ∈ s.frames, p.2.isFinishCanceled = true ∨ p.2.isFinishWritten = true
  settled : (∃ p ∈ s.frames, p.2.isFinishWritten = true ∨ p.1.isFinish = true) ∨
    s.finishReturned = true → s.owed = none

structure WriteInv (s : WriteRun) : Prop extends WriteCore s where
  opened : s.conn.finished = false → WriteOpen s
  closed : s.conn.finished = true → WriteClosed s

namespace WriteRun

variable {s : WriteRun} {h : Handler}

theorem leave_return (s : WriteRun) (c : TcpConnection) :
    s.leave c.return_ = { s with conn := c } := rfl

/-- Whoever is called is not owed any more. -/
theorem owed_filter_self (call : Call) (hcall : call.writeHandler? = some h) :
    (some h).filter (fun k => call.writeHandler? ≠ some k) = none := by
  simp [hcall]

theorem owed_filter_other {call : Call} (hne : ∀ k, s.owed = some k → call.writeHandler? ≠ some k) :
    s.owed.filter (fun k => call.writeHandler? ≠ some k) = s.owed := by
  cases ho : s.owed with
  | none => rfl
  | some k => simp [hne k ho]

end WriteRun

namespace WriteOwed

open WriteRun

variable {s : WriteRun} {h : Handler} {call : Call} {f : Frame} {fs : List (Call × Frame)}

/-- The handler called last has returned; its frame is taken off. -/
theorem pop {b : Bool} (hs : WriteOwed s) (hframes : s.frames = (call, f) :: fs) :
    WriteOwed { s with frames := fs, finishReturned := b } := by
  refine ⟨hs.kept, hs.undone, ?_, ?_⟩
  · have hfail := hs.failure
    rw [hframes] at hfail
    exact hfail.2
  · rintro ⟨p, hp, hpf⟩
    exact hs.failed ⟨p, hframes ▸ List.mem_cons_of_mem _ hp, hpf⟩

/-- A handler is called that was not delivered. -/
theorem callOther {c : TcpConnection} {n : Nat} (hs : WriteOwed s) (call : Call)
    (hcall : call.writeHandler? = some h) (hne : s.owed ≠ some h)
    (hkept : c.userWriteHandler = s.conn.userWriteHandler) (hdone : c.writeDone = s.conn.writeDone)
    (hf : f.isCallFinish = false)
    (hplaces : (h :: s.called ++ (f.interrupted?.toList ++ s.interrupted) ++ c.undelivered.toList ++
      s.owed.toList).Perm (List.range n)) :
    WriteCore ({ s with issued := n }.leave ⟨c, some (call, f)⟩) ∧
      ({ s with issued := n }.leave ⟨c, some (call, f)⟩).owed = s.owed := by
  have howed : ({ s with issued := n }.leave ⟨c, some (call, f)⟩).owed = s.owed := by
    refine owed_filter_other fun k hk heq => hne ?_
    rw [hk, ← heq, hcall]
  refine ⟨⟨⟨?_, ?_, ⟨?_, hs.failure⟩, ?_⟩, ?_⟩, howed⟩
  · rw [howed]
    exact fun k hk => hkept.trans (hs.kept k hk)
  · rw [howed]
    exact fun hc => hkept.trans (hs.undone (hdone ▸ hc))
  · exact fun hc => absurd (hf.symm.trans hc) nofun
  · rw [howed]
    rintro ⟨p, hp, hpf⟩
    rcases List.mem_cons.mp hp with rfl | hp
    · exact absurd (hf.symm.trans hpf) nofun
    · obtain ⟨hd, ho⟩ := hs.failed ⟨p, hp, hpf⟩
      exact ⟨hdone.trans hd, ho⟩
  · refine List.Perm.trans (List.Perm.of_eq ?_) hplaces
    unfold places
    rw [howed]
    simp only [leave, hcall, interrupted, List.filterMap_cons, Option.toList_some,
      List.cons_append, List.nil_append]
    cases f.interrupted? <;> rfl

/-- The connection changes and no handler is called. -/
theorem setConn {c : TcpConnection} {n : Nat} (hs : WriteOwed s)
    (hkept : c.userWriteHandler = s.conn.userWriteHandler) (hdone : c.writeDone = s.conn.writeDone)
    (hplaces : (s.called ++ s.interrupted ++ c.undelivered.toList ++
      s.owed.toList).Perm (List.range n)) :
    WriteCore { s with issued := n, conn := c } :=
  ⟨⟨fun k hk => hkept.trans (hs.kept k hk), fun hc => hkept.trans (hs.undone (hdone ▸ hc)),
    hs.failure, fun hp => ⟨hdone.trans (hs.failed hp).1, (hs.failed hp).2⟩⟩, hplaces⟩

end WriteOwed

namespace WriteCore

open WriteRun

variable {s : WriteRun} {h : Handler} {call : Call} {f : Frame} {fs : List (Call × Frame)}

theorem places_nodup (hs : WriteCore s) : s.places.Nodup :=
  hs.located.nodup_iff.mpr List.nodup_range

theorem lt_issued (hs : WriteCore s) (hh : h ∈ s.places) : h < s.issued :=
  List.mem_range.mp (hs.located.mem_iff.mp hh)

/-- A handler that waits for the loop or in an interrupted `AsyncWrite` is not the one delivered. -/
theorem owed_ne (hs : WriteCore s) (hh : s.conn.undelivered = some h ∨ h ∈ s.interrupted) :
    s.owed ≠ some h := by
  intro hc
  have hnodup := hs.places_nodup
  unfold places at hnodup
  rw [hc, List.nodup_append] at hnodup
  refine hnodup.2.2 h ?_ h List.mem_cons_self rfl
  rcases hh with hh | hh
  · rw [hh]
    exact List.mem_append_right _ List.mem_cons_self
  · exact List.mem_append_left _ (List.mem_append_right _ hh)

/-- The handler called last has returned, and it had not interrupted an `AsyncWrite`. -/
theorem pop {b : Bool} (hs : WriteCore s) (hframes : s.frames = (call, f) :: fs)
    (hf : f.interrupted? = none) : WriteCore { s with frames := fs, finishReturned := b } := by
  refine ⟨hs.toWriteOwed.pop hframes, ?_⟩
  have hint : WriteRun.interrupted { s with frames := fs, finishReturned := b } =
      s.interrupted := by
    unfold interrupted
    rw [hframes, List.filterMap_cons, hf]
  have hplaces := hs.located
  unfold places at hplaces ⊢
  rwa [hint]

/-- The handler that was delivered last is called, and `writeDone_` is set. -/
theorem callOwed {c : TcpConnection} (hs : WriteCore s) (call : Call) (ho : s.owed = some h)
    (hcall : call.writeHandler? = some h) (hdone : c.writeDone = true)
    (hund : c.undelivered = s.conn.undelivered) (hf : f.interrupted? = none)
    (hlast : f.isCallFinish = true → s.frames = []) :
    WriteCore (s.leave ⟨c, some (call, f)⟩) ∧ (s.leave ⟨c, some (call, f)⟩).owed = none := by
  have howed : (s.leave ⟨c, some (call, f)⟩).owed = none := by
    show s.owed.filter _ = none
    rw [ho]
    exact owed_filter_self call hcall
  refine ⟨⟨⟨?_, ?_, ⟨hlast, hs.failure⟩, fun _ => ⟨hdone, howed⟩⟩, ?_⟩, howed⟩
  · rw [howed]
    exact nofun
  · exact fun hc => absurd (hdone.symm.trans hc) nofun
  · have hplaces := hs.located
    unfold places at hplaces ⊢
    rw [howed]
    rw [ho] at hplaces
    refine List.Perm.trans ?_ hplaces
    simp only [leave, interrupted, List.filterMap_cons, hf, hund, hcall, Option.toList_some,
      Option.toList_none, List.append_nil, List.singleton_append]
    exact (List.perm_append_singleton h _).symm

end WriteCore

namespace WriteInv

open WriteRun

variable {s : WriteRun} {o : Outcome}

theorem ofOpen (hcore : WriteCore s) (hfin : s.conn.finished = false) (h : WriteOpen s) :
    WriteInv s :=
  ⟨hcore, fun _ => h, fun hc => absurd (hfin.symm.trans hc) nofun⟩

theorem ofClosed (hcore : WriteCore s) (hfin : s.conn.finished = true) (h : WriteClosed s) :
    WriteInv s :=
  ⟨hcore, fun hc => absurd (hfin.symm.trans hc) nofun, fun _ => h⟩

theorem init : WriteInv writes.init :=
  ofOpen ⟨⟨nofun, fun _ => rfl, True.intro, fun ⟨_, hp, _⟩ => nomatch hp⟩, .refl _⟩ rfl
    ⟨nofun, nofun, rfl⟩

/-- `AsyncWrite`: the new handler is called at once, waits for the handler it replaced, or waits
for the loop. -/
theorem asyncWrite (hs : WriteInv s) (ho : s.conn.asyncWrite s.issued = some o) :
    WriteInv ({ s with issued := s.issued + 1 }.leave o) := by
  have hfresh : s.owed ≠ some s.issued := fun hc => by
    have hlt := hs.lt_issued (h := s.issued) (by simp [places, hc])
    exact Nat.lt_irrefl _ hlt
  have hrange : (s.issued :: s.places).Perm (List.range (s.issued + 1)) := by
    rw [List.range_succ]
    exact (hs.located.cons s.issued).trans (List.perm_append_singleton _ _).symm
  rcases TcpConnection.asyncWrite_cases ho with
    ⟨hfin, rfl⟩ | ⟨hfin, old, hold, rfl⟩ | ⟨hfin, hund, rfl⟩
  · -- the connection is finished
    have hclosed := hs.closed hfin
    obtain ⟨hcore, howed⟩ := hs.toWriteOwed.callOther (.write s.issued "Finished")
      (f := .done) (c := s.conn) (n := s.issued + 1) rfl hfresh rfl rfl rfl hrange
    refine ofClosed hcore hfin ⟨hclosed.undelivered, hclosed.interrupted, ?_, ?_, fun hset => ?_⟩
    · rw [howed]
      exact hclosed.lost.imp_right fun ⟨hd, p, hp, hpf⟩ => ⟨hd, p, List.mem_cons_of_mem _ hp, hpf⟩
    · exact hclosed.event.imp_right fun ⟨p, hp, hpf⟩ => ⟨p, List.mem_cons_of_mem _ hp, hpf⟩
    · rw [howed]
      refine hclosed.settled (hset.imp_left fun ⟨p, hp, hpf⟩ => ?_)
      rcases List.mem_cons.mp hp with rfl | hp
      · simp [Frame.isFinishWritten, Call.isFinish] at hpf
      · exact ⟨p, hp, hpf⟩
  · -- the handler that waits for the loop is replaced: it is called, inside of `Do`
    have hopen := hs.opened hfin
    obtain ⟨hcore, howed⟩ := hs.toWriteOwed.callOther (.write old "Asyncer Canceled")
      (f := .asyncDo s.issued) (c := { s.conn with asyncer := some ⟨none, false, false⟩ })
      (n := s.issued + 1) rfl (hs.owed_ne (.inl hold)) rfl rfl rfl (by
        refine List.Perm.trans (List.perm_iff_count.mpr fun k => ?_) hrange
        simp only [places, hold, Frame.interrupted?, TcpConnection.undelivered_new,
          Option.toList_some, Option.toList_none, List.count_append, List.count_cons,
          List.count_nil]
        omega)
    refine ofOpen hcore hfin ⟨fun hn => ?_, ?_, hopen.notReturned⟩
    · rw [howed]
      exact (hopen.notify hn).imp_left fun ⟨p, hp, hpf⟩ => ⟨p, List.mem_cons_of_mem _ hp, hpf⟩
    · exact List.forall_mem_cons.mpr ⟨rfl, hopen.frames⟩
  · -- nobody waits there
    have hopen := hs.opened hfin
    have hcore := hs.toWriteOwed.setConn
      (c := { s.conn with asyncer := some ⟨some s.issued, true, false⟩ }) (n := s.issued + 1)
      rfl rfl (by
        refine List.Perm.trans (List.perm_iff_count.mpr fun k => ?_) hrange
        simp only [places, hund, TcpConnection.undelivered_waits, Option.toList_some,
          Option.toList_none, List.count_append, List.count_cons, List.count_nil]
        omega)
    exact ofOpen hcore hfin ⟨hopen.notify, hopen.frames, hopen.notReturned⟩

/-- A delivery: the new handler takes the place of one that has been called. -/
theorem deliver (hs : WriteInv s) (hframes : s.frames = []) (howed : s.owed = none)
    (ho : s.conn.deliver = some o) :
    WriteInv ({ s with
      owed := if s.conn.undelivered.isSome then s.conn.undelivered else s.owed }.leave o) := by
  rcases TcpConnection.deliver_cases ho with ⟨h, e, hund, he, rfl⟩ | ⟨h, hund, rfl⟩
  · have hfin : s.conn.finished = false := by
      cases hf : s.conn.finished with
      | false => rfl
      | true => exact absurd (hund.symm.trans (hs.closed hf).undelivered) nofun
    rw [hund, Option.isSome_some, if_pos rfl, leave_return]
    refine ofOpen ⟨⟨fun k hk => hk, fun _ => rfl, hs.failure, ?_⟩, ?_⟩ hfin
      ⟨fun _ => .inr nofun, (hs.opened hfin).frames, (hs.opened hfin).notReturned⟩
    · rintro ⟨p, hp, -⟩
      exact absurd (hframes ▸ hp) List.not_mem_nil
    · show (s.called ++ s.interrupted ++ [] ++ [h]).Perm (List.range s.issued)
      have hplaces := hs.located
      unfold places at hplaces
      simpa [hund, howed] using hplaces
  · rw [hund, Option.isSome_none, if_neg nofun, leave_return]
    have hcore := hs.toWriteOwed.setConn
      (c := { s.conn with asyncer := some ⟨some h, false, true⟩ }) (n := s.issued) rfl rfl (by
        have hplaces := hs.located
        unfold places at hplaces
        rwa [hund] at hplaces)
    exact ⟨hcore, fun hfin => ⟨(hs.opened hfin).notify, (hs.opened hfin).frames,
      (hs.opened hfin).notReturned⟩, fun hfin => ⟨rfl, (hs.closed hfin).interrupted,
        (hs.closed hfin).lost, (hs.closed hfin).event, (hs.closed hfin).settled⟩⟩

/-- A writable event: the delivered handler hears of success or of a failure, or nothing happens
but that bytes are sent. -/
theorem writable {r : SysResult} {sent : List UInt8} (hs : WriteInv s) (hframes : s.frames = [])
    (hnotify : s.conn.writeNotify = true) (ho : s.conn.writeHandler r = some (o, sent)) :
    WriteInv (s.leave o) := by
  have hnone : ∀ {P : Call × Frame → Prop}, ¬ ∃ p ∈ s.frames, P p := by
    rintro P ⟨p, hp, -⟩
    exact absurd (hframes ▸ hp) List.not_mem_nil
  have hfin : s.conn.finished = false := by
    cases hf : s.conn.finished with
    | false => rfl
    | true =>
      have hevent := (hs.closed hf).event.resolve_right hnone
      simp [TcpConnection.writeNotify, hevent] at hnotify
  have hopen := hs.opened hfin
  obtain ⟨h, howed⟩ := Option.ne_none_iff_exists'.mp ((hopen.notify hnotify).resolve_left hnone)
  have hkept := hs.kept h howed
  rcases TcpConnection.writeHandler_outcome ho with
    ⟨k, e, hk, he, rfl⟩ | ⟨k, b, errMsg, hk, herr, rfl⟩ | ⟨b, rfl⟩
  · obtain rfl : h = k := Option.some.inj (hkept.symm.trans hk)
    obtain ⟨hcore, -⟩ := hs.toWriteCore.callOwed (.write h "") (f := .done)
      (c := { s.conn with writeDone := true, event := some { e with writeNotify := false } })
      howed rfl rfl rfl rfl nofun
    exact ofOpen hcore hfin ⟨nofun, List.forall_mem_cons.mpr ⟨rfl, hopen.frames⟩,
      hopen.notReturned⟩
  · obtain rfl : h = k := Option.some.inj (hkept.symm.trans hk)
    obtain ⟨hcore, -⟩ := hs.toWriteCore.callOwed (.write h errMsg)
      (f := .callFinish errMsg) (c := { s.conn with writeBuffer := b, writeDone := true })
      howed rfl rfl rfl rfl fun _ => hframes
    exact ofOpen hcore hfin ⟨fun _ => .inl ⟨_, List.mem_cons_self, rfl⟩,
      List.forall_mem_cons.mpr ⟨rfl, hopen.frames⟩, hopen.notReturned⟩
  · have hcore := hs.toWriteOwed.setConn (c := { s.conn with writeBuffer := b }) (n := s.issued)
      rfl rfl hs.located
    exact ofOpen hcore hfin ⟨hopen.notify, hopen.frames, hopen.notReturned⟩

/-! ### `Finish` -/

/-- The end of `Finish`. -/
theorem finishTail {errMsg : String} (hs : WriteCore s) (hfin : s.conn.finished = true)
    (hund : s.conn.undelivered = none) (hint : s.interrupted = []) (howed : s.owed = none) :
    WriteInv (s.leave (s.conn.finishTail errMsg)) := by
  have howed' : (s.leave (s.conn.finishTail errMsg)).owed = none := by
    show s.owed.filter _ = none
    rw [howed]
    rfl
  refine ofClosed ⟨⟨?_, fun hc => ?_, ⟨nofun, hs.failure⟩, ?_⟩, ?_⟩ hfin
    ⟨hund, hint, .inl howed', .inl rfl, fun _ => howed'⟩
  · rw [howed']
    exact nofun
  · rw [howed', ← howed]
    exact hs.undone hc
  · rintro ⟨p, hp, hpf⟩
    rcases List.mem_cons.mp hp with rfl | hp
    · exact absurd hpf nofun
    · exact ⟨(hs.failed ⟨p, hp, hpf⟩).1, howed'⟩
  · have hplaces := hs.located
    unfold places at hplaces ⊢
    rw [howed', ← howed]
    exact hplaces

/-- `Finish` from `userWriteHandler_` on. -/
theorem finishWrite {errMsg : String} (hs : WriteCore s) (hfin : s.conn.finished = true)
    (hund : s.conn.undelivered = none) (hint : s.interrupted = [])
    (hdone : s.conn.writeDone = true → s.owed = none) :
    WriteInv (s.leave (s.conn.finishWrite errMsg)) := by
  rcases TcpConnection.finishWrite_cases errMsg s.conn with ⟨h, hd, hh, heq⟩ | ⟨hno, heq⟩
  · have howed : s.owed = some h := (hs.undone hd).symm.trans hh
    obtain ⟨hcore, howed'⟩ := hs.callOwed (.write h "Finished")
      (f := .finishWritten errMsg) (c := { s.conn with writeDone := true })
      howed rfl rfl rfl rfl nofun
    rw [heq]
    exact ofClosed hcore hfin ⟨hund, hint, .inl howed', .inr ⟨_, List.mem_cons_self, .inr rfl⟩,
      fun _ => howed'⟩
  · rw [heq]
    refine finishTail hs hfin hund hint ?_
    cases hd : s.conn.writeDone with
    | true => exact hdone hd
    | false => exact (hs.undone hd).symm.trans (hno hd)

/-- `Finish` on a connection that is not finished. -/
theorem finish {errMsg : String} (hs : WriteCore s) (hfin : s.conn.finished = false)
    (hframes : ∀ p ∈ s.frames, finishing p = false) (hreturned : s.finishReturned = false)
    (hint : s.interrupted = [])
    (hdone : s.conn.writeDone = true → s.owed = none) :
    WriteInv (s.leave (s.conn.finish errMsg)) := by
  rcases TcpConnection.finish_cases errMsg hfin with ⟨h, hund, heq⟩ | ⟨a, hund, hund', heq⟩
  · obtain ⟨hcore, howed⟩ := hs.toWriteOwed.callOther (.write h "Asyncer Canceled")
      (f := .finishCanceled errMsg) (n := s.issued)
      (c := { s.conn with finished := true, asyncer := some ⟨some h, false, true⟩ })
      rfl (hs.owed_ne (.inl hund)) rfl rfl rfl (by
        refine List.Perm.trans (List.perm_iff_count.mpr fun k => ?_) hs.located
        have hundone : TcpConnection.undelivered { s.conn with
          finished := true, asyncer := some ⟨some h, false, true⟩ } = none := rfl
        simp only [places, hund, hundone, Frame.interrupted?, Option.toList_some,
          Option.toList_none, List.count_append, List.count_cons, List.count_nil]
        omega)
    rw [heq]
    refine ofClosed hcore rfl ⟨rfl, hint, ?_, .inr ⟨_, List.mem_cons_self, .inl rfl⟩, ?_⟩
    · -- while `writeDone_` is unset, the frame of `Finish` still has the write handler to call
      cases hd : s.conn.writeDone with
      | true => exact .inl (howed.trans (hdone hd))
      | false => exact .inr ⟨rfl, _, List.mem_cons_self, rfl⟩
    · rintro (⟨p, hp, hpf⟩ | hret)
      · rcases List.mem_cons.mp hp with rfl | hp
        · simp [Frame.isFinishWritten, Call.isFinish] at hpf
        · have hno := hframes p hp
          simp only [finishing, Bool.or_eq_false_iff] at hno
          simp [hno] at hpf
      · exact absurd (hreturned.symm.trans hret) nofun
  · rw [heq]
    have hcore := hs.toWriteOwed.setConn (c := { s.conn with finished := true, asyncer := a })
      (n := s.issued) rfl rfl (by
        have hplaces := hs.located
        unfold places at hplaces
        have hsame : TcpConnection.undelivered { s.conn with finished := true, asyncer := a } =
          none := hund'
        rwa [hsame, ← hund])
    exact finishWrite hcore rfl hund' hint hdone

/-! ### Return of a handler -/

variable {call : Call} {f : Frame} {fs : List (Call × Frame)}

/-- The state in which the rest of a method runs, once its handler has returned. -/
abbrev returned (s : WriteRun) (call : Call) (fs : List (Call × Frame)) : WriteRun :=
  { s with frames := fs, finishReturned := s.finishReturned || call.isFinish }

theorem interrupted_pop (hframes : s.frames = (call, f) :: fs) :
    s.interrupted = f.interrupted?.toList ++ (returned s call fs).interrupted := by
  unfold interrupted
  rw [hframes, List.filterMap_cons]
  cases f.interrupted? <;> rfl

theorem opened_pop (hs : WriteInv s) (hframes : s.frames = (call, f) :: fs)
    (hf : f.isCallFinish = false) (hfin : s.conn.finished = false) :
    WriteOpen (returned s call fs) := by
  have hopen := hs.opened hfin
  have hall := hopen.frames
  rw [hframes, List.forall_mem_cons] at hall
  refine ⟨fun hn => (hopen.notify hn).imp_left ?_, hall.2, ?_⟩
  · rintro ⟨p, hp, hpf⟩
    rw [hframes] at hp
    rcases List.mem_cons.mp hp with rfl | hp
    · exact absurd (hf.symm.trans hpf) nofun
    · exact ⟨p, hp, hpf⟩
  · have hcall : call.isFinish = false := by
      have hhead := hall.1
      simp only [finishing, Bool.or_eq_false_iff] at hhead
      exact hhead.2
    show (s.finishReturned || call.isFinish) = false
    rw [hopen.notReturned, hcall]
    rfl

theorem settled_pop (hs : WriteInv s) (hframes : s.frames = (call, f) :: fs)
    (hfin : s.conn.finished = true)
    (hset : (∃ p ∈ fs, p.2.isFinishWritten = true ∨ p.1.isFinish = true) ∨
      (s.finishReturned || call.isFinish) = true) : s.owed = none := by
  refine (hs.closed hfin).settled ?_
  rw [hframes]
  rcases hset with ⟨p, hp, hpf⟩ | hret
  · exact .inl ⟨p, List.mem_cons_of_mem _ hp, hpf⟩
  · rcases Bool.or_eq_true_iff.mp hret with hret | hcall
    · exact .inr hret
    · exact .inl ⟨_, List.mem_cons_self, .inr hcall⟩

/-- Only a finished connection has a frame of `Finish`. -/
theorem finished_of_finishing (hs : WriteInv s) (h : ∃ p ∈ s.frames, finishing p = true) :
    s.conn.finished = true := by
  obtain ⟨p, hp, hpf⟩ := h
  cases hf : s.conn.finished with
  | true => rfl
  | false => exact absurd (((hs.opened hf).frames p hp).symm.trans hpf) nofun

/-- A frame is taken off that is not one of `Finish`. -/
theorem closed_pop (hs : WriteInv s) (hframes : s.frames = (call, f) :: fs)
    (hcanceled : f.isFinishCanceled = false) (hwritten : f.isFinishWritten = false)
    (hfin : s.conn.finished = true) : WriteClosed (returned s call fs) := by
  have hclosed := hs.closed hfin
  have hint := hclosed.interrupted
  rw [interrupted_pop hframes, List.append_eq_nil_iff] at hint
  refine ⟨hclosed.undelivered, hint.2, hclosed.lost.imp_right ?_, hclosed.event.imp_right ?_,
    hs.settled_pop hframes hfin⟩
  · rintro ⟨hd, p, hp, hpf⟩
    rw [hframes] at hp
    rcases List.mem_cons.mp hp with rfl | hp
    · exact absurd (hcanceled.symm.trans hpf) nofun
    · exact ⟨hd, p, hp, hpf⟩
  · rintro ⟨p, hp, hpf⟩
    rw [hframes] at hp
    rcases List.mem_cons.mp hp with rfl | hp
    · simp [hcanceled, hwritten] at hpf
    · exact ⟨p, hp, hpf⟩

/-- The interrupted `AsyncWrite` goes on. -/
theorem resumeAsyncDo {h : Handler} (hs : WriteInv s)
    (hframes : s.frames = (call, .asyncDo h) :: fs) (ho : s.conn.asyncDo h = some o) :
    WriteInv ((returned s call fs).leave o) := by
  have hint := interrupted_pop hframes
  have hfin : s.conn.finished = false := by
    cases hf : s.conn.finished with
    | false => rfl
    | true =>
      rw [(hs.closed hf).interrupted] at hint
      exact absurd hint nofun
  have howed := hs.toWriteOwed.pop (b := s.finishReturned || call.isFinish) hframes
  have hopen := hs.opened_pop hframes rfl hfin
  rcases TcpConnection.asyncDo_cases ho with ⟨hund, rfl⟩ | rfl
  · have hcore := howed.setConn (c := { s.conn with asyncer := some ⟨some h, true, false⟩ })
      (n := s.issued) rfl rfl (by
        refine List.Perm.trans (List.perm_iff_count.mpr fun k => ?_) hs.located
        simp only [places, hint, hund, returned, Frame.interrupted?,
          TcpConnection.undelivered_waits, Option.toList_some, Option.toList_none,
          List.count_append, List.count_cons,
          List.count_nil]
        omega)
    exact ofOpen hcore hfin ⟨hopen.notify, hopen.frames, hopen.notReturned⟩
  · have hne : s.owed ≠ some h := hs.owed_ne (.inr (by rw [hint]; exact List.mem_cons_self))
    obtain ⟨hcore, howed'⟩ := howed.callOther (.write h "Asyncer can't reuse") (f := .done)
      (c := s.conn) (n := s.issued) rfl hne rfl rfl rfl (by
        refine List.Perm.trans (List.perm_iff_count.mpr fun k => ?_) hs.located
        simp only [places, hint, returned, Frame.interrupted?, Option.toList_some,
          Option.toList_none, List.count_append, List.count_cons, List.count_nil]
        omega)
    refine ofOpen hcore hfin ⟨fun hn => ?_, List.forall_mem_cons.mpr ⟨rfl, hopen.frames⟩,
      hopen.notReturned⟩
    rw [howed']
    exact (hopen.notify hn).imp_left fun ⟨p, hp, hpf⟩ => ⟨p, List.mem_cons_of_mem _ hp, hpf⟩

/-- A handler returns, and the rest of the method that called it runs. -/
theorem resume (hs : WriteInv s) (hframes : s.frames = (call, f) :: fs)
    (ho : f.resume s.conn = some o) : WriteInv ((returned s call fs).leave o) := by
  cases f with
  | done =>
    cases ho
    exact ⟨hs.toWriteCore.pop hframes rfl, hs.opened_pop hframes rfl,
      hs.closed_pop hframes rfl rfl⟩
  | callFinish errMsg =>
    cases ho
    have hcore := hs.toWriteCore.pop (b := s.finishReturned || call.isFinish) hframes rfl
    cases hfin : s.conn.finished with
    | true =>
      rw [TcpConnection.finish_finished errMsg hfin]
      exact ofClosed hcore hfin (hs.closed_pop hframes rfl rfl hfin)
    | false =>
      -- the failure was dispatched when no handler ran, so nothing is interrupted
      have hfail := hs.failure
      rw [hframes] at hfail
      obtain rfl : fs = [] := hfail.1 rfl
      have hall := (hs.opened hfin).frames
      rw [hframes, List.forall_mem_cons] at hall
      have hcall : call.isFinish = false := hall.1
      refine finish hcore hfin nofun ?_ rfl fun _ => ?_
      · show (s.finishReturned || call.isFinish) = false
        rw [(hs.opened hfin).notReturned, hcall]
        rfl
      · exact (hs.failed ⟨_, hframes ▸ List.mem_cons_self, rfl⟩).2
  | finishCanceled errMsg =>
    cases ho
    have hcore := hs.toWriteCore.pop (b := s.finishReturned || call.isFinish) hframes rfl
    have hfin := hs.finished_of_finishing ⟨_, hframes ▸ List.mem_cons_self, rfl⟩
    have hint := (hs.closed hfin).interrupted
    rw [interrupted_pop hframes, List.append_eq_nil_iff] at hint
    refine finishWrite hcore hfin (hs.closed hfin).undelivered hint.2 fun hd => ?_
    exact (hs.closed hfin).lost.resolve_right fun hlost =>
      absurd (hd.symm.trans hlost.1) nofun
  | finishWritten errMsg =>
    cases ho
    have hcore := hs.toWriteCore.pop (b := s.finishReturned || call.isFinish) hframes rfl
    have hfin := hs.finished_of_finishing ⟨_, hframes ▸ List.mem_cons_self, rfl⟩
    have hint := (hs.closed hfin).interrupted
    rw [interrupted_pop hframes, List.append_eq_nil_iff] at hint
    exact finishTail hcore hfin (hs.closed hfin).undelivered hint.2
      ((hs.closed hfin).settled (.inl ⟨_, hframes ▸ List.mem_cons_self, .inl rfl⟩))
  | asyncDo h => exact hs.resumeAsyncDo hframes ho

/-- One step keeps the invariant. -/
theorem step {t : WriteRun} {a : WriteAction} (hs : WriteInv s) (hG : OneWriteAtATime s a)
    (hstep : s.step a = some t) : WriteInv t := by
  cases a with
  | push buf =>
    obtain ⟨c, hc, rfl⟩ := Option.map_eq_some_iff.mp hstep
    obtain ⟨b, -, rfl⟩ := Option.map_eq_some_iff.mp hc
    have hcore := hs.toWriteOwed.setConn (c := { s.conn with writeBuffer := b }) (n := s.issued)
      rfl rfl hs.located
    exact ⟨hcore, fun hfin => ⟨(hs.opened hfin).notify, (hs.opened hfin).frames,
      (hs.opened hfin).notReturned⟩, fun hfin => ⟨(hs.closed hfin).undelivered,
        (hs.closed hfin).interrupted, (hs.closed hfin).lost, (hs.closed hfin).event,
        (hs.closed hfin).settled⟩⟩
  | asyncWrite =>
    obtain ⟨o, ho, rfl⟩ := Option.map_eq_some_iff.mp hstep
    exact hs.asyncWrite ho
  | deliver =>
    simp only [WriteRun.step] at hstep
    split at hstep
    next hframes =>
      obtain ⟨o, ho, rfl⟩ := Option.map_eq_some_iff.mp hstep
      exact hs.deliver hframes hG ho
    next => cases hstep
  | writable r =>
    simp only [WriteRun.step] at hstep
    split at hstep
    next hen =>
      obtain ⟨⟨o, sent⟩, ho, rfl⟩ := Option.map_eq_some_iff.mp hstep
      exact hs.writable hen.1 hen.2 ho
    next => cases hstep
  | finish errMsg =>
    cases hstep
    cases hfin : s.conn.finished with
    | true =>
      rw [TcpConnection.finish_finished errMsg hfin]
      exact hs
    | false =>
      obtain ⟨hdone, hint⟩ := hG.resolve_left fun hc => absurd (hfin.symm.trans hc) nofun
      have hopen := hs.opened hfin
      exact finish hs.toWriteCore hfin hopen.frames hopen.notReturned hint hdone
  | resume =>
    simp only [WriteRun.step] at hstep
    split at hstep
    next => cases hstep
    next call f fs hframes =>
      obtain ⟨o, ho, rfl⟩ := Option.map_eq_some_iff.mp hstep
      exact hs.resume hframes ho

/-- Every handler is in one place, and the places of a finished connection are empty. -/
theorem law (hs : WriteInv s) : HandlerLaw s := by
  refine ⟨?_, fun hret h hlt => ?_⟩
  · have hnodup := hs.places_nodup
    unfold places at hnodup
    rw [List.append_assoc, List.append_assoc] at hnodup
    exact (List.nodup_append.mp hnodup).1
  · have hfin : s.conn.finished = true := by
      cases hf : s.conn.finished with
      | true => rfl
      | false => exact absurd ((hs.opened hf).notReturned.symm.trans hret) nofun
    have hclosed := hs.closed hfin
    have hmem := hs.located.mem_iff.mpr (List.mem_range.mpr hlt)
    unfold places at hmem
    simpa [hclosed.undelivered, hclosed.interrupted, hclosed.settled (.inr hret)] using hmem

end WriteInv

/-- The contract of `Finish`: in every run that writes for one `AsyncWrite` at a time, every handler
is called at most once, and all of them have been called when `Finish` has returned. -/
theorem handlerLaw_of_oneWriteAtATime {s : WriteRun} (h : writes.ReachableVia OneWriteAtATime s) :
    HandlerLaw s :=
  (h.invariant WriteInv.init fun _ _ _ hs hG hstep => hs.step hG hstep).law

/-- One write that is completed, and one that `Finish` cancels before it is delivered. -/
theorem handlerLaw_two_writes :
    ∃ s, writes.run writes.init
        [.push [1], .asyncWrite, .deliver, .writable (.count 1), .writable (.count 0), .resume,
          .asyncWrite, .finish "closed", .resume, .resume] = some s ∧
      s.called = [1, 0] ∧ s.finishReturned = true ∧ HandlerLaw s := by
  have h : (writes.run writes.init
      [.push [1], .asyncWrite, .deliver, .writable (.count 1), .writable (.count 0), .resume,
        .asyncWrite, .finish "closed", .resume, .resume]).map
      (fun s => (s.called, s.finishReturned)) = some ([1, 0], true) := by
    decide +kernel
  obtain ⟨s, hs, hghost⟩ := Option.map_eq_some_iff.mp h
  obtain ⟨hcalled, hret⟩ := Prod.mk.injEq .. ▸ hghost
  exact ⟨s, hs, hcalled, hret,
    handlerLaw_of_oneWriteAtATime (System.ReachableVia.run .init (by decide +kernel) hs)⟩

/-- Two writes are delivered, one after the other, before the first is completed: `Finish` calls
the handler of the second only. -/
theorem delivered_handler_lost :
    ∃ s, writes.run writes.init
        [.asyncWrite, .deliver, .asyncWrite, .deliver, .finish "closed", .resume, .resume] =
          some s ∧
      s.issued = 2 ∧ s.called = [1] ∧ s.finishReturned = true ∧ ¬ HandlerLaw s := by
  have h : (writes.run writes.init
      [.asyncWrite, .deliver, .asyncWrite, .deliver, .finish "closed", .resume, .resume]).map
      (fun s => (s.issued, s.called, s.finishReturned)) = some (2, [1], true) := by
    decide +kernel
  obtain ⟨s, hs, hghost⟩ := Option.map_eq_some_iff.mp h
  obtain ⟨hissued, hrest⟩ := Prod.mk.injEq .. ▸ hghost
  obtain ⟨hcalled, hret⟩ := Prod.mk.injEq .. ▸ hrest
  refine ⟨s, hs, hissued, hcalled, hret, fun hlaw => ?_⟩
  have hmem := hlaw.settled hret 0 (by rw [hissued]; decide)
  rw [hcalled] at hmem
  exact absurd hmem (by decide)

end Sheep
