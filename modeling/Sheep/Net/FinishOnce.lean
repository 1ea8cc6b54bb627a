import Sheep.Net.ClientPool
import Sheep.Net.TcpRun

/-!
# `Finish` and the end of a connection

`finished_` lets `Finish` run once. In a run of a connection, `ends` are the calls of the finish
handler and `finishing` the calls of `Finish` that are not there yet: a user handler that they have
called has still to return. `FinishesOnce`: together they are as many as `finished_` says.
`FinishesOnce.step`: every step keeps it but `Reset`, which clears `finished_`, when `Finish` has
begun.
-/

namespace Sheep

/-- What a method does to a connection: it begins `Finish`, or leaves `finished_` alone. -/
def Outcome.Acts (c : TcpConnection) (o : Outcome) : Prop :=
  o.Keeps c ∨ (c.finished = false ∧ ∃ errMsg, o.Finishes errMsg)

theorem Outcome.Lives.acts {c : TcpConnection} {o : Outcome} (h : o.Lives c) : o.Acts c :=
  h.imp_right fun ⟨hlive, errMsg, _, hfin⟩ => ⟨hlive, errMsg, hfin⟩

theorem TcpConnection.finish_acts (errMsg : String) (c : TcpConnection) :
    (c.finish errMsg).Acts c := by
  unfold finish
  split
  · exact .inl (return_keeps rfl rfl)
  next hc =>
    refine .inr ⟨by simpa using hc, errMsg, ?_⟩
    unfold finishCancel
    split
    · exact ⟨rfl, .inl ⟨_, _, _, rfl, rfl⟩⟩
    · exact finishWrite_finishes errMsg rfl
    · exact finishWrite_finishes errMsg rfl

theorem Frame.resume_acts {f : Frame} {c : TcpConnection} {o : Outcome}
    (hf : f.finishError = none) (ho : f.resume c = some o) : o.Acts c := by
  cases f with
  | done =>
    cases ho
    exact .inl (TcpConnection.return_keeps rfl rfl)
  | callFinish errMsg =>
    cases ho
    exact TcpConnection.finish_acts errMsg c
  | finishCanceled | finishWritten => cases hf
  | asyncDo h => exact .inl (TcpConnection.asyncDo_keeps c rfl rfl ho)

/-- The finish handler that a method has called. -/
def Outcome.end? (o : Outcome) : Option String :=
  match o.pending with
  | some (.finish errMsg, _) => some errMsg
  | some (.read .., _) | some (.write .., _) | none => none

namespace TcpRun

/-- The errors that the finish handler has been called with. -/
def ends (r : TcpRun) : List String :=
  r.calls.reverse.filterMap fun c =>
    match c.call with
    | .finish errMsg => some errMsg
    | .read .. | .write .. => none

/-- The calls of `Finish` that have not come to the finish handler. -/
def finishing (r : TcpRun) : Nat := r.frames.countP (·.finishError.isSome)

variable {r t : TcpRun} {o : Outcome}

/-- `Finish` has been called once or not at all, and `finished_` says which. -/
def FinishesOnce (r : TcpRun) : Prop :=
  r.finishing + r.ends.length = r.conn.finished.toNat

theorem ends_leave (r : TcpRun) (o : Outcome) : (r.leave o).ends = r.ends ++ o.end?.toList := by
  unfold leave Outcome.end?
  split
  next hp =>
    rw [hp, Option.toList_none, List.append_nil]
    rfl
  next call frame hp =>
    rw [hp]
    cases call <;> simp [ends]

theorem finishing_cons (r : TcpRun) (f : Frame) (fs : List Frame) :
    ({ r with frames := f :: fs } : TcpRun).finishing =
      ({ r with frames := fs } : TcpRun).finishing + if f.finishError.isSome then 1 else 0 :=
  List.countP_cons ..

theorem leave_finishes {errMsg : String} (hzero : r.finishing + r.ends.length = 0)
    (ho : o.Finishes errMsg) : (r.leave o).FinishesOnce := by
  obtain ⟨hfinishing, hends⟩ := Nat.add_eq_zero_iff.mp hzero
  unfold FinishesOnce
  rw [ends_leave, List.length_append, hends]
  rcases ho.pending with ⟨h, e, f, hp, hf⟩ | hp
  · have hleave : (r.leave o).finishing = r.finishing + if f.finishError.isSome then 1 else 0 := by
      unfold leave
      rw [hp]
      exact finishing_cons r f r.frames
    have hconn : (r.leave o).conn = o.conn := by
      unfold leave
      rw [hp]
    rw [hleave, hconn, ho.finished, hf, hfinishing, Outcome.end?, hp]
    rfl
  · have hleave : (r.leave o).finishing = r.finishing := by
      unfold leave
      rw [hp]
      exact finishing_cons r .done r.frames
    have hconn : (r.leave o).conn = o.conn := by
      unfold leave
      rw [hp]
    rw [hleave, hconn, ho.finished, hfinishing, Outcome.end?, hp]
    rfl

theorem leave_acts (h : r.FinishesOnce) (ho : o.Acts r.conn) : (r.leave o).FinishesOnce := by
  rcases ho with hkeeps | ⟨hlive, errMsg, hfin⟩
  · unfold FinishesOnce
    have hend : o.end? = none := by
      unfold Outcome.end?
      split
      next errMsg f hp => exact absurd hp (hkeeps.call errMsg f)
      all_goals rfl
    rw [ends_leave, hend, Option.toList_none, List.append_nil]
    unfold leave
    split
    next hp =>
      rw [hkeeps.finished]
      exact h
    next call f hp =>
      have hf := (hkeeps.frame call f hp).1
      show List.countP _ (f :: r.frames) + _ = o.conn.finished.toNat
      rw [List.countP_cons, hf, hkeeps.finished]
      exact h
  · refine leave_finishes ?_ hfin
    rw [h, hlive]
    rfl

/-- A step that is no `Reset` of a finished connection. -/
theorem FinishesOnce.step {a : TcpAction} (h : r.FinishesOnce)
    (ha : a = .reset → r.conn.finished = false) (ht : r.step a = some t) : t.FinishesOnce := by
  cases a with
  | push buf =>
    obtain ⟨c, hc, rfl⟩ := Option.map_eq_some_iff.mp ht
    obtain ⟨b, -, rfl⟩ := Option.map_eq_some_iff.mp hc
    exact h
  | popHead len =>
    obtain ⟨c, hc, rfl⟩ := Option.map_eq_some_iff.mp ht
    obtain ⟨b, -, rfl⟩ := Option.map_eq_some_iff.mp hc
    exact h
  | asyncRead n k =>
    cases ht
    exact leave_acts h (.inl (TcpConnection.asyncRead_keeps n k _))
  | asyncReadAny k =>
    cases ht
    exact leave_acts h (.inl (TcpConnection.asyncReadAny_keeps k _))
  | asyncWrite k =>
    obtain ⟨o, ho, rfl⟩ := Option.map_eq_some_iff.mp ht
    exact leave_acts h (.inl (TcpConnection.asyncWrite_keeps ho))
  | finish errMsg =>
    cases ht
    exact leave_acts h (TcpConnection.finish_acts errMsg _)
  | reset =>
    cases ht
    have hlive := ha rfl
    unfold FinishesOnce at h
    rw [hlive] at h
    exact h
  | deliver =>
    obtain ⟨o, ho, rfl⟩ := Option.map_eq_some_iff.mp ht
    exact leave_acts h (.inl (TcpConnection.deliver_keeps ho))
  | readable x =>
    obtain ⟨-, ht⟩ := Option.ite_none_right_eq_some.mp ht
    obtain ⟨o, ho, rfl⟩ := Option.map_eq_some_iff.mp ht
    exact leave_acts (r := { r with received := _ }) h (TcpConnection.readHandler_lives ho).acts
  | writable x =>
    obtain ⟨-, ht⟩ := Option.ite_none_right_eq_some.mp ht
    obtain ⟨⟨o, sent⟩, ho, rfl⟩ := Option.map_eq_some_iff.mp ht
    exact leave_acts (r := { r with sent := _ }) h (.inl (TcpConnection.writeHandler_keeps ho))
  | resume =>
    cases hframes : r.frames with
    | nil =>
      simp only [TcpRun.step, hframes] at ht
      cases ht
    | cons f fs =>
      simp only [TcpRun.step, hframes] at ht
      obtain ⟨o, ho, rfl⟩ := Option.map_eq_some_iff.mp ht
      have hcount : r.finishing = ({ r with frames := fs } : TcpRun).finishing +
          if f.finishError.isSome then 1 else 0 := by
        rw [← finishing_cons, ← hframes]
      unfold FinishesOnce at h
      rw [hcount] at h
      cases hf : f.finishError with
      | none =>
        rw [hf] at h
        exact leave_acts (r := { r with frames := fs }) h (Frame.resume_acts hf ho)
      | some errMsg =>
        -- one `Finish` runs, and this is it
        rw [hf, Option.isSome_some, if_pos rfl, Nat.add_right_comm] at h
        have hlast := Bool.toNat_le r.conn.finished
        have hfinished : r.conn.finished = true :=
          Bool.eq_true_of_not_eq_false fun hlive => by rw [hlive] at h; cases h
        refine leave_finishes (r := { r with frames := fs }) ?_
          (Frame.resume_finishes hf hfinished ho)
        rw [hfinished] at h
        exact Nat.succ.inj h

/-- A step only adds to the ends. -/
theorem ends_step {a : TcpAction} (ht : r.step a = some t) : r.ends <+: t.ends := by
  cases a with
  | push | popHead =>
    obtain ⟨c, hc, rfl⟩ := Option.map_eq_some_iff.mp ht
    exact List.prefix_refl _
  | asyncRead | asyncReadAny | finish =>
    cases ht
    rw [ends_leave]
    exact List.prefix_append ..
  | asyncWrite | deliver =>
    obtain ⟨o, ho, rfl⟩ := Option.map_eq_some_iff.mp ht
    rw [ends_leave]
    exact List.prefix_append ..
  | reset =>
    cases ht
    exact List.prefix_refl _
  | readable x =>
    obtain ⟨-, ht⟩ := Option.ite_none_right_eq_some.mp ht
    obtain ⟨o, ho, rfl⟩ := Option.map_eq_some_iff.mp ht
    rw [ends_leave]
    exact List.prefix_append ..
  | writable x =>
    obtain ⟨-, ht⟩ := Option.ite_none_right_eq_some.mp ht
    obtain ⟨⟨o, sent⟩, ho, rfl⟩ := Option.map_eq_some_iff.mp ht
    rw [ends_leave]
    exact List.prefix_append ..
  | resume =>
    simp only [TcpRun.step] at ht
    split at ht
    · cases ht
    · obtain ⟨o, ho, rfl⟩ := Option.map_eq_some_iff.mp ht
      rw [ends_leave]
      exact List.prefix_append ..

end TcpRun

end Sheep
