import Sheep.Client.HttpClient
import Sheep.Client.RequestSteps

/-!
# A request is answered once

`RequestLaw`: `onDone_` is called at most once, the pool gets the connection back once with the
same error, and once `onDone_` has returned no callback of the request uses the client again; its
owner may have destroyed it. `requestLaw_iff`: the law holds in every run of a client that no
earlier request has used and whose timer expires only while the request waits for its response, and
in no other run that is looked at between callbacks. In the write, `Insert` with the error "timeout"
makes the connection call the write callback; a timer that was not canceled runs its callback on a
finished client; and for the second request of a client `Finish` does nothing, since `finished_` is
set.
-/

namespace Sheep

open RequestRun TcpConnection

variable {σ : Type} {D : Derived σ} {s t : RequestRun σ} {o : Outcome} {errMsg : String}

/-- The error of the call of `onDone_` that runs. -/
def RequestRun.running (s : RequestRun σ) : List String := s.frames.filterMap (·.onDone?)

structure RequestLaw (s : RequestRun σ) : Prop where
  once : s.dones.length = s.finished.toNat
  /-- each `onDone_` that has returned has been followed by an `Insert` with the same error -/
  inserted : s.running ++ s.inserts = s.dones
  silent : s.again = false

/-- The condition on a step: the timer expires while the request waits for the response. -/
def ExpiresWaiting (s : RequestRun σ) : RequestAction → Prop
  | .expire _ => s.finished = false ∧ s.conn.userReadHandler ≠ none
  | _ => True

instance : ∀ (s : RequestRun σ) a, Decidable (ExpiresWaiting s a)
  | s, .expire _ =>
    inferInstanceAs (Decidable (s.finished = false ∧ s.conn.userReadHandler ≠ none))
  | _, .readable _ | _, .writable _ | _, .deliver | _, .timerDeliver _ | _, .resume | _, .destroy
  | _, .stack _ => isTrue True.intro

/-! ## After `Finish` -/

/-- `onDone_` has returned, and `Insert` has been called. -/
structure RequestBack (s : RequestRun σ) : Prop where
  finished : s.finished = true
  dones : ∃ errMsg, s.dones = [errMsg] ∧ s.inserts = [errMsg]
  again : s.again = false
  frames : ∀ f ∈ s.frames, f.onDone? = none ∧ ∀ h, f ≠ .conn (.asyncDo h)

/-- The connection is closed, or has no callback left: the events of the loop call none. -/
structure RequestReturned (s : RequestRun σ) : Prop extends RequestBack s where
  settled : Settled s.conn
  closed : s.conn.finished = true → s.conn.event = none ∨
    ∃ f, .conn f ∈ s.frames ∧ (f.isFinishCanceled || f.isFinishWritten) = true
  idle : s.conn.finished = true ∨
    (s.conn.userReadHandler = none ∧ s.conn.userWriteHandler = none ∧ s.conn.writeNotify = false)

/-- The states of the runs that keep the law. -/
inductive RequestGood (s : RequestRun σ) : Prop
  | opened (h : RequestOpen s)
  | ended (errMsg : String) (h : RequestEnded errMsg s) (hsettled : Settled s.conn)
  | returned (h : RequestReturned s)

theorem running_nil (hframes : ∀ f ∈ s.frames, f.onDone? = none) : s.running = [] := by
  unfold running
  exact List.filterMap_eq_nil_iff.mpr hframes

theorem RequestGood.law (hs : RequestGood s) : RequestLaw s := by
  cases hs with
  | opened h =>
    have hrun : s.running = [] := running_nil fun f hf => (frames_done h.frames f hf).1
    refine ⟨?_, ?_, h.again⟩
    · rw [h.dones, h.unfinished]
      rfl
    · rw [hrun, h.inserts, h.dones]
      rfl
  | ended e h =>
    obtain ⟨fs, hframes, hfs, -⟩ := h.frames
    have hrun : s.running = [e] := by
      unfold running
      rw [hframes, List.filterMap_cons]
      exact congrArg (e :: ·) (List.filterMap_eq_nil_iff.mpr fun f hf => (hfs f hf).1)
    refine ⟨?_, ?_, h.again⟩
    · rw [h.dones, h.finished]
      rfl
    · rw [hrun, h.inserts, h.dones]
      rfl
  | returned h =>
    obtain ⟨e, hdones, hins⟩ := h.dones
    have hrun : s.running = [] := running_nil fun f hf => (h.frames f hf).1
    refine ⟨?_, ?_, h.again⟩
    · rw [hdones, h.finished]
      rfl
    · rw [hrun, hins, hdones]
      rfl

/-- `Finish` of a settled connection calls no write handler. -/
theorem Settled.finishWrite {c : TcpConnection} (hc : Settled c) (errMsg : String) :
    c.finishWrite errMsg = c.finishTail errMsg := by
  rcases finishWrite_cases errMsg c with ⟨h, hdone, hh, -⟩ | ⟨-, htail⟩
  · exact absurd ((hc.written hdone).symm.trans hh) nofun
  · exact htail

theorem Settled.finish {c : TcpConnection} (hc : Settled c) (hopen : c.finished = false)
    (errMsg : String) : ∃ a : Option Asyncer, Settled { c with finished := true, asyncer := a } ∧
      c.finish errMsg = finishTail errMsg { c with finished := true, asyncer := a } := by
  rcases finish_cases errMsg hopen with ⟨h, hh, -⟩ | ⟨a, -, ha, hfin⟩
  · exact absurd (hc.undelivered.symm.trans hh) nofun
  · have hsettled : Settled { c with finished := true, asyncer := a } := ⟨ha, hc.written⟩
    exact ⟨a, hsettled, hfin.trans (hsettled.finishWrite errMsg)⟩

/-- The end of `Finish` of the connection: its finish handler is called. -/
theorem RequestBack.finishTail {c : TcpConnection} (hs : RequestBack s) (hc : Settled c)
    (hidle : c.finished = true ∨ (c.userReadHandler = none ∧ c.userWriteHandler = none))
    (ht : s.leave D (c.finishTail errMsg) = some t) : RequestReturned t := by
  cases ht
  refine ⟨⟨hs.finished, hs.dones, hs.again, ?_⟩, ⟨hc.undelivered, hc.written⟩,
    fun _ => .inl rfl, ?_⟩
  · exact List.forall_mem_cons.mpr ⟨⟨rfl, nofun⟩, hs.frames⟩
  · exact hidle.imp id fun h => ⟨h.1, h.2, rfl⟩

/-- `Finish` of the connection, after the write. -/
theorem RequestBack.finish (hs : RequestBack s) (hc : Settled s.conn)
    (hclosed : s.conn.finished = true → s.conn.event = none ∨
      ∃ f, .conn f ∈ s.frames ∧ (f.isFinishCanceled || f.isFinishWritten) = true)
    (ht : s.leave D (s.conn.finish errMsg) = some t) : RequestReturned t := by
  cases hfin : s.conn.finished with
  | true =>
    rw [finish_finished errMsg hfin] at ht
    cases ht
    exact ⟨hs, hc, hclosed, .inl hfin⟩
  | false =>
    obtain ⟨a, hsettled, htail⟩ := hc.finish hfin errMsg
    rw [htail] at ht
    exact hs.finishTail hsettled (.inl rfl) ht

/-- `onDone_` returns: `Insert` brings the connection back or finishes it. -/
theorem RequestEnded.insert {fs : List RequestFrame} (hs : RequestEnded errMsg s)
    (hsettled : Settled s.conn) (hframes : s.frames = .onDone errMsg :: fs)
    (ht : { s with frames := fs }.insert D errMsg = some t) : RequestReturned t := by
  obtain ⟨fs', hfs', hconn, hclosed⟩ := hs.frames
  obtain rfl := (List.cons.inj (hframes.symm.trans hfs')).2
  have hback : RequestBack { s with frames := fs, inserts := errMsg :: s.inserts } :=
    ⟨hs.finished, ⟨errMsg, hs.dones, congrArg (errMsg :: ·) hs.inserts⟩, hs.again, hconn⟩
  unfold RequestRun.insert at ht
  split at ht
  next => exact hback.finish hsettled hclosed ht
  next hempty =>
    have hnotify := hs.notify (by simpa using hempty)
    cases ht
    exact ⟨⟨hback.finished, hback.dones, hback.again, hback.frames⟩, hsettled.reset.settled, nofun,
      .inr ⟨rfl, rfl, hnotify⟩⟩

theorem RequestReturned.conn_open (hs : RequestReturned s) (hframes : s.frames = [])
    (hevent : s.conn.event ≠ none) : s.conn.finished = false ∧ s.conn.userReadHandler = none ∧
      s.conn.userWriteHandler = none ∧ s.conn.writeNotify = false := by
  have hopen : s.conn.finished = false := by
    cases hfin : s.conn.finished with
    | false => rfl
    | true =>
      rcases hs.closed hfin with hnone | ⟨f, hf, -⟩
      · exact absurd hnone hevent
      · rw [hframes] at hf
        cases hf
  exact ⟨hopen, hs.idle.resolve_left fun hc => absurd (hopen.symm.trans hc) nofun⟩

/-- A readable event after the request: nobody is told. -/
theorem RequestReturned.readable {r : SysRead} (hs : RequestReturned s) (hframes : s.frames = [])
    (hevent : s.conn.event ≠ none) (ho : s.conn.readHandler r = some o)
    (ht : s.leave D o = some t) : RequestReturned t := by
  obtain ⟨hopen, hread, hwrite, hnotify⟩ := hs.conn_open hframes hevent
  have hfail : ∀ e, s.leave D (s.conn.readFailed e) = some t → RequestReturned t := by
    intro e ht
    simp only [readFailed, hread] at ht
    exact hs.toRequestBack.finish hs.settled hs.closed ht
  rcases readHandler_cases ho with ⟨-, rfl⟩ | ⟨-, -, e, -, rfl⟩ | ⟨-, b, -, rfl⟩
  · cases ht
    exact hs
  · exact hfail e ht
  · simp only [readDone, hread] at ht
    cases ht
    exact ⟨⟨hs.finished, hs.dones, hs.again, hs.frames⟩,
      ⟨hs.settled.undelivered, hs.settled.written⟩, hs.closed, .inr ⟨rfl, hwrite, hnotify⟩⟩

/-- A handler of the pool returns, or the connection goes on after a callback of the request. -/
theorem RequestReturned.resume {f : Frame} {fs : List RequestFrame} (hs : RequestReturned s)
    (hframes : s.frames = .conn f :: fs) (ho : f.resume s.conn = some o)
    (ht : { s with frames := fs }.leave D o = some t) : RequestReturned t := by
  have hall := hs.frames
  rw [hframes] at hall
  have hback : RequestBack { s with frames := fs } :=
    ⟨hs.finished, hs.dones, hs.again, fun g hg => hall g (List.mem_cons_of_mem _ hg)⟩
  have hidle := hs.idle.imp id fun h => And.intro h.1 h.2.1
  -- the frame taken off is not the one that drops the event
  have hclosed : (f.isFinishCanceled || f.isFinishWritten) = false → s.conn.finished = true →
      s.conn.event = none ∨
        ∃ f, .conn f ∈ fs ∧ (f.isFinishCanceled || f.isFinishWritten) = true := by
    intro hf hfin
    refine (hs.closed hfin).imp id ?_
    rintro ⟨g, hg, hends⟩
    rw [hframes] at hg
    rcases List.mem_cons.mp hg with heq | hg
    · cases heq
      exact absurd (hf.symm.trans hends) nofun
    · exact ⟨g, hg, hends⟩
  cases f with
  | done =>
    cases ho
    cases ht
    exact ⟨hback, hs.settled, hclosed rfl, hs.idle⟩
  | callFinish e =>
    cases ho
    exact hback.finish hs.settled (hclosed rfl) ht
  | finishCanceled e =>
    cases ho
    rw [hs.settled.finishWrite] at ht
    exact hback.finishTail hs.settled hidle ht
  | finishWritten e =>
    cases ho
    exact hback.finishTail hs.settled hidle ht
  | asyncDo h => exact absurd rfl ((hall _ List.mem_cons_self).2 h)

theorem RequestReturned.step {a : RequestAction} (hs : RequestReturned s)
    (hG : ExpiresWaiting s a) (hstep : s.step D a = some t) : RequestReturned t := by
  cases a with
  | deliver =>
    obtain ⟨-, ho⟩ := Option.ite_none_right_eq_some.mp hstep
    obtain ⟨o, ho, ht⟩ := Option.bind_eq_some_iff.mp ho
    rcases deliver_cases ho with ⟨h, e, hh, -⟩ | ⟨h, -, rfl⟩
    · exact absurd (hs.settled.undelivered.symm.trans hh) nofun
    · cases ht
      exact ⟨⟨hs.finished, hs.dones, hs.again, hs.frames⟩, ⟨rfl, hs.settled.written⟩, hs.closed,
        hs.idle⟩
  | readable r =>
    obtain ⟨⟨hframes, hnotify⟩, ho⟩ := Option.ite_none_right_eq_some.mp hstep
    obtain ⟨o, ho, ht⟩ := Option.bind_eq_some_iff.mp ho
    exact hs.readable hframes (event_ne_none hnotify) ho ht
  | writable r =>
    obtain ⟨⟨hframes, hnotify⟩, -⟩ := Option.ite_none_right_eq_some.mp hstep
    have hoff := (hs.conn_open hframes (event_ne_none hnotify)).2.2.2
    exact absurd (hoff.symm.trans hnotify) nofun
  | timerDeliver now =>
    obtain ⟨-, ho⟩ := Option.ite_none_right_eq_some.mp hstep
    obtain ⟨t', -, rfl⟩ := Option.map_eq_some_iff.mp ho
    exact ⟨⟨hs.finished, hs.dones, hs.again, hs.frames⟩, hs.settled, hs.closed, hs.idle⟩
  | expire now => exact absurd (hs.finished.symm.trans hG.1) nofun
  | resume =>
    rcases resume_cases hstep with ⟨f, fs, o, hframes, ho, ht⟩ | ⟨e, fs, hframes, -⟩
    · exact hs.resume hframes ho ht
    · have hhead := (hs.frames (.onDone e) (hframes ▸ List.mem_cons_self)).1
      cases hhead
  | destroy =>
    obtain ⟨-, ht⟩ := Option.ite_none_right_eq_some.mp hstep
    cases ht
    rw [destroy_eq]
    exact ⟨⟨hs.finished, hs.dones, hs.again, hs.frames⟩, hs.settled, hs.closed, hs.idle⟩
  | stack finish =>
    cases hstep
    exact ⟨⟨hs.finished, hs.dones, hs.again, hs.frames⟩, hs.settled, hs.closed, hs.idle⟩

theorem RequestEnded.step {a : RequestAction} (hs : RequestEnded errMsg s)
    (hsettled : Settled s.conn) (hstep : s.step D a = some t) : RequestGood t := by
  rcases hs.step_cases hstep with ⟨fs, hframes, ht⟩ | ⟨timer, finish, alive, rfl, hended⟩
  · exact .returned (hs.insert hsettled hframes ht)
  · exact .ended errMsg hended hsettled

theorem RequestGood.step {a : RequestAction} (hs : RequestGood s) (htimer : TimerOk s)
    (hG : ExpiresWaiting s a) (hstep : s.step D a = some t) : RequestGood t := by
  cases hs with
  | opened h =>
    cases h.step htimer hstep with
    | goesOn hopen => exact .opened hopen
    | popped hopen => exact .opened hopen
    | ended e hended _ hsettled =>
      refine .ended e hended (hsettled.resolve_right ?_)
      rintro ⟨now, rfl, hread⟩
      exact hG.2 hread
  | ended e h hsettled => exact h.step hsettled hstep
  | returned h => exact .returned (h.step hG hstep)

/-! ## A timer that expires at another time -/

/-- `onDone_` runs with the error "timeout", and the write callback has still to be called. -/
structure Overtaken (s : RequestRun σ) : Prop where
  frames : s.frames = [.onDone "timeout"]
  conn : s.conn.finished = false
  pending : ¬ Settled s.conn

/-- An error that the write callback gets after `onDone_` has returned. -/
theorem onWrite_again (hins : s.inserts ≠ []) (hne : errMsg ≠ "")
    (ht : s.onWrite D errMsg = some t) : t.again = true := by
  rcases onWrite_branches ht with ⟨-, rfl⟩ | ⟨hempty, -⟩ | ⟨hempty, -⟩
  · refine (later_callDone errMsg s.uses).again ?_
    have hsome : s.inserts.isEmpty = false := by simpa using hins
    simp [uses, hsome]
  · exact absurd hempty hne
  · exact absurd hempty hne

/-- `Insert` finishes the connection, and that calls the write callback. -/
theorem Overtaken.resume (hs : Overtaken s) (hstep : s.step D .resume = some t) :
    t.again = true := by
  rcases resume_cases hstep with ⟨f, fs, o, hframes, -, -⟩ | ⟨e, fs, hframes, ht⟩
  · exact absurd (hs.frames.symm.trans hframes) nofun
  · obtain ⟨heq, rfl⟩ := List.cons.inj (hs.frames.symm.trans hframes)
    cases heq
    unfold RequestRun.insert at ht
    rw [if_pos (by decide)] at ht
    -- either the asyncer or `userWriteHandler_` holds the write callback
    rcases finish_cases "timeout" hs.conn with ⟨h, -, hfin⟩ | ⟨a, hund, -, hfin⟩
    · rw [hfin] at ht
      exact onWrite_again (List.cons_ne_nil _ _) (by decide) ht
    · rw [hfin] at ht
      rcases finishWrite_cases "timeout" { s.conn with finished := true, asyncer := a } with
        ⟨h, -, -, hwr⟩ | ⟨hno, -⟩
      · rw [hwr] at ht
        exact onWrite_again (List.cons_ne_nil _ _) (by decide) ht
      · exact absurd ⟨hund, hno⟩ hs.pending

/-- The law is lost, or will be when the running handlers have returned. -/
def RequestLost (s : RequestRun σ) : Prop := s.again = true ∨ Overtaken s

theorem RequestLost.step {a : RequestAction} (hs : RequestLost s)
    (hstep : s.step D a = some t) : RequestLost t := by
  rcases hs with hagain | hs
  · exact .inl ((later_step hstep).again hagain)
  · have hne : s.frames ≠ [] := by rw [hs.frames]; exact nofun
    cases a with
    | deliver | timerDeliver now | expire now =>
      exact absurd (Option.ite_none_right_eq_some.mp hstep).1 hne
    | readable r | writable r => exact absurd (Option.ite_none_right_eq_some.mp hstep).1.1 hne
    | resume => exact .inl (hs.resume hstep)
    | destroy =>
      obtain ⟨-, ht⟩ := Option.ite_none_right_eq_some.mp hstep
      cases ht
      rw [destroy_eq]
      exact .inr ⟨hs.frames, hs.conn, hs.pending⟩
    | stack finish =>
      cases hstep
      exact .inr ⟨hs.frames, hs.conn, hs.pending⟩

/-- The timer expires when the request does not wait for the response. -/
theorem RequestGood.lost {a : RequestAction} (hs : RequestGood s) (htimer : TimerOk s)
    (hG : ¬ ExpiresWaiting s a) (hstep : s.step D a = some t) : RequestLost t := by
  cases a with
  | expire now =>
    obtain ⟨hframes, t', rfl⟩ := expire_cases htimer hstep
    cases hs with
    | opened h =>
      have hread : s.conn.userReadHandler = none := by
        by_contra hc
        exact hG ⟨h.unfinished, hc⟩
      rw [uses_eq h.inserts, callDone_eq (s := { s with timer := some t' }) h.unfinished]
      refine .inr ⟨congrArg (RequestFrame.onDone "timeout" :: ·) hframes, h.conn, fun hc => ?_⟩
      -- the request does not wait for the response yet, so the write handler is still owed
      cases h.phase with
      | undelivered k hund => exact absurd (hc.undelivered.symm.trans hund) nofun
      | writing k _ _ hwrite hdone => exact absurd ((hc.written hdone).symm.trans hwrite) nofun
      | waiting k _ hkept => exact absurd (hread.symm.trans hkept) nofun
    | ended e h =>
      obtain ⟨fs, hfs, -⟩ := h.frames
      exact absurd (hframes.symm.trans hfs) nofun
    | returned h =>
      obtain ⟨e, -, hins⟩ := h.dones
      refine .inl ((later_callDone "timeout" _).again ?_)
      simp [uses, hins]
  | deliver | readable r | writable r | timerDeliver now | resume | destroy | stack finish =>
    exact absurd True.intro hG

/-! ## A client that an earlier request has used -/

/-- `Finish` has run for an earlier request, and does nothing for this one. -/
structure Ignored (s : RequestRun σ) : Prop where
  finished : s.finished = true
  dones : s.dones = []
  inserts : s.inserts = []
  frames : ∀ f ∈ s.frames, f.onDone? = none

namespace Ignored

theorem callDone (hs : Ignored s) (errMsg : String) : s.callDone errMsg = s := if_pos hs.finished

theorem not_law (hs : Ignored s) : ¬ RequestLaw s := by
  intro hlaw
  have honce := hlaw.once
  rw [hs.dones, hs.finished] at honce
  cases honce

theorem withTimer (hs : Ignored s) (timer : Option Timer) : Ignored { s with timer := timer } :=
  ⟨hs.finished, hs.dones, hs.inserts, hs.frames⟩

theorem onTimer (hs : Ignored s) (calls : List TimerCall) :
    calls.foldl RequestRun.onTimer s = s := by
  induction calls with
  | nil => rfl
  | cons call calls ih =>
    have hcall : s.onTimer call = s := by
      unfold RequestRun.onTimer
      rw [uses_eq hs.inserts, hs.callDone]
      simp only [ite_self]
    rw [List.foldl_cons, hcall]
    exact ih

theorem onRead (hs : Ignored s) (ht : s.onRead D errMsg = some t) : Ignored t := by
  have hcases := onRead_cases hs.inserts ht
  rw [cancelTimer_eq] at hcases
  have hcanceled := hs.withTimer (s.timer.map fun timer => timer.cancel.1)
  rcases hcases with ⟨-, rfl⟩ | ⟨-, e, finish, b, derived, -, hcases⟩
  · rw [hcanceled.callDone]
    exact hcanceled
  · have hpopped : Ignored { s with
        timer := s.timer.map fun timer => timer.cancel.1
        conn := { s.conn with readBuffer := b }
        derived := derived } := ⟨hs.finished, hs.dones, hs.inserts, hs.frames⟩
    rcases hcases with ⟨-, rfl⟩ | ⟨-, -, rfl⟩
    · exact (hpopped.callDone e).symm ▸ hpopped
    · exact hpopped

theorem onWrite (hs : Ignored s) (ht : s.onWrite D errMsg = some t) : Ignored t := by
  have hcases := onWrite_branches ht
  rw [uses_eq hs.inserts, hs.callDone] at hcases
  rcases hcases with ⟨-, rfl⟩ | ⟨-, -, rfl⟩ | ⟨-, -, hread⟩
  · exact hs
  · exact ⟨hs.finished, hs.dones, hs.inserts, hs.frames⟩
  · refine onRead (s := { s with
      conn := TcpConnection.resetRead
        { s.conn with anyFlag := true, userReadHandler := some readCallback }
      frames := .conn .done :: s.frames }) ⟨hs.finished, hs.dones, hs.inserts, ?_⟩ hread
    exact List.forall_mem_cons.mpr ⟨rfl, hs.frames⟩

/-- Control leaves a method of the connection. -/
theorem leave (hs : Ignored s) (ht : s.leave D o = some t) : Ignored t := by
  obtain ⟨c, _ | ⟨call, f⟩⟩ := o
  · cases ht
    exact ⟨hs.finished, hs.dones, hs.inserts, hs.frames⟩
  · have hcalls : Ignored { s with conn := c, frames := .conn f :: s.frames } :=
      ⟨hs.finished, hs.dones, hs.inserts, List.forall_mem_cons.mpr ⟨rfl, hs.frames⟩⟩
    cases call with
    | read h e => exact hcalls.onRead ht
    | write h e => exact hcalls.onWrite ht
    | finish e =>
      cases ht
      exact hcalls

theorem step {a : RequestAction} (hs : Ignored s) (hstep : s.step D a = some t) : Ignored t := by
  cases a with
  | deliver | readable r | writable r =>
    obtain ⟨-, ho⟩ := Option.ite_none_right_eq_some.mp hstep
    obtain ⟨o, -, ht⟩ := Option.bind_eq_some_iff.mp ho
    exact hs.leave ht
  | timerDeliver now =>
    obtain ⟨-, ho⟩ := Option.ite_none_right_eq_some.mp hstep
    obtain ⟨timer, -, rfl⟩ := Option.map_eq_some_iff.mp ho
    exact hs.withTimer (some timer)
  | expire now =>
    obtain ⟨-, ho⟩ := Option.ite_none_right_eq_some.mp hstep
    obtain ⟨⟨timer, calls⟩, -, rfl⟩ := Option.map_eq_some_iff.mp ho
    have htimer := hs.withTimer (some timer)
    show Ignored (calls.foldl RequestRun.onTimer { s with timer := some timer })
    rw [htimer.onTimer]
    exact htimer
  | resume =>
    rcases resume_cases hstep with ⟨f, fs, o, hframes, -, ht⟩ | ⟨e, fs, hframes, -⟩
    · refine leave (s := { s with frames := fs }) ⟨hs.finished, hs.dones, hs.inserts, ?_⟩ ht
      exact fun g hg => hs.frames g (hframes ▸ List.mem_cons_of_mem _ hg)
    · cases hs.frames (.onDone e) (hframes ▸ List.mem_cons_self)
  | destroy =>
    obtain ⟨-, ht⟩ := Option.ite_none_right_eq_some.mp hstep
    cases ht
    rw [destroy_eq]
    exact ⟨hs.finished, hs.dones, hs.inserts, hs.frames⟩
  | stack finish =>
    cases hstep
    exact ⟨hs.finished, hs.dones, hs.inserts, hs.frames⟩

/-- `doReq` of a client that an earlier request has used. -/
theorem doReq {client : BaseClient} {timeoutMs : UInt64} {conn : TcpConnection} {derived : σ}
    {finish : Bool} (hused : client.finished = true)
    (hs : RequestRun.doReq D client timeoutMs conn derived finish = some s) : Ignored s := by
  obtain ⟨⟨e, b, derived'⟩, -, hs⟩ := Option.bind_eq_some_iff.mp hs
  have hstart : Ignored {
      conn := { conn with writeBuffer := b }, timer := client.timer, finished := client.finished,
      derived := derived', finish := finish, frames := [], alive := true, dones := [],
      inserts := [], again := false : RequestRun σ } := ⟨hused, rfl, rfl, nofun⟩
  simp only at hs
  split at hs
  next =>
    cases hs
    exact (hstart.callDone e).symm ▸ hstart
  next =>
    obtain ⟨o, -, hs⟩ := Option.bind_eq_some_iff.mp hs
    rw [startTimer_eq] at hs
    exact (hstart.withTimer _).leave hs

end Ignored

/-! ## Every run -/

/-- A client with `finished_` unset has not been used. -/
theorem BaseClient.eq_new {client : BaseClient} (h : client.finished = false) : client = .new := by
  obtain ⟨timer, finished, hunused⟩ := client
  obtain rfl : finished = false := h
  obtain rfl := hunused rfl
  rfl

/-- The states that a client that has not been used starts from. -/
theorem RequestGood.start {timeoutMs : UInt64} {conn : TcpConnection} {derived : σ} {finish : Bool}
    (hconn : Pooled conn) (hs : doReq D .new timeoutMs conn derived finish = some s) :
    RequestGood s ∧ TimerOk s := by
  obtain ⟨htimer, ⟨hopen, -⟩ | ⟨e, hended, hsettled⟩⟩ := doReq_cases hconn hs
  · exact ⟨.opened hopen, htimer⟩
  · exact ⟨.ended e hended hsettled, htimer⟩

/-- The law holds in the runs of a client that has not been used in which the timer expires only
while the request waits for its response, and in no other run that ends between callbacks. For a
client that has been used neither `onDone_` nor `Insert` is ever called. -/
theorem requestLaw_iff {client : BaseClient} {timeoutMs : UInt64} {conn : TcpConnection}
    {derived : σ} {finish : Bool} {as : List RequestAction} (hconn : Pooled conn)
    (hs : doReq D client timeoutMs conn derived finish = some s)
    (hrun : (request D s).run s as = some t) :
    (client.finished = false → (request D s).AllSteps ExpiresWaiting s as →
      (request D s).AllStates RequestLaw s as) ∧
    (t.frames = [] → (request D s).AllStates RequestLaw s as →
      client.finished = false ∧ (request D s).AllSteps ExpiresWaiting s as) ∧
    (client.finished = true →
      (request D s).AllStates (fun s => s.dones = [] ∧ s.inserts = []) s as) := by
  have hkeep : ∀ s a t, RequestGood s ∧ TimerOk s → ExpiresWaiting s a →
      RequestRun.step D s a = some t → RequestGood t ∧ TimerOk t :=
    fun _ _ _ h hG hstep => ⟨h.1.step h.2 hG hstep, h.2.step hstep⟩
  cases hused : client.finished with
  | false =>
    rw [BaseClient.eq_new hused] at hs
    have hstart := RequestGood.start hconn hs
    refine ⟨fun _ hall => ?_, fun hidle hlaw => ⟨rfl, ?_⟩, nofun⟩
    · exact (hall.allStates hstart hkeep).imp fun _ h => h.1.law
    · by_contra hnot
      have hsplit := System.run_split (P := fun s => RequestGood s ∧ TimerOk s) (Q := RequestLost)
        hstart hkeep (fun _ _ _ h hG hstep => h.1.lost h.2 hG hstep)
        (fun _ _ _ h hstep => h.step hstep) hrun
      rcases hsplit.2 hnot with hagain | hover
      · exact absurd (hagain.symm.trans (hlaw.last hrun).silent) nofun
      · exact absurd (hidle.symm.trans hover.frames) nofun
  | true =>
    have hignored : (request D s).AllStates Ignored s as :=
      System.AllSteps.trivial.allStates (Ignored.doReq hused hs) fun _ _ _ h _ hstep => h.step hstep
    refine ⟨nofun, fun _ hlaw => ?_, fun _ => hignored.imp fun _ h => ⟨h.dones, h.inserts⟩⟩
    exact absurd (hlaw.last hrun) (hignored.last hrun).not_law

/-- The server does not answer: the timer expires while the request waits. -/
theorem requestLaw_timeout :
    (request (HttpClient.derived smallParser) pingRequest).AllStates RequestLaw pingRequest
      [.timerDeliver 7, .deliver, .writable (.count 18), .writable .eagain, .resume, .expire 107,
        .destroy, .resume, .resume] :=
  (requestLaw_iff Pooled.connected doReq_pingRequest
    (Option.some_get (by decide +kernel : ((request (HttpClient.derived smallParser)
      pingRequest).run pingRequest [.timerDeliver 7, .deliver, .writable (.count 18),
        .writable .eagain, .resume, .expire 107, .destroy, .resume, .resume]).isSome)).symm).1
    rfl (by decide +kernel)

/-- The same request of a client whose earlier request is over. -/
def pingAgain : RequestRun (HttpClient smallParser) :=
  (doReq (HttpClient.derived smallParser) ⟨none, true, fun _ => rfl⟩ 100 .connected
    ⟨bytes "GET / HTTP/1.1\r\n\r\n", .new smallParser⟩ false).get (by decide +kernel)

theorem doReq_pingAgain :
    doReq (HttpClient.derived smallParser) ⟨none, true, fun _ => rfl⟩ 100 .connected
      ⟨bytes "GET / HTTP/1.1\r\n\r\n", .new smallParser⟩ false = some pingAgain :=
  (Option.some_get _).symm

/-- The timer expires before the asyncer of the write has run: `onDone_` returns, the owner destroys
the client, and then the connection calls the write callback. And the second request of a client is
written and gets its response, and nobody is told. -/
theorem timeout_or_used_client :
    (((request (HttpClient.derived smallParser) pingRequest).run pingRequest
        [.timerDeliver 7, .expire 107, .destroy, .resume]).map
        (fun s => (s.alive, s.dones, s.inserts, s.again)) =
      some (false, ["timeout"], ["timeout"], true) ∧
    ¬ (request (HttpClient.derived smallParser) pingRequest).AllStates RequestLaw pingRequest
      [.timerDeliver 7, .expire 107, .destroy, .resume]) ∧
    ((request (HttpClient.derived smallParser) pingAgain).run pingAgain
        [.deliver, .writable (.count 18), .writable .eagain, .resume,
          .readable (.bytes (bytes "HTTP/1.1 204 No Content\r\n\r\n")), .resume]).map
        (fun s => (s.frames, s.dones, s.inserts)) = some ([], [], []) ∧
    ¬ (request (HttpClient.derived smallParser) pingAgain).AllStates RequestLaw pingAgain
      [.deliver, .writable (.count 18), .writable .eagain, .resume,
        .readable (.bytes (bytes "HTTP/1.1 204 No Content\r\n\r\n")), .resume] := by
  have hend : ((request (HttpClient.derived smallParser) pingRequest).run pingRequest
      [.timerDeliver 7, .expire 107, .destroy, .resume]).map
      (fun s => (s.alive, s.dones, s.inserts, s.again)) =
      some (false, ["timeout"], ["timeout"], true) := by
    decide +kernel
  refine ⟨⟨hend, fun hlaw => ?_⟩, by decide +kernel, fun hlaw => ?_⟩
  · obtain ⟨t, hrun, ht⟩ := Option.map_eq_some_iff.mp hend
    have hagain : t.again = true := congrArg (fun p => p.2.2.2) ht
    exact absurd (hagain.symm.trans (hlaw.last hrun).silent) nofun
  · have hstart : Ignored pingAgain := .doReq rfl doReq_pingAgain
    exact hstart.not_law hlaw.1

end Sheep
