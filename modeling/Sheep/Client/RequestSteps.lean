import Sheep.Client.BaseClient

/-!
# The steps of a request

What a step of `request` does while `Finish` has not run: `RequestOpen` says where the request and
its connection are, and `RequestOpen.step` that a step keeps that, or takes the first bytes of the
response without an end (`popped`), or runs `Finish` (`ended`).
-/

namespace Sheep

/-- A connection in the pool: no handler is registered. -/
structure Pooled (c : TcpConnection) : Prop where
  userReadHandler : c.userReadHandler = none
  userWriteHandler : c.userWriteHandler = none
  writeDone : c.writeDone = false
  undelivered : c.undelivered = none
  closed : c.finished = true → c.event = none

theorem Pooled.connected : Pooled .connected := ⟨rfl, rfl, rfl, rfl, nofun⟩

/-- The write handlers have been called: `Finish` calls none. -/
structure Settled (c : TcpConnection) : Prop where
  undelivered : c.undelivered = none
  written : c.writeDone = false → c.userWriteHandler = none

theorem Pooled.settled {c : TcpConnection} (hc : Pooled c) : Settled c :=
  ⟨hc.undelivered, fun _ => hc.userWriteHandler⟩

/-- `Insert` without an error brings the connection back into the pool. -/
theorem Settled.reset {c : TcpConnection} (hc : Settled c) : Pooled c.reset :=
  ⟨rfl, rfl, rfl, hc.undelivered, nofun⟩

/-- Where the connection is while the request is not finished. -/
inductive RequestPhase (c : TcpConnection) : Prop
  | undelivered (h : Handler) (hund : c.undelivered = some h) (hread : c.userReadHandler = none)
      (hwrite : c.userWriteHandler = none) (hdone : c.writeDone = false)
  | writing (h : Handler) (hund : c.undelivered = none) (hread : c.userReadHandler = none)
      (hwrite : c.userWriteHandler = some h) (hdone : c.writeDone = false)
  /-- for the response -/
  | waiting (h : Handler) (hund : c.undelivered = none) (hread : c.userReadHandler = some h)
      (hany : c.anyFlag = true) (hdone : c.writeDone = true) (hnotify : c.writeNotify = false)

/-- `Finish` has not run. -/
structure RequestBegun {σ : Type} (s : RequestRun σ) : Prop where
  unfinished : s.finished = false
  dones : s.dones = []
  inserts : s.inserts = []
  again : s.again = false

/-- A request that is not finished, after `doReq`. -/
structure RequestOpen {σ : Type} (s : RequestRun σ) : Prop extends RequestBegun s where
  conn : s.conn.finished = false
  phase : RequestPhase s.conn
  frames : ∀ f ∈ s.frames, f = .conn .done

/-- `Finish` has called `onDone_`. -/
structure RequestEnded {σ : Type} (errMsg : String) (s : RequestRun σ) : Prop where
  finished : s.finished = true
  dones : s.dones = [errMsg]
  inserts : s.inserts = []
  again : s.again = false
  frames : ∃ fs, s.frames = .onDone errMsg :: fs ∧
    (∀ f ∈ fs, f.onDone? = none ∧ ∀ h, f ≠ .conn (.asyncDo h)) ∧
    (s.conn.finished = true → s.conn.event = none ∨
      ∃ f, .conn f ∈ fs ∧ (f.isFinishCanceled || f.isFinishWritten) = true)
  notify : errMsg = "" → s.conn.writeNotify = false

/-- `RespPop` on this read buffer ends the request. -/
def Derived.Ends {σ : Type} (D : Derived σ) (s : RequestRun σ) (b : Buffer) : Prop :=
  ∀ r ∈ D.respPop s.derived s.finish b, r.1 ≠ "" ∨ r.2.1 = true

instance {σ : Type} (D : Derived σ) (s : RequestRun σ) (b : Buffer) : Decidable (D.Ends s b) :=
  inferInstanceAs (Decidable (∀ r ∈ D.respPop s.derived s.finish b, r.1 ≠ "" ∨ r.2.1 = true))

/-- The condition on a step: the bytes that the read callback is called for are the end of the
response, or an error. -/
def EndsAtOnce {σ : Type} (D : Derived σ) (s : RequestRun σ) : RequestAction → Prop
  | .readable (.bytes buf) => s.finished = false → buf ≠ [] → s.conn.userReadHandler ≠ none →
      ∀ b ∈ s.conn.readBuffer.write buf, D.Ends s b
  | .writable _ => s.finished = false → s.conn.userWriteHandler ≠ none →
      s.conn.writeBuffer.readIndex = s.conn.writeBuffer.writeIndex → s.conn.readedSize ≠ 0 →
      D.Ends s s.conn.readBuffer
  | _ => True

instance {σ : Type} (D : Derived σ) : ∀ s a, Decidable (EndsAtOnce D s a)
  | s, .readable (.bytes buf) => inferInstanceAs (Decidable (s.finished = false → buf ≠ [] →
      s.conn.userReadHandler ≠ none → ∀ b ∈ s.conn.readBuffer.write buf, D.Ends s b))
  | s, .writable _ => inferInstanceAs (Decidable (s.finished = false →
      s.conn.userWriteHandler ≠ none →
      s.conn.writeBuffer.readIndex = s.conn.writeBuffer.writeIndex → s.conn.readedSize ≠ 0 →
      D.Ends s s.conn.readBuffer))
  | _, .readable .eagain | _, .readable (.error _) | _, .deliver | _, .timerDeliver _
  | _, .expire _ | _, .resume | _, .destroy | _, .stack _ => isTrue True.intro

/-- What a step does to a request that is not finished. -/
inductive OpenStep {σ : Type} (D : Derived σ) (s : RequestRun σ) (a : RequestAction)
    (t : RequestRun σ) : Prop
  | goesOn (hopen : RequestOpen t) (htimer : t.timer = s.timer ∨
      ∃ timer now t', s.timer = some timer ∧ timer.deliver now = some t' ∧ t.timer = some t')
      (hends : EndsAtOnce D s a)
  | popped (hopen : RequestOpen t) (htimer : t.timer = s.timer.map fun t => t.cancel.1)
      (hends : ¬ EndsAtOnce D s a)
  | ended (errMsg : String) (hended : RequestEnded errMsg t) (hends : EndsAtOnce D s a)
      (hsettled : Settled t.conn ∨ ∃ now, a = .expire now ∧ s.conn.userReadHandler = none)

/-! ## The callbacks -/

namespace RequestRun

variable {σ : Type} {D : Derived σ} {s t : RequestRun σ} {errMsg : String}

theorem callDone_eq (hs : s.finished = false) : s.callDone errMsg =
    { s with
      finished := true
      frames := .onDone errMsg :: s.frames
      dones := errMsg :: s.dones } := by
  unfold callDone
  rw [hs, if_neg nofun]

@[simp] theorem callDone_conn (errMsg : String) (s : RequestRun σ) :
    (s.callDone errMsg).conn = s.conn := by
  unfold callDone
  split <;> rfl

@[simp] theorem callDone_timer (errMsg : String) (s : RequestRun σ) :
    (s.callDone errMsg).timer = s.timer := by
  unfold callDone
  split <;> rfl

theorem uses_eq (hs : s.inserts = []) : s.uses = s := by
  unfold uses
  have hagain : (s.again || !s.inserts.isEmpty) = s.again := by
    rw [hs, List.isEmpty_nil, Bool.not_true, Bool.or_false]
  rw [hagain]

/-- The timer's callback does nothing with an error. -/
theorem foldl_onTimer {calls : List TimerCall} (hcalls : ∀ call ∈ calls, call.2 ≠ "") :
    calls.foldl onTimer s = s := by
  induction calls with
  | nil => rfl
  | cons call calls ih =>
    have hcall : s.onTimer call = s := by
      unfold onTimer
      split
      next => rfl
      next => exact if_pos (hcalls call List.mem_cons_self)
    rw [List.foldl_cons, hcall]
    exact ih fun c hc => hcalls c (List.mem_cons_of_mem _ hc)

theorem cancelTimer_eq (s : RequestRun σ) :
    s.cancelTimer = { s with timer := s.timer.map fun timer => timer.cancel.1 } := by
  unfold cancelTimer
  split
  next htimer => rw [htimer, Option.map_none, ← htimer]
  next timer htimer =>
    rw [htimer, Option.map_some]
    exact foldl_onTimer timer.cancel_calls

/-- What a timer that is destroyed calls does nothing. -/
theorem foldl_onTimer_destroy (timer : Option Timer) :
    (timer.elim [] Timer.destroy).foldl onTimer s = s := by
  refine foldl_onTimer ?_
  cases timer with
  | none => exact nofun
  | some timer => exact timer.destroy_calls

theorem destroy_eq (s : RequestRun σ) : s.destroy = { s with timer := none, alive := false } :=
  foldl_onTimer_destroy s.timer

/-- The read callback: it gets an error, `RespPop` ends the request, or the request goes on. -/
theorem onRead_branches {argErrMsg : String} (ht : s.onRead D argErrMsg = some t) :
    (argErrMsg ≠ "" ∧ t = s.uses.cancelTimer.callDone argErrMsg) ∨
    (argErrMsg = "" ∧ ∃ errMsg finish b derived,
      D.respPop s.derived s.finish s.conn.readBuffer = some (errMsg, finish, b, derived) ∧
      ((errMsg ≠ "" ∨ finish = true) ∧ t = { s.uses.cancelTimer with
          conn := { s.conn with readBuffer := b }
          derived := derived }.callDone errMsg ∨
        errMsg = "" ∧ finish = false ∧ t = { s.uses.cancelTimer with
          conn := { s.conn with readBuffer := b }
          derived := derived })) := by
  unfold onRead at ht
  split at ht
  next hne =>
    cases ht
    exact .inl ⟨hne, rfl⟩
  next hempty =>
    obtain ⟨⟨errMsg, finish, b, derived⟩, hpop, rfl⟩ := Option.map_eq_some_iff.mp ht
    refine .inr ⟨by simpa using hempty, errMsg, finish, b, derived, hpop, ?_⟩
    simp only
    split
    next herr => exact .inl ⟨.inl herr, rfl⟩
    next herr =>
      obtain rfl : errMsg = "" := by simpa using herr
      cases finish with
      | true => exact .inl ⟨.inr rfl, rfl⟩
      | false => exact .inr ⟨rfl, rfl, rfl⟩

/-- The read callback of a request that is not finished. -/
theorem onRead_cases {argErrMsg : String} (hins : s.inserts = [])
    (ht : s.onRead D argErrMsg = some t) :
    (argErrMsg ≠ "" ∧ t = s.cancelTimer.callDone argErrMsg) ∨
    (argErrMsg = "" ∧ ∃ errMsg finish b derived,
      D.respPop s.derived s.finish s.conn.readBuffer = some (errMsg, finish, b, derived) ∧
      ((errMsg ≠ "" ∨ finish = true) ∧ t = { s.cancelTimer with
          conn := { s.conn with readBuffer := b }
          derived := derived }.callDone errMsg ∨
        errMsg = "" ∧ finish = false ∧ t = { s.cancelTimer with
          conn := { s.conn with readBuffer := b }
          derived := derived })) := by
  have hcases := onRead_branches ht
  rwa [uses_eq hins] at hcases

/-- The write callback: it gets an error, or it waits for the response, or takes what is there
already. -/
theorem onWrite_branches (ht : s.onWrite D errMsg = some t) :
    (errMsg ≠ "" ∧ t = s.uses.callDone errMsg) ∨
    (errMsg = "" ∧ s.conn.readedSize = 0 ∧ t = { s.uses with
      conn := { s.conn with anyFlag := true, userReadHandler := some readCallback } }) ∨
    (errMsg = "" ∧ s.conn.readedSize ≠ 0 ∧ { s.uses with
      conn := TcpConnection.resetRead
        { s.conn with anyFlag := true, userReadHandler := some readCallback }
      frames := .conn .done :: s.frames }.onRead D "" = some t) := by
  unfold onWrite TcpConnection.asyncReadAny at ht
  split at ht
  next hne =>
    cases ht
    exact .inl ⟨hne, rfl⟩
  next hempty =>
    have herr : errMsg = "" := by simpa using hempty
    rcases eq_or_ne s.conn.readedSize 0 with hsize | hsize
    · rw [if_neg (not_not_intro hsize)] at ht
      exact .inr (.inl ⟨herr, hsize, (Option.some.inj ht).symm⟩)
    · rw [if_pos hsize] at ht
      exact .inr (.inr ⟨herr, hsize, ht⟩)

/-- The write callback, when the write has succeeded. -/
theorem onWrite_cases (hins : s.inserts = []) (ht : s.onWrite D "" = some t) :
    (s.conn.readedSize = 0 ∧ t = { s with
      conn := { s.conn with anyFlag := true, userReadHandler := some readCallback } }) ∨
    (s.conn.readedSize ≠ 0 ∧ { s with
      conn := TcpConnection.resetRead
        { s.conn with anyFlag := true, userReadHandler := some readCallback }
      frames := .conn .done :: s.frames }.onRead D "" = some t) := by
  have hcases := onWrite_branches ht
  rw [uses_eq hins] at hcases
  rcases hcases with ⟨hne, -⟩ | ⟨-, hwaits⟩ | ⟨-, htakes⟩
  · exact absurd rfl hne
  · exact .inl hwaits
  · exact .inr htakes

/-- The write callback with an error. -/
theorem onWrite_error (hins : s.inserts = []) (hne : errMsg ≠ "")
    (ht : s.onWrite D errMsg = some t) : t = s.callDone errMsg := by
  rcases onWrite_branches ht with ⟨-, rfl⟩ | ⟨hempty, -⟩ | ⟨hempty, -⟩
  · rw [uses_eq hins]
  · exact absurd hempty hne
  · exact absurd hempty hne

end RequestRun

/-! ## The steps of the connection -/

section

open RequestRun TcpConnection

variable {σ : Type} {D : Derived σ} {s t : RequestRun σ} {o : Outcome} {errMsg : String}

/-- `Finish` of the client, called from a callback. -/
theorem RequestBegun.callDone (hs : RequestBegun s)
    (hframes : ∀ f ∈ s.frames, f.onDone? = none ∧ ∀ h, f ≠ .conn (.asyncDo h))
    (hclosed : s.conn.finished = true → s.conn.event = none ∨
      ∃ f, .conn f ∈ s.frames ∧ (f.isFinishCanceled || f.isFinishWritten) = true)
    (hnotify : errMsg = "" → s.conn.writeNotify = false) :
    RequestEnded errMsg (s.callDone errMsg) := by
  rw [callDone_eq hs.unfinished]
  exact ⟨rfl, congrArg (errMsg :: ·) hs.dones, hs.inserts, hs.again, ⟨_, rfl, hframes, hclosed⟩,
    hnotify⟩

/-- The frames of a request that is not finished. -/
theorem frames_done {fs : List RequestFrame} (hfs : ∀ f ∈ fs, f = .conn .done) :
    ∀ f ∈ fs, f.onDone? = none ∧ ∀ h, f ≠ .conn (.asyncDo h) := by
  intro f hf
  obtain rfl := hfs f hf
  exact ⟨rfl, nofun⟩

/-- The read callback is called for bytes: they end the request, or it goes on without a timer. -/
theorem RequestBegun.onRead {h : Handler} (hs : RequestBegun s) (hconn : s.conn.finished = false)
    (hund : s.conn.undelivered = none) (hread : s.conn.userReadHandler = some h)
    (hany : s.conn.anyFlag = true) (hdone : s.conn.writeDone = true)
    (hnotify : s.conn.writeNotify = false) (hframes : ∀ f ∈ s.frames, f = .conn .done)
    (ht : s.onRead D "" = some t) :
    (∃ errMsg, RequestEnded errMsg t ∧ Settled t.conn ∧ D.Ends s s.conn.readBuffer) ∨
    (RequestOpen t ∧ t.timer = s.timer.map (fun timer => timer.cancel.1) ∧
      ¬ D.Ends s s.conn.readBuffer) := by
  rcases onRead_cases hs.inserts ht with ⟨hne, -⟩ | ⟨-, errMsg, finish, b, derived, hpop, hcases⟩
  · exact absurd rfl hne
  · rw [cancelTimer_eq] at hcases
    rcases hcases with ⟨hend, rfl⟩ | ⟨rfl, rfl, rfl⟩
    · refine .inl ⟨errMsg, ?_, ?_, ?_⟩
      · exact RequestBegun.callDone ⟨hs.unfinished, hs.dones, hs.inserts, hs.again⟩
          (frames_done hframes) (fun hc => absurd (hconn.symm.trans hc) nofun) fun _ => hnotify
      · rw [callDone_conn]
        exact ⟨hund, fun hc => absurd (hdone.symm.trans hc) nofun⟩
      · rintro r hr
        obtain rfl := Option.some.inj (hpop.symm.trans hr)
        exact hend
    · refine .inr ⟨⟨⟨hs.unfinished, hs.dones, hs.inserts, hs.again⟩, hconn,
        .waiting h hund hread hany hdone hnotify, hframes⟩, rfl, fun hends => ?_⟩
      rcases hends _ hpop with hc | hc
      · exact hc rfl
      · cases hc

theorem RequestOpen.deliver (hs : RequestOpen s) (ho : s.conn.deliver = some o)
    (ht : s.leave D o = some t) : RequestOpen t ∧ t.timer = s.timer := by
  rcases deliver_cases ho with ⟨h, e, hh, -, rfl⟩ | ⟨h, hnone, rfl⟩
  · cases ht
    refine ⟨⟨⟨hs.unfinished, hs.dones, hs.inserts, hs.again⟩, hs.conn, ?_, hs.frames⟩, rfl⟩
    cases hs.phase with
    | undelivered k hund hread hwrite hdone => exact .writing h rfl hread rfl hdone
    | writing k hund | waiting k hund => exact absurd (hund.symm.trans hh) nofun
  · cases ht
    refine ⟨⟨⟨hs.unfinished, hs.dones, hs.inserts, hs.again⟩, hs.conn, ?_, hs.frames⟩, rfl⟩
    cases hs.phase with
    | undelivered k hund => exact absurd (hund.symm.trans hnone) nofun
    | writing k hund hread hwrite hdone => exact .writing k rfl hread hwrite hdone
    | waiting k hund hread hany hdone hnotify =>
      exact .waiting k rfl hread hany hdone hnotify

/-- `Finish` of the client, called from a callback of the connection with an error. `f` is the rest
of the method that has called it. -/
theorem RequestBegun.callError {c : TcpConnection} {f : Frame} (hs : RequestBegun s)
    (hf : ∀ h, f ≠ .asyncDo h) (hne : errMsg ≠ "") (hc : Settled c)
    (hclosed : c.finished = true → (f.isFinishCanceled || f.isFinishWritten) = true) :
    RequestEnded errMsg ({ s with conn := c, frames := [.conn f] }.callDone errMsg) ∧
      Settled ({ s with conn := c, frames := [.conn f] }.callDone errMsg).conn := by
  refine ⟨RequestBegun.callDone ⟨hs.unfinished, hs.dones, hs.inserts, hs.again⟩ ?_
    (fun hc => .inr ⟨f, List.mem_singleton.mpr rfl, hclosed hc⟩) fun hc => absurd hc hne, ?_⟩
  · intro g hg
    obtain rfl := List.mem_singleton.mp hg
    exact ⟨rfl, fun h hc => hf h (RequestFrame.conn.inj hc)⟩
  · rw [callDone_conn]
    exact hc

/-- The connection calls the write callback with an error. -/
theorem RequestBegun.writeError {c : TcpConnection} {f : Frame} {h : Handler}
    (hs : RequestBegun s) (hframes : s.frames = []) (hf : ∀ h, f ≠ .asyncDo h) (hne : errMsg ≠ "")
    (hc : Settled c)
    (hclosed : c.finished = true → (f.isFinishCanceled || f.isFinishWritten) = true)
    (ht : s.leave D ⟨c, some (.write h errMsg, f)⟩ = some t) :
    RequestEnded errMsg t ∧ Settled t.conn := by
  have ht' := onWrite_error (s := { s with conn := c, frames := .conn f :: s.frames })
    hs.inserts hne ht
  rw [ht', hframes]
  exact hs.callError hf hne hc hclosed

/-- The connection calls the read callback with an error. -/
theorem RequestBegun.readError {c : TcpConnection} {h : Handler}
    (hs : RequestBegun s) (hframes : s.frames = []) (hne : errMsg ≠ "") (hc : Settled c)
    (hopen : c.finished = false)
    (ht : s.leave D ⟨c, some (.read h errMsg, .callFinish errMsg)⟩ = some t) :
    RequestEnded errMsg t ∧ Settled t.conn := by
  rcases onRead_cases (s := { s with conn := c, frames := .conn (.callFinish errMsg) :: s.frames })
    hs.inserts ht with ⟨-, rfl⟩ | ⟨hempty, -⟩
  · rw [cancelTimer_eq, hframes]
    refine RequestBegun.callError (s := { s with timer := s.timer.map fun timer => timer.cancel.1 })
      ⟨hs.unfinished, hs.dones, hs.inserts, hs.again⟩ nofun hne hc fun hfin => ?_
    exact absurd (hopen.symm.trans hfin) nofun
  · exact absurd hempty hne

/-- An error or the end of the stream. -/
theorem RequestOpen.readFailed (hs : RequestOpen s) (hframes : s.frames = []) (hne : errMsg ≠ "")
    (ht : s.leave D (s.conn.readFailed errMsg) = some t) :
    ∃ errMsg, errMsg ≠ "" ∧ RequestEnded errMsg t ∧ Settled t.conn := by
  have hbegun := hs.toRequestBegun
  unfold TcpConnection.readFailed at ht
  cases hs.phase with
  | undelivered h hund hread hwrite hdone =>
    -- no read handler is kept: `Finish` cancels the asyncer, which calls the write handler
    simp only [hread] at ht
    rcases finish_cases errMsg hs.conn with ⟨k, -, hfin⟩ | ⟨a, hnone, -⟩
    · rw [hfin] at ht
      refine ⟨_, ?_, hbegun.writeError hframes ?_ ?_ ?_ ?_ ht⟩
      · decide
      · exact nofun
      · decide
      · exact ⟨rfl, fun _ => hwrite⟩
      · exact fun _ => rfl
    · exact absurd (hund.symm.trans hnone) nofun
  | writing h hund hread hwrite hdone =>
    -- `Finish` calls `userWriteHandler_` itself
    simp only [hread] at ht
    rcases finish_cases errMsg hs.conn with ⟨k, hk, -⟩ | ⟨a, -, hund', hfin⟩
    · exact absurd (hund.symm.trans hk) nofun
    · rw [hfin] at ht
      rcases finishWrite_cases errMsg { s.conn with finished := true, asyncer := a } with
        ⟨k, -, -, hwr⟩ | ⟨hno, -⟩
      · rw [hwr] at ht
        refine ⟨_, ?_, hbegun.writeError hframes ?_ ?_ ?_ ?_ ht⟩
        · decide
        · exact nofun
        · decide
        · exact ⟨hund', nofun⟩
        · exact fun _ => rfl
      · exact absurd (hwrite.symm.trans (hno hdone)) nofun
  | waiting h hund hread hany hdone hnotify =>
    simp only [hread] at ht
    have hsettled : Settled s.conn.resetRead :=
      ⟨hund, fun hc => absurd (hdone.symm.trans hc) nofun⟩
    exact ⟨errMsg, hne, hbegun.readError hframes hne hsettled hs.conn ht⟩

theorem RequestOpen.setConn {c : TcpConnection} (hs : RequestOpen s) (hconn : c.finished = false)
    (hphase : RequestPhase c) : RequestOpen { s with conn := c } :=
  ⟨⟨hs.unfinished, hs.dones, hs.inserts, hs.again⟩, hconn, hphase, hs.frames⟩

/-- A chunk of the response, or bytes that nobody waits for yet. -/
theorem RequestOpen.chunk {buf : List UInt8} {b : Buffer} (hs : RequestOpen s)
    (hne : buf ≠ []) (hb : s.conn.readBuffer.write buf = some b)
    (ht : s.leave D (readDone { s.conn with
      readBuffer := b, readedSize := s.conn.readedSize + toUInt64 buf.length }) = some t) :
    OpenStep D s (.readable (.bytes buf)) t := by
  have hclear : ∀ {h : Handler}, s.conn.userReadHandler = some h →
      (EndsAtOnce D s (.readable (.bytes buf)) ↔ D.Ends s b) := by
    intro h hh
    refine ⟨fun hends => hends hs.unfinished hne (by rw [hh]; exact nofun) b hb,
      fun hends _ _ _ b' hb' => ?_⟩
    obtain rfl := Option.some.inj (hb.symm.trans hb')
    exact hends
  cases hs.phase with
  | undelivered h hund hread hwrite hdone =>
    -- the bytes are counted, for `AsyncReadAny` to find them
    simp only [readDone, hread, return_] at ht
    cases ht
    exact .goesOn (hs.setConn hs.conn (.undelivered h hund rfl hwrite hdone)) (.inl rfl)
      fun _ _ hc => absurd hread hc
  | writing h hund hread hwrite hdone =>
    simp only [readDone, hread, return_] at ht
    cases ht
    exact .goesOn (hs.setConn hs.conn (.writing h hund rfl hwrite hdone)) (.inl rfl)
      fun _ _ hc => absurd hread hc
  | waiting h hund hread hany hdone hnotify =>
    rw [readDone_any hread hany] at ht
    rcases RequestBegun.onRead
        (s := { s with
          conn := resetRead { s.conn with
            readBuffer := b, readedSize := s.conn.readedSize + toUInt64 buf.length }
          frames := .conn .done :: s.frames })
        ⟨hs.unfinished, hs.dones, hs.inserts, hs.again⟩ hs.conn hund hread hany hdone hnotify
        (List.forall_mem_cons.mpr ⟨rfl, hs.frames⟩) ht with
      ⟨errMsg, hended, hsettled, hends⟩ | ⟨hopen, htimer, hends⟩
    · exact .ended errMsg hended ((hclear hread).mpr hends) (.inl hsettled)
    · exact .popped hopen htimer fun hc => hends ((hclear hread).mp hc)

/-- A readable event. -/
theorem RequestOpen.readable {r : SysRead} (hs : RequestOpen s) (hframes : s.frames = [])
    (ho : s.conn.readHandler r = some o) (ht : s.leave D o = some t) :
    OpenStep D s (.readable r) t := by
  cases r with
  | eagain =>
    cases ho
    cases ht
    exact .goesOn (hs.setConn hs.conn hs.phase) (.inl rfl) True.intro
  | error strerror =>
    rw [readHandler_error] at ho
    cases ho
    obtain ⟨errMsg, -, hended, hsettled⟩ :=
      hs.readFailed hframes (by simp [Socket.formatErrMsg]) ht
    exact .ended errMsg hended True.intro (.inl hsettled)
  | bytes buf =>
    by_cases hne : buf = []
    · subst hne
      rw [readHandler_eof] at ho
      cases ho
      obtain ⟨errMsg, -, hended, hsettled⟩ := hs.readFailed hframes (by decide) ht
      exact .ended errMsg hended (fun _ hc => absurd rfl hc) (.inl hsettled)
    · rw [readHandler_bytes (List.length_pos_of_ne_nil hne)] at ho
      obtain ⟨b, hb, rfl⟩ := Option.map_eq_some_iff.mp ho
      exact hs.chunk hne hb ht

/-- The write is over: the request waits for the response, or has it already. -/
theorem RequestOpen.written {h : Handler} {e : Event} {r : SysResult} (hs : RequestOpen s)
    (hund : s.conn.undelivered = none) (hwrite : s.conn.userWriteHandler ≠ none)
    (hempty : s.conn.writeBuffer.readIndex = s.conn.writeBuffer.writeIndex)
    (ht : s.leave D
      ⟨{ s.conn with writeDone := true, event := some { e with writeNotify := false } },
        some (.write h "", .done)⟩ = some t) : OpenStep D s (.writable r) t := by
  have hdone : ∀ f ∈ RequestFrame.conn .done :: s.frames, f = .conn .done :=
    List.forall_mem_cons.mpr ⟨rfl, hs.frames⟩
  rcases onWrite_cases (s := { s with
      conn := { s.conn with writeDone := true, event := some { e with writeNotify := false } }
      frames := .conn .done :: s.frames }) hs.inserts ht with ⟨hsize, rfl⟩ | ⟨hsize, ht⟩
  · refine .goesOn ⟨⟨hs.unfinished, hs.dones, hs.inserts, hs.again⟩, hs.conn, ?_, hdone⟩ (.inl rfl)
      fun _ _ _ hc => absurd hsize hc
    exact .waiting readCallback hund rfl rfl rfl rfl
  · have hclear : EndsAtOnce D s (.writable r) ↔ D.Ends s s.conn.readBuffer :=
      ⟨fun hends => hends hs.unfinished hwrite hempty hsize, fun hends _ _ _ _ => hends⟩
    rcases RequestBegun.onRead
        (s := { s with
          conn := resetRead { s.conn with
            writeDone := true
            event := some { e with writeNotify := false }
            anyFlag := true
            userReadHandler := some readCallback }
          frames := .conn .done :: .conn .done :: s.frames })
        ⟨hs.unfinished, hs.dones, hs.inserts, hs.again⟩ hs.conn hund rfl rfl rfl rfl
        (List.forall_mem_cons.mpr ⟨rfl, hdone⟩) ht with
      ⟨errMsg, hended, hsettled, hends⟩ | ⟨hopen, htimer, hends⟩
    · exact .ended errMsg hended (hclear.mpr hends) (.inl hsettled)
    · exact .popped hopen htimer fun hc => hends (hclear.mp hc)

/-- A writable event. -/
theorem RequestOpen.writable {r : SysResult} {sent : List UInt8} (hs : RequestOpen s)
    (hframes : s.frames = []) (hnotify : s.conn.writeNotify = true)
    (ho : s.conn.writeHandler r = some (o, sent)) (ht : s.leave D o = some t) :
    OpenStep D s (.writable r) t := by
  rcases eq_or_ne s.conn.writeBuffer.readIndex s.conn.writeBuffer.writeIndex with hempty | hempty
  · obtain ⟨h, e, hh, -, rfl⟩ := writeHandler_empty hempty ho
    refine hs.written ?_ (by rw [hh]; exact nofun) hempty ht
    cases hs.phase with
    | undelivered k hund hread hwrite => exact absurd (hwrite.symm.trans hh) nofun
    | writing k hund => exact hund
    | waiting k hund => exact hund
  · have hends : EndsAtOnce D s (.writable r) := fun _ _ hc => absurd hc hempty
    rcases writeHandler_bytes hempty ho with ⟨h, b, e, hh, he, rfl⟩ | ⟨b, rfl⟩
    · have hund : s.conn.undelivered = none := by
        cases hs.phase with
        | undelivered k hund hread hwrite => exact absurd (hwrite.symm.trans hh) nofun
        | writing k hund => exact hund
        | waiting k hund => exact hund
      have hsettled : Settled { s.conn with writeBuffer := b, writeDone := true } := ⟨hund, nofun⟩
      have hend := hs.toRequestBegun.writeError (f := .callFinish e) hframes nofun he hsettled
        (fun hc => absurd (hs.conn.symm.trans hc) nofun) ht
      exact .ended e hend.1 hends (.inl hend.2)
    · cases ht
      refine .goesOn (hs.setConn hs.conn ?_) (.inl rfl) hends
      cases hs.phase with
      | undelivered k hund hread hwrite hdone => exact .undelivered k hund hread hwrite hdone
      | writing k hund hread hwrite hdone => exact .writing k hund hread hwrite hdone
      | waiting k hund hread hany hdone hoff => exact absurd (hoff.symm.trans hnotify) nofun

/-! ## All steps -/

/-- The timer is armed, or there is nothing of it left for the loop. -/
def TimerOk (s : RequestRun σ) : Prop :=
  ∀ timer, s.timer = some timer → timer.Armed timerCallback ∨ timer.Spent

/-- The timer expires: its callback runs `Finish`. -/
theorem expire_callDone {now : UInt64} {timer t' : Timer} {calls : List TimerCall}
    (hs : TimerOk s) (htimer : s.timer = some timer) (hx : timer.expire now = some (t', calls)) :
    t'.Spent ∧ calls.foldl onTimer { s with timer := some t' } =
      { s.uses with timer := some t' }.callDone "timeout" := by
  rcases hs timer htimer with harmed | hspent
  · obtain ⟨rfl, hspent⟩ := harmed.expire hx
    exact ⟨hspent, rfl⟩
  · exact absurd (hspent.expire_none.symm.trans hx) nofun

/-- A step in which the timer expires. -/
theorem expire_cases {now : UInt64} (htimer : TimerOk s)
    (hstep : s.step D (.expire now) = some t) :
    s.frames = [] ∧ ∃ t' : Timer, t = { s.uses with timer := some t' }.callDone "timeout" := by
  obtain ⟨hframes, ho⟩ := Option.ite_none_right_eq_some.mp hstep
  obtain ⟨⟨t', calls⟩, hx, ht⟩ := Option.map_eq_some_iff.mp ho
  obtain ⟨timer, hsome, hx⟩ := Option.bind_eq_some_iff.mp hx
  exact ⟨hframes, t', ht.symm.trans (expire_callDone htimer hsome hx).2⟩

theorem RequestOpen.timeout {t' : Timer} (hs : RequestOpen s) :
    RequestEnded "timeout" ({ s with timer := some t' }.callDone "timeout") := by
  refine RequestBegun.callDone ⟨hs.unfinished, hs.dones, hs.inserts, hs.again⟩
    (frames_done hs.frames) (fun hc => ?_) fun hc => absurd hc (by decide)
  exact absurd (hs.conn.symm.trans hc) nofun

/-- The timer expires in the write or while the request waits for the response. -/
theorem RequestOpen.expire {now : UInt64} {t' : Timer} (hs : RequestOpen s) :
    OpenStep D s (.expire now) ({ s with timer := some t' }.callDone "timeout") := by
  refine .ended "timeout" hs.timeout True.intro ?_
  cases hs.phase with
  | undelivered k hund hread => exact .inr ⟨now, rfl, hread⟩
  | writing k hund hread => exact .inr ⟨now, rfl, hread⟩
  | waiting k hund hread hany hdone =>
    refine .inl ?_
    rw [callDone_conn]
    exact ⟨hund, fun hc => absurd (hdone.symm.trans hc) nofun⟩

/-- A step of a request that is not finished. -/
theorem RequestOpen.step {a : RequestAction} (hs : RequestOpen s) (htimer : TimerOk s)
    (hstep : s.step D a = some t) : OpenStep D s a t := by
  cases a with
  | deliver =>
    obtain ⟨hframes, ho⟩ := Option.ite_none_right_eq_some.mp hstep
    obtain ⟨o, ho, ht⟩ := Option.bind_eq_some_iff.mp ho
    obtain ⟨hopen, hsame⟩ := hs.deliver ho ht
    exact .goesOn hopen (.inl hsame) True.intro
  | readable r =>
    obtain ⟨⟨hframes, -⟩, ho⟩ := Option.ite_none_right_eq_some.mp hstep
    obtain ⟨o, ho, ht⟩ := Option.bind_eq_some_iff.mp ho
    exact hs.readable hframes ho ht
  | writable r =>
    obtain ⟨⟨hframes, hnotify⟩, ho⟩ := Option.ite_none_right_eq_some.mp hstep
    obtain ⟨⟨o, sent⟩, ho, ht⟩ := Option.bind_eq_some_iff.mp ho
    exact hs.writable hframes hnotify ho ht
  | timerDeliver now =>
    obtain ⟨hframes, ho⟩ := Option.ite_none_right_eq_some.mp hstep
    obtain ⟨t', ht', rfl⟩ := Option.map_eq_some_iff.mp ho
    obtain ⟨timer, hsome, hd⟩ := Option.bind_eq_some_iff.mp ht'
    exact .goesOn ⟨⟨hs.unfinished, hs.dones, hs.inserts, hs.again⟩, hs.conn, hs.phase, hs.frames⟩
      (.inr ⟨timer, now, t', hsome, hd, rfl⟩) True.intro
  | expire now =>
    obtain ⟨-, t', rfl⟩ := expire_cases htimer hstep
    rw [uses_eq hs.inserts]
    exact hs.expire
  | resume =>
    cases hframes : s.frames with
    | nil => simp [RequestRun.step, hframes] at hstep
    | cons f fs =>
      have hfs := hs.frames
      rw [hframes] at hfs
      obtain rfl := hfs f List.mem_cons_self
      simp only [RequestRun.step, hframes, Frame.resume, return_, leave, Option.bind_some,
        Option.some.injEq] at hstep
      subst hstep
      exact .goesOn ⟨⟨hs.unfinished, hs.dones, hs.inserts, hs.again⟩, hs.conn, hs.phase,
        fun g hg => hfs g (List.mem_cons_of_mem _ hg)⟩ (.inl rfl) True.intro
  | destroy =>
    -- the object is kept alive by the callbacks until `onDone_` is called
    obtain ⟨⟨-, hdones⟩, -⟩ := Option.ite_none_right_eq_some.mp hstep
    exact absurd hs.dones hdones
  | stack finish =>
    cases hstep
    exact .goesOn ⟨⟨hs.unfinished, hs.dones, hs.inserts, hs.again⟩, hs.conn, hs.phase, hs.frames⟩
      (.inl rfl) True.intro

/-! ## The timer -/

theorem foldl_onTimer_timer (calls : List TimerCall) (s : RequestRun σ) :
    (calls.foldl onTimer s).timer = s.timer := by
  induction calls generalizing s with
  | nil => rfl
  | cons call calls ih =>
    refine (ih (s.onTimer call)).trans ?_
    unfold onTimer
    split
    next => rfl
    next =>
      split
      next => rfl
      next => exact callDone_timer _ _

theorem onRead_timer (ht : s.onRead D errMsg = some t) :
    t.timer = s.timer.map fun timer => timer.cancel.1 := by
  have hcases := onRead_branches ht
  rw [cancelTimer_eq] at hcases
  rcases hcases with ⟨-, rfl⟩ | ⟨-, errMsg, finish, b, derived, -, ⟨-, rfl⟩ | ⟨-, -, rfl⟩⟩
  · exact callDone_timer _ _
  · exact callDone_timer _ _
  · rfl

theorem onWrite_timer (ht : s.onWrite D errMsg = some t) :
    t.timer = s.timer ∨ t.timer = s.timer.map fun timer => timer.cancel.1 := by
  rcases onWrite_branches ht with ⟨-, rfl⟩ | ⟨-, -, rfl⟩ | ⟨-, -, hread⟩
  · exact .inl (callDone_timer _ _)
  · exact .inl rfl
  · have htimer := onRead_timer hread
    exact .inr htimer

/-- The callbacks of the connection leave the timer alone, or cancel it. -/
theorem leave_timer (ht : s.leave D o = some t) :
    t.timer = s.timer ∨ t.timer = s.timer.map fun timer => timer.cancel.1 := by
  obtain ⟨c, _ | ⟨call, f⟩⟩ := o
  · cases ht
    exact .inl rfl
  · cases call with
    | read h e =>
      exact .inr (onRead_timer (s := { s with conn := c, frames := .conn f :: s.frames }) ht)
    | write h e => exact onWrite_timer (s := { s with conn := c, frames := .conn f :: s.frames }) ht
    | finish e =>
      cases ht
      exact .inl rfl

theorem TimerOk.of_leave (hs : TimerOk s) (ht : s.leave D o = some t) : TimerOk t := by
  intro timer htimer
  rcases leave_timer ht with hsame | hcancel
  · exact hs timer (hsame ▸ htimer)
  · rw [hcancel] at htimer
    obtain ⟨old, hold, rfl⟩ := Option.map_eq_some_iff.mp htimer
    rcases hs old hold with harmed | hspent
    · exact .inr harmed.cancel.1
    · exact .inr hspent.cancel

/-- The handler called last returns: the method that called it goes on, or `Finish` does. -/
theorem resume_cases (hstep : s.step D .resume = some t) :
    (∃ f fs o, s.frames = .conn f :: fs ∧ f.resume s.conn = some o ∧
      { s with frames := fs }.leave D o = some t) ∨
    (∃ e fs, s.frames = .onDone e :: fs ∧ { s with frames := fs }.insert D e = some t) := by
  cases hframes : s.frames with
  | nil => simp [RequestRun.step, hframes] at hstep
  | cons g fs =>
    cases g with
    | conn f =>
      simp only [RequestRun.step, hframes] at hstep
      obtain ⟨o, ho, ht⟩ := Option.bind_eq_some_iff.mp hstep
      exact .inl ⟨f, fs, o, rfl, ho, ht⟩
    | onDone e =>
      simp only [RequestRun.step, hframes] at hstep
      exact .inr ⟨e, fs, rfl, hstep⟩

/-- While `onDone_` runs, the loop waits: `Finish` goes on to the pool, or the owner acts. -/
theorem RequestEnded.step_cases {a : RequestAction} (hs : RequestEnded errMsg s)
    (hstep : s.step D a = some t) :
    (∃ fs, s.frames = .onDone errMsg :: fs ∧ { s with frames := fs }.insert D errMsg = some t) ∨
    (∃ timer finish alive, t = { s with timer := timer, finish := finish, alive := alive } ∧
      RequestEnded errMsg t) := by
  obtain ⟨fs, hframes, -, -⟩ := hs.frames
  have hne : s.frames ≠ [] := by rw [hframes]; exact List.cons_ne_nil _ _
  cases a with
  | deliver | timerDeliver now | expire now =>
    exact absurd (Option.ite_none_right_eq_some.mp hstep).1 hne
  | readable r | writable r => exact absurd (Option.ite_none_right_eq_some.mp hstep).1.1 hne
  | resume =>
    rcases resume_cases hstep with ⟨f, fs', o, hframes', -, -⟩ | ⟨e, fs', hframes', ht⟩
    · cases hframes.symm.trans hframes'
    · obtain ⟨heq, rfl⟩ := List.cons.inj (hframes.symm.trans hframes')
      cases heq
      exact .inl ⟨_, hframes', ht⟩
  | destroy =>
    obtain ⟨-, ht⟩ := Option.ite_none_right_eq_some.mp hstep
    cases ht
    rw [destroy_eq]
    exact .inr ⟨none, s.finish, false, rfl,
      ⟨hs.finished, hs.dones, hs.inserts, hs.again, hs.frames, hs.notify⟩⟩
  | stack finish =>
    cases hstep
    exact .inr ⟨s.timer, finish, s.alive, rfl,
      ⟨hs.finished, hs.dones, hs.inserts, hs.again, hs.frames, hs.notify⟩⟩

/-- What a step can do to a request: a method of the connection runs, the timer does, or the object
goes. What is left does not touch the timer and the marks. -/
inductive RequestMove (D : Derived σ) (s t : RequestRun σ) : Prop
  | leaves (o : Outcome) (fs : List RequestFrame) (inserts : List String)
      (ht : { s with frames := fs, inserts := inserts }.leave D o = some t)
  | delivers (now : UInt64) (timer t' : Timer) (hsome : s.timer = some timer)
      (hd : timer.deliver now = some t') (ht : t = { s with timer := some t' })
  | expires (now : UInt64) (timer t' : Timer) (calls : List TimerCall)
      (hsome : s.timer = some timer) (hx : timer.expire now = some (t', calls))
      (ht : t = calls.foldl onTimer { s with timer := some t' })
  | destroys (ht : t = { s with timer := none, alive := false })
  | keeps (htimer : t.timer = s.timer) (hfinished : t.finished = s.finished)
      (hagain : t.again = s.again)

theorem step_move {a : RequestAction} (hstep : s.step D a = some t) : RequestMove D s t := by
  cases a with
  | deliver =>
    obtain ⟨-, ho⟩ := Option.ite_none_right_eq_some.mp hstep
    obtain ⟨o, -, ht⟩ := Option.bind_eq_some_iff.mp ho
    exact .leaves o s.frames s.inserts ht
  | readable r =>
    obtain ⟨-, ho⟩ := Option.ite_none_right_eq_some.mp hstep
    obtain ⟨o, -, ht⟩ := Option.bind_eq_some_iff.mp ho
    exact .leaves o s.frames s.inserts ht
  | writable r =>
    obtain ⟨-, ho⟩ := Option.ite_none_right_eq_some.mp hstep
    obtain ⟨⟨o, sent⟩, -, ht⟩ := Option.bind_eq_some_iff.mp ho
    exact .leaves o s.frames s.inserts ht
  | timerDeliver now =>
    obtain ⟨-, ho⟩ := Option.ite_none_right_eq_some.mp hstep
    obtain ⟨t', ht', rfl⟩ := Option.map_eq_some_iff.mp ho
    obtain ⟨timer, hsome, hd⟩ := Option.bind_eq_some_iff.mp ht'
    exact .delivers now timer t' hsome hd rfl
  | expire now =>
    obtain ⟨-, ho⟩ := Option.ite_none_right_eq_some.mp hstep
    obtain ⟨⟨t', calls⟩, hx, rfl⟩ := Option.map_eq_some_iff.mp ho
    obtain ⟨timer, hsome, hx⟩ := Option.bind_eq_some_iff.mp hx
    exact .expires now timer t' calls hsome hx rfl
  | resume =>
    rcases resume_cases hstep with ⟨f, fs, o, -, -, ht⟩ | ⟨e, fs, -, ht⟩
    · exact .leaves o fs s.inserts ht
    · unfold RequestRun.insert at ht
      split at ht
      next => exact .leaves _ fs (e :: s.inserts) ht
      next =>
        cases ht
        exact .keeps rfl rfl rfl
  | destroy =>
    obtain ⟨-, ht⟩ := Option.ite_none_right_eq_some.mp hstep
    cases ht
    exact .destroys (destroy_eq s)
  | stack finish =>
    cases hstep
    exact .keeps rfl rfl rfl

theorem TimerOk.step {a : RequestAction} (hs : TimerOk s) (hstep : s.step D a = some t) :
    TimerOk t := by
  cases step_move hstep with
  | leaves o fs inserts ht =>
    exact TimerOk.of_leave (s := { s with frames := fs, inserts := inserts }) hs ht
  | delivers now timer t' hsome hd ht =>
    subst ht
    rintro _ ⟨⟩
    rcases hs timer hsome with harmed | hspent
    · exact .inl (harmed.deliver hd)
    · exact absurd (hspent.deliver_none.symm.trans hd) nofun
  | expires now timer t' calls hsome hx ht =>
    intro timer' htimer'
    rw [ht, foldl_onTimer_timer] at htimer'
    cases htimer'
    exact .inr (expire_callDone hs hsome hx).1
  | destroys ht =>
    subst ht
    exact nofun
  | keeps htimer _ _ => exact fun timer h => hs timer (htimer.symm.trans h)

/-! ## What a step never takes back -/

/-- `finished_` stays set, and so does the mark that the client was used again. -/
structure Later (s t : RequestRun σ) : Prop where
  finished : s.finished = true → t.finished = true
  again : s.again = true → t.again = true

theorem Later.trans {u : RequestRun σ} (h : Later s t) (h' : Later t u) : Later s u :=
  ⟨fun hs => h'.finished (h.finished hs), fun hs => h'.again (h.again hs)⟩

theorem later_uses (s : RequestRun σ) : Later s s.uses :=
  ⟨id, fun hs => by simp [uses, hs]⟩

theorem later_callDone (errMsg : String) (s : RequestRun σ) : Later s (s.callDone errMsg) := by
  unfold callDone
  split
  · exact ⟨id, id⟩
  · exact ⟨fun _ => rfl, id⟩

theorem later_onTimer (calls : List TimerCall) (s : RequestRun σ) :
    Later s (calls.foldl onTimer s) := by
  induction calls generalizing s with
  | nil => exact ⟨id, id⟩
  | cons call calls ih =>
    have hcall : Later s (s.onTimer call) := by
      unfold onTimer
      split
      next => exact ⟨id, id⟩
      next =>
        split
        next => exact ⟨id, id⟩
        next => exact (later_uses s).trans (later_callDone _ _)
    exact hcall.trans (ih _)

theorem later_onRead (ht : s.onRead D errMsg = some t) : Later s t := by
  have hcases := onRead_branches ht
  rw [cancelTimer_eq] at hcases
  have huses := later_uses s
  rcases hcases with ⟨-, rfl⟩ | ⟨-, errMsg, finish, b, derived, -, ⟨-, rfl⟩ | ⟨-, -, rfl⟩⟩
  · refine .trans ?_ (later_callDone _ _)
    exact ⟨huses.finished, huses.again⟩
  · refine .trans ?_ (later_callDone _ _)
    exact ⟨huses.finished, huses.again⟩
  · exact ⟨huses.finished, huses.again⟩

theorem later_onWrite (ht : s.onWrite D errMsg = some t) : Later s t := by
  have huses := later_uses s
  rcases onWrite_branches ht with ⟨-, rfl⟩ | ⟨-, -, rfl⟩ | ⟨-, -, hread⟩
  · exact huses.trans (later_callDone _ _)
  · exact ⟨huses.finished, huses.again⟩
  · have hlater := later_onRead hread
    exact huses.trans ⟨hlater.finished, hlater.again⟩

theorem later_leave (ht : s.leave D o = some t) : Later s t := by
  obtain ⟨c, _ | ⟨call, f⟩⟩ := o
  · cases ht
    exact ⟨id, id⟩
  · cases call with
    | read h e =>
      have hread := later_onRead (s := { s with conn := c, frames := .conn f :: s.frames }) ht
      exact ⟨hread.finished, hread.again⟩
    | write h e =>
      have hwrite := later_onWrite (s := { s with conn := c, frames := .conn f :: s.frames }) ht
      exact ⟨hwrite.finished, hwrite.again⟩
    | finish e =>
      cases ht
      exact ⟨id, id⟩

theorem later_step {a : RequestAction} (hstep : s.step D a = some t) : Later s t := by
  cases step_move hstep with
  | leaves o fs inserts ht =>
    have hleave := later_leave (s := { s with frames := fs, inserts := inserts }) ht
    exact ⟨hleave.finished, hleave.again⟩
  | delivers now timer t' _ _ ht =>
    subst ht
    exact ⟨id, id⟩
  | expires now timer t' calls _ _ ht =>
    subst ht
    have hcalls := later_onTimer calls { s with timer := some t' }
    exact ⟨hcalls.finished, hcalls.again⟩
  | destroys ht =>
    subst ht
    exact ⟨id, id⟩
  | keeps _ hfinished hagain => exact ⟨hfinished.trans, hagain.trans⟩

/-! ## `doReq` -/

theorem startTimer_eq (timeoutMs : UInt64) (s : RequestRun σ) : s.startTimer timeoutMs =
    { s with
      timer :=
        if timeoutMs ≠ 0 then some (Timer.new.asyncWait timeoutMs timerCallback).1
        else s.timer } := by
  unfold startTimer
  split
  next => rw [foldl_onTimer_destroy]; rfl
  next => rfl

/-- `doReq` of a client that has not been used leaves a request that is open, with its timer armed,
or finishes it at once. -/
theorem doReq_cases {timeoutMs : UInt64} {conn : TcpConnection} {derived : σ} {finish : Bool}
    (hconn : Pooled conn) (hs : doReq D .new timeoutMs conn derived finish = some s) :
    TimerOk s ∧ ((RequestOpen s ∧ (timeoutMs ≠ 0 →
        ∃ timer, s.timer = some timer ∧ timer.Armed timerCallback)) ∨
      ∃ errMsg, RequestEnded errMsg s ∧ Settled s.conn) := by
  obtain ⟨⟨e, b, derived'⟩, -, hs⟩ := Option.bind_eq_some_iff.mp hs
  simp only at hs
  split at hs
  next hne =>
    cases hs
    refine ⟨?_, .inr ⟨e, ?_, ?_⟩⟩
    · intro timer htimer
      rw [callDone_timer] at htimer
      cases htimer
    · exact RequestBegun.callDone ⟨rfl, rfl, rfl, rfl⟩ nofun (fun hc => .inl (hconn.closed hc))
        fun hc => absurd hc hne
    · rw [callDone_conn]
      exact ⟨hconn.undelivered, fun _ => hconn.userWriteHandler⟩
  next =>
    obtain ⟨o, ho, hs⟩ := Option.bind_eq_some_iff.mp hs
    rw [startTimer_eq] at hs
    have harmed := (Timer.asyncWait_armed timeoutMs timerCallback).1
    have hok : ∀ timer,
        (if timeoutMs ≠ 0 then some (Timer.new.asyncWait timeoutMs timerCallback).1
          else none) = some timer →
        timer.Armed timerCallback ∨ timer.Spent := by
      intro timer htimer
      split at htimer
      next => cases htimer; exact .inl harmed
      next => cases htimer
    rcases asyncWrite_cases ho with ⟨hfin, rfl⟩ | ⟨-, old, hold, -⟩ | ⟨hfin, -, rfl⟩
    · -- the connection is closed: the write callback is called at once
      have ht := onWrite_error (by rfl) (by decide) hs
      subst ht
      refine ⟨?_, .inr ⟨"Finished", ?_, ?_⟩⟩
      · intro timer htimer
        rw [callDone_timer] at htimer
        exact hok timer htimer
      · refine RequestBegun.callDone ⟨rfl, rfl, rfl, rfl⟩ ?_ (fun hc => .inl (hconn.closed hc))
          fun hc => absurd hc (by decide)
        intro g hg
        obtain rfl := List.mem_singleton.mp hg
        exact ⟨rfl, nofun⟩
      · rw [callDone_conn]
        exact ⟨hconn.undelivered, fun _ => hconn.userWriteHandler⟩
    · exact absurd (hconn.undelivered.symm.trans hold) nofun
    · cases hs
      refine ⟨hok, .inl ⟨⟨⟨rfl, rfl, rfl, rfl⟩, hfin, ?_, nofun⟩, fun htimeout => ?_⟩⟩
      · exact .undelivered writeCallback rfl hconn.userReadHandler hconn.userWriteHandler
          hconn.writeDone
      · exact ⟨_, if_pos htimeout, harmed⟩

end

end Sheep
