import Sheep.Client.HttpClient
import Sheep.Client.RequestSteps

/-!
# The timeout of a request

A request with a timeout has its timer armed until `Finish` runs, so that a server that stops
answering cannot keep it for ever. `timerArmed_iff`: the law holds in all states of a run exactly
if each time the read callback gets bytes they end the request. The callback cancels the timer
before it knows whether the response is complete, and nothing arms it again.
-/

namespace Sheep

open RequestRun

variable {σ : Type} {D : Derived σ} {s t : RequestRun σ}

/-- Until `Finish` runs, the timer is armed. -/
def TimerArmed (s : RequestRun σ) : Prop :=
  s.finished = false → ∃ timer, s.timer = some timer ∧ timer.Armed timerCallback

/-- An armed timer that expires finishes the request. -/
theorem TimerArmed.expire {timer : Timer} {e : TimerEvent} {now : UInt64} (hs : RequestOpen s)
    (htimer : s.timer = some timer) (harmed : timer.Armed timerCallback)
    (he : timer.event = some e) (hdue : e.fd ≤ now.toInt64) (hframes : s.frames = []) :
    ∃ t, s.step D (.expire now) = some t ∧ t.finished = true ∧ t.dones = ["timeout"] := by
  obtain ⟨⟨timer', calls⟩, hx⟩ := Option.isSome_iff_exists.mp (harmed.expire_isSome he hdue)
  obtain ⟨rfl, -⟩ := harmed.expire hx
  refine ⟨{ s.uses with timer := some timer' }.callDone "timeout", ?_, ?_, ?_⟩
  · show (if s.frames = [] then _ else none) = _
    rw [if_pos hframes, htimer]
    show (timer.expire now).map _ = _
    rw [hx]
    rfl
  · rw [callDone_eq (s := { s.uses with timer := some timer' }) hs.unfinished]
  · rw [callDone_eq (s := { s.uses with timer := some timer' }) hs.unfinished]
    exact congrArg ("timeout" :: ·) hs.dones

/-- What holds in every state. -/
structure RequestSound (s : RequestRun σ) : Prop where
  timer : TimerOk s
  opened : s.finished = false → RequestOpen s

theorem RequestSound.step {a : RequestAction} (hs : RequestSound s)
    (hstep : s.step D a = some t) : RequestSound t := by
  refine ⟨hs.timer.step hstep, fun hopen => ?_⟩
  cases hfin : s.finished with
  | true => exact absurd (((later_step hstep).finished hfin).symm.trans hopen) nofun
  | false =>
    cases (hs.opened hfin).step hs.timer hstep with
    | goesOn h => exact h
    | popped h => exact h
    | ended e h => exact absurd (h.finished.symm.trans hopen) nofun

/-- A step keeps the timer armed if the bytes that the callback gets end the request, and only
then. -/
theorem TimerArmed.step_iff {a : RequestAction} (hs : RequestSound s) (harmed : TimerArmed s)
    (hstep : s.step D a = some t) : TimerArmed t ↔ EndsAtOnce D s a := by
  cases hfin : s.finished with
  | true =>
    have hdone := (later_step hstep).finished hfin
    refine ⟨fun _ => ?_, fun _ hopen => absurd (hdone.symm.trans hopen) nofun⟩
    cases a with
    | readable r =>
      cases r with
      | bytes buf => exact fun hc => absurd (hfin.symm.trans hc) nofun
      | eagain | error strerror => exact True.intro
    | writable r => exact fun hc => absurd (hfin.symm.trans hc) nofun
    | deliver | timerDeliver now | expire now | resume | destroy | stack finish => exact True.intro
  | false =>
    obtain ⟨timer, htimer, hwaits⟩ := harmed hfin
    cases (hs.opened hfin).step hs.timer hstep with
    | goesOn hopen hkept hends =>
      refine ⟨fun _ => hends, fun _ _ => ?_⟩
      rcases hkept with hsame | ⟨old, now, new, hold, hd, hnew⟩
      · exact ⟨timer, hsame.trans htimer, hwaits⟩
      · obtain rfl := Option.some.inj (htimer.symm.trans hold)
        exact ⟨new, hnew, hwaits.deliver hd⟩
    | popped hopen hcancel hends =>
      -- the request goes on with a canceled timer
      refine ⟨fun hlaw => ?_, fun hc => absurd hc hends⟩
      obtain ⟨timer', htimer', hwaits'⟩ := hlaw hopen.unfinished
      rw [hcancel, htimer, Option.map_some] at htimer'
      cases htimer'
      exact absurd hwaits' hwaits.cancel.1.not_armed
    | ended e hended hends =>
      exact ⟨fun _ => hends, fun _ hc => absurd (hended.finished.symm.trans hc) nofun⟩

/-- The timer of a request stays armed until `Finish` runs, exactly in the runs in which the bytes
that the read callback gets always end the request. -/
theorem timerArmed_iff {timeoutMs : UInt64} {conn : TcpConnection} {derived : σ} {finish : Bool}
    {as : List RequestAction} (htimeout : timeoutMs ≠ 0) (hconn : Pooled conn)
    (hs : doReq D .new timeoutMs conn derived finish = some s)
    (hrun : ((request D s).run s as).isSome) :
    (request D s).AllStates TimerArmed s as ↔ (request D s).AllSteps (EndsAtOnce D) s as := by
  obtain ⟨htimer, hcases⟩ := doReq_cases hconn hs
  have hstart : RequestSound s ∧ TimerArmed s := by
    rcases hcases with ⟨hopen, harmed⟩ | ⟨e, hended, -⟩
    · exact ⟨⟨htimer, fun _ => hopen⟩, fun _ => harmed htimeout⟩
    · have hnot : s.finished ≠ false := by rw [hended.finished]; exact nofun
      exact ⟨⟨htimer, fun hc => absurd hc hnot⟩, fun hc => absurd hc hnot⟩
  exact System.allStates_iff_allSteps (L := fun _ => True) hstart.2 hstart.1
    (fun _ _ _ hI hstep => hI.step hstep)
    (fun _ _ _ hI harmed _ hstep => harmed.step_iff hI hstep) (fun _ _ => True.intro) hrun

/-- A response that comes in one piece. -/
theorem timerArmed_whole_response :
    (request (HttpClient.derived smallParser) pingRequest).AllStates TimerArmed pingRequest
      [.deliver, .writable (.count 18), .writable .eagain, .resume, .timerDeliver 7,
        .readable (.bytes (bytes "HTTP/1.1 204 No Content\r\n\r\n")), .resume, .resume] :=
  (timerArmed_iff (by decide) Pooled.connected doReq_pingRequest (by decide +kernel)).mpr
    (by decide +kernel)

/-- The first piece of a response cancels the timer: if no other piece comes, the request waits for
ever. -/
theorem first_chunk_cancels_timeout :
    ¬ (request (HttpClient.derived smallParser) pingRequest).AllStates TimerArmed pingRequest
      [.deliver, .writable (.count 18), .writable .eagain, .resume, .timerDeliver 7,
        .readable (.bytes (bytes "HTTP/1.1 200 OK\r\n")), .resume] := by
  intro hlaw
  have hend : ((request (HttpClient.derived smallParser) pingRequest).run pingRequest
      [.deliver, .writable (.count 18), .writable .eagain, .resume, .timerDeliver 7,
        .readable (.bytes (bytes "HTTP/1.1 200 OK\r\n")), .resume]).map
      (fun s => (s.finished, s.timer.map (·.done))) = some (false, some true) := by
    decide +kernel
  obtain ⟨t, hrun, ht⟩ := Option.map_eq_some_iff.mp hend
  obtain ⟨hfin, hdone⟩ := Prod.mk.inj ht
  obtain ⟨timer, htimer, harmed⟩ := hlaw.last hrun hfin
  rw [htimer, Option.map_some, harmed.notDone] at hdone
  cases hdone

end Sheep
