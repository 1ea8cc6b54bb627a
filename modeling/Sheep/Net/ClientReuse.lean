import Sheep.Net.ClientUse

/-!
# A `Client` that connects again

`reuseLaw_iff`: a run keeps `ReuseLaw` if and only if `AsyncConnect` is called when no attempt is
between the loop and its answer and no connection is open, a finished connection is not `Reset`,
and the client is destroyed when nothing is left that calls it. An attempt that waits for the loop
is no obstacle to the next one, whatever its handler does.

`reconnecting_never_returns`: unless the handler connects again each time. Then `AsyncConnect` on
the thread of the loop does not return: the asyncer that one of the calls cancels belongs to a
handler that has called `AsyncConnect` itself, and the call around it finds the asyncer used.
-/

namespace Sheep

namespace ClientUse

/-! ## The invariant -/

/-- Where the newest attempt is. -/
inductive Stage (s : ClientUse) : Prop
  /-- `AsyncConnect` waits for a handler -/
  | unused {n : Nat} {frames : List ConnectFrame} : s.asyncer = .unused → s.delivering = none →
      s.connecting = false → s.current = none → s.frames = .canceled n :: frames →
      n + 1 = s.attempts → Stage s
  | waiting {n : Nat} : s.asyncer = .waiting n → s.delivering = none → s.connecting = false →
      s.current = none → .canceled n ∉ s.frames → n + 1 = s.attempts → Stage s
  | delivering {n : Nat} : s.asyncer = .done → s.delivering = some n → s.connecting = false →
      s.current = none → .canceled n ∉ s.frames → n + 1 = s.attempts → Stage s
  | connecting : s.asyncer = .done → s.delivering = none → s.connecting = true →
      s.current = none → s.frames = [] → 0 < s.attempts → Stage s
  | connected {n : Nat} : s.asyncer = .done → s.delivering = none → s.connecting = false →
      s.current = some n → s.frames = [] → n + 1 = s.attempts → Stage s
  | idle : s.asyncer = .done → s.delivering = none → s.connecting = false → s.current = none →
      s.frames = [] → Stage s

/-- What the connection of an attempt has been told of. -/
def Reported (s : ClientUse) (n : Nat) (r : TcpRun) : Prop :=
  r.FinishesOnce ∧ s.answers n = .connected "" :: r.ends.map .disconnected

/-- How far an attempt has come. -/
inductive Life (s : ClientUse) (n : Nat) : Prop
  | unborn : s.attempts ≤ n → ¬ s.UnderWay n → s.answers n = [] → s.connection n = none →
      Life s n
  | underWay : n < s.attempts → s.UnderWay n → s.answers n = [] → s.connection n = none →
      Life s n
  | connected {r : TcpRun} : n < s.attempts → s.current = some n → s.connection n = some r →
      s.Reported n r → Life s n
  | ended : n < s.attempts → s.Over n → ¬ s.UnderWay n → s.current ≠ some n →
      (∀ r, s.connection n = some r → s.Reported n r ∧ r.ends.length = 1) → Life s n
  /-- the client has been destroyed -/
  | gone : s.destroyed = true → n + 1 = s.attempts → (s.answers n = [] ∨ s.Opened n) →
      s.connection n = none → Life s n

structure Inv (s : ClientUse) : Prop where
  stage : s.Stage
  nodup : (s.frames.filterMap ConnectFrame.attempt?).Nodup
  life : ∀ n, s.Life n
  handlers : 0 < s.attempts → s.connectedHandler = true ∧ s.disconnectedHandler = true
  connector : 0 < s.attempts → s.destroyed = false → s.connector.isSome
  gone : s.destroyed = true → s.asyncer = .done ∧ s.frames = [] ∧ s.delivering = none ∧
    s.current = none ∧ s.connector = none
  fault : s.fault = false

variable {s t : ClientUse} {m n : Nat} {errMsg : String}

theorem inv_new (addr : String) (port : Int) : (new addr port).Inv where
  stage := .idle rfl rfl rfl rfl rfl
  nodup := List.nodup_nil
  life n := .unborn (Nat.zero_le n) (fun h => by simp [UnderWay, new, ClientUse.connecting] at h)
    rfl rfl
  handlers h := absurd h (Nat.lt_irrefl 0)
  connector h := absurd h (Nat.lt_irrefl 0)
  gone h := by cases h
  fault := rfl

theorem Over.ne_nil (h : s.Over n) : s.answers n ≠ [] := by
  obtain ⟨e, h | h⟩ := h
  · rw [h]
    exact List.cons_ne_nil _ _
  · rw [h]
    exact List.cons_ne_nil _ _

theorem Over.not_opened (h : s.Over n) : ¬ s.Opened n := by
  intro ho
  unfold Opened at ho
  obtain ⟨e, h | h⟩ := h
  · rw [h] at ho
    cases ho
  · rw [h] at ho
    cases ho

/-- A connection has had its end, or has not. -/
theorem Reported.cases {r : TcpRun} (h : s.Reported n r) :
    r.ends.length = 0 ∧ s.Opened n ∨ r.ends.length = 1 ∧ s.Over n := by
  obtain ⟨honce, hanswers⟩ := h
  have hle : r.ends.length ≤ 1 := by
    have hlast := Bool.toNat_le r.conn.finished
    unfold TcpRun.FinishesOnce at honce
    exact (Nat.le_add_left ..).trans (honce ▸ hlast)
  cases hends : r.ends with
  | nil =>
    rw [hends] at hanswers
    exact .inl ⟨rfl, hanswers⟩
  | cons e rest =>
    rw [hends, List.length_cons] at hle
    have hrest : rest = [] :=
      List.eq_nil_of_length_eq_zero (Nat.le_zero.mp (Nat.le_of_succ_le_succ hle))
    rw [hends, hrest] at hanswers
    exact .inr ⟨by rw [hrest]; rfl, e, .inr hanswers⟩

theorem Stage.of_same (h : s.Stage) (hasyncer : t.asyncer = s.asyncer)
    (hdelivering : t.delivering = s.delivering) (hconnecting : t.connecting = s.connecting)
    (hcurrent : t.current = s.current) (hframes : t.frames = s.frames)
    (hattempts : t.attempts = s.attempts) : t.Stage := by
  cases h with
  | unused ha hd hc hcur hf hnew =>
    exact .unused (hasyncer.trans ha) (hdelivering.trans hd) (hconnecting.trans hc)
      (hcurrent.trans hcur) (hframes.trans hf) (hattempts ▸ hnew)
  | waiting ha hd hc hcur hf hnew =>
    exact .waiting (hasyncer.trans ha) (hdelivering.trans hd) (hconnecting.trans hc)
      (hcurrent.trans hcur) (hframes ▸ hf) (hattempts ▸ hnew)
  | delivering ha hd hc hcur hf hnew =>
    exact .delivering (hasyncer.trans ha) (hdelivering.trans hd) (hconnecting.trans hc)
      (hcurrent.trans hcur) (hframes ▸ hf) (hattempts ▸ hnew)
  | connecting ha hd hc hcur hf hpos =>
    exact .connecting (hasyncer.trans ha) (hdelivering.trans hd) (hconnecting.trans hc)
      (hcurrent.trans hcur) (hframes.trans hf) (hattempts ▸ hpos)
  | connected ha hd hc hcur hf hnew =>
    exact .connected (hasyncer.trans ha) (hdelivering.trans hd) (hconnecting.trans hc)
      (hcurrent.trans hcur) (hframes.trans hf) (hattempts ▸ hnew)
  | idle ha hd hc hcur hf =>
    exact .idle (hasyncer.trans ha) (hdelivering.trans hd) (hconnecting.trans hc)
      (hcurrent.trans hcur) (hframes.trans hf)

/-- What is under way is in a frame, or the newest attempt. -/
theorem Stage.underWay (h : s.Stage) (hn : s.UnderWay n) :
    .canceled n ∈ s.frames ∨ n + 1 = s.attempts := by
  rcases hn with hn | hn | hn | ⟨-, hn⟩
  · exact .inl hn
  · cases h with
    | waiting ha _ _ _ _ hnew =>
      cases ha.symm.trans hn
      exact .inr hnew
    | unused ha | delivering ha | connecting ha | connected ha | idle ha => cases ha.symm.trans hn
  · cases h with
    | delivering _ hd _ _ _ hnew =>
      cases hd.symm.trans hn
      exact .inr hnew
    | unused _ hd | waiting _ hd | connecting _ hd | connected _ hd | idle _ hd =>
      cases hd.symm.trans hn
  · exact .inr hn

theorem Stage.current (h : s.Stage) (hn : s.current = some n) : n + 1 = s.attempts := by
  cases h with
  | connected _ _ _ hc _ hnew =>
    cases hc.symm.trans hn
    exact hnew
  | unused _ _ _ hc | waiting _ _ _ hc | delivering _ _ _ hc | connecting _ _ _ hc
  | idle _ _ _ hc => cases hc.symm.trans hn

theorem Inv.law (hs : s.Inv) : s.ReuseLaw := by
  refine ⟨fun n => ?_, fun n hn hframe => ?_, fun hd n hn hnil => ?_, fun hd n ho => ?_,
    fun n r hr => ?_, fun hd => ?_, hs.fault⟩
  · cases hs.life n with
    | unborn _ _ hnil | underWay _ _ hnil => exact .inl hnil
    | connected _ _ _ hr => exact .inr (hr.cases.imp And.right And.right)
    | ended _ hover => exact .inr (.inr hover)
    | gone _ _ h => exact h.imp_right .inl
  · have hnew : n + 1 ≠ s.attempts := Nat.ne_of_lt hn
    cases hs.life n with
    | unborn hle => exact absurd hle (Nat.not_le_of_lt (Nat.lt_of_succ_lt hn))
    | underWay _ hu => exact ((hs.stage.underWay hu).elim hframe hnew).elim
    | connected _ hc => exact absurd (hs.stage.current hc) hnew
    | ended _ hover => exact hover
    | gone _ hnew' => exact absurd hnew' hnew
  · cases hs.life n with
    | unborn hle => exact absurd hle (Nat.not_le_of_lt hn)
    | underWay _ hu => exact hu
    | connected _ _ _ hr =>
      rw [hr.2] at hnil
      cases hnil
    | ended _ hover => exact absurd hnil hover.ne_nil
    | gone hd' => cases hd.symm.trans hd'
  · have hne : s.answers n ≠ [] := by
      rw [ho]
      exact List.cons_ne_nil _ _
    cases hs.life n with
    | unborn _ _ hnil | underWay _ _ hnil => exact absurd hnil hne
    | connected _ hc hr => exact ⟨hc, by rw [hr]; rfl⟩
    | ended _ hover => exact absurd ho hover.not_opened
    | gone hd' => cases hd.symm.trans hd'
  · cases hs.life n with
    | unborn _ _ _ hnone | underWay _ _ _ hnone | gone _ _ _ hnone => cases hnone.symm.trans hr
    | connected _ _ hr' hrep =>
      cases hr'.symm.trans hr
      exact hrep.1
    | ended _ _ _ _ h => exact (h r hr).1.1
  · obtain ⟨-, hframes, hdelivering, hcurrent, -⟩ := hs.gone hd
    refine ⟨hframes, hdelivering, fun n r hr => ?_⟩
    cases hs.life n with
    | unborn _ _ _ hnone | underWay _ _ _ hnone | gone _ _ _ hnone => cases hnone.symm.trans hr
    | connected _ hc => cases hcurrent.symm.trans hc
    | ended _ _ _ _ h => exact (h r hr).2

/-! ## One step and one attempt -/

theorem answers_same (hlog : t.log = s.log) : t.answers n = s.answers n := by
  rw [answers, hlog]
  rfl

theorem answers_call {c : ClientCall} (hlog : t.log = s.log ++ [(n, c)]) :
    t.answers n = s.answers n ++ [c] := by
  rw [answers, hlog, List.filterMap_append]
  simp [answers]

theorem answers_call_of_ne {c : ClientCall} (hlog : t.log = s.log ++ [(m, c)]) (hne : n ≠ m) :
    t.answers n = s.answers n := by
  rw [answers, hlog, List.filterMap_append]
  simp [answers, hne.symm]

/-- A handler has been called with the failure of an attempt. -/
theorem over_call (hlog : t.log = s.log ++ [(n, .disconnected errMsg)])
    (hnil : s.answers n = []) : t.Over n :=
  ⟨errMsg, .inl (by rw [answers_call hlog, hnil]; rfl)⟩

theorem Life.of_same (h : s.Life n) (hborn : n < t.attempts ↔ n < s.attempts)
    (hunder : t.UnderWay n ↔ s.UnderWay n) (hanswers : t.answers n = s.answers n)
    (hconn : t.connection n = s.connection n) (hcurrent : t.current = some n ↔ s.current = some n)
    (hgone : s.destroyed = true → t.destroyed = true ∧ t.attempts = s.attempts) : t.Life n := by
  have hopened : t.Opened n ↔ s.Opened n := by rw [Opened, hanswers, Opened]
  have hover : t.Over n ↔ s.Over n := by rw [Over, hanswers, Over]
  have hreported : ∀ r, t.Reported n r ↔ s.Reported n r := fun r => by
    rw [Reported, hanswers, Reported]
  cases h with
  | unborn hle hu hnil hnone =>
    exact .unborn (Nat.le_of_not_lt fun h => Nat.not_le_of_lt (hborn.mp h) hle)
      (fun h => hu (hunder.mp h)) (hanswers.trans hnil) (hconn.trans hnone)
  | underWay hlt hu hnil hnone =>
    exact .underWay (hborn.mpr hlt) (hunder.mpr hu) (hanswers.trans hnil) (hconn.trans hnone)
  | connected hlt hc hr hrep =>
    exact .connected (hborn.mpr hlt) (hcurrent.mpr hc) (hconn.trans hr) ((hreported _).mpr hrep)
  | ended hlt ho hu hc hr =>
    refine .ended (hborn.mpr hlt) (hover.mpr ho) (fun h => hu (hunder.mp h))
      (fun h => hc (hcurrent.mp h)) fun r h => ?_
    obtain ⟨hrep, hlen⟩ := hr r (hconn.symm.trans h)
    exact ⟨(hreported r).mpr hrep, hlen⟩
  | gone hd hnew ho hnone =>
    obtain ⟨hd', hattempts⟩ := hgone hd
    refine .gone hd' (hattempts ▸ hnew) ?_ (hconn.trans hnone)
    rw [hanswers, hopened]
    exact ho

theorem Stage.not_underWay (h : s.Stage) (hn : s.current = some n) : ¬ s.UnderWay n := by
  cases h with
  | connected ha hd hc _ hf => simp [UnderWay, ha, hd, hc, hf]
  | unused _ _ _ hc | waiting _ _ _ hc | delivering _ _ _ hc | connecting _ _ _ hc
  | idle _ _ _ hc => cases hc.symm.trans hn

/-- An attempt that is under way. -/
theorem Inv.underWay (hs : s.Inv) (hdestroyed : s.destroyed = false) (hn : s.UnderWay n) :
    n < s.attempts ∧ s.answers n = [] ∧ s.connection n = none := by
  cases hs.life n with
  | underWay hlt _ hnil hnone => exact ⟨hlt, hnil, hnone⟩
  | unborn _ hnot | ended _ _ hnot => exact absurd hn hnot
  | connected _ hc => exact absurd hn (hs.stage.not_underWay hc)
  | gone hd => cases hdestroyed.symm.trans hd

/-- It has failed. -/
theorem Inv.answered (hs : s.Inv) (hdestroyed : s.destroyed = false) (hn : s.UnderWay n)
    (hlog : t.log = s.log ++ [(n, .disconnected errMsg)]) (hborn : s.attempts ≤ t.attempts)
    (hunder : ¬ t.UnderWay n) (hcurrent : t.current = none)
    (hconn : t.connection n = s.connection n) : t.Life n := by
  obtain ⟨hlt, hnil, hnone⟩ := hs.underWay hdestroyed hn
  refine .ended (Nat.lt_of_lt_of_le hlt hborn) (over_call hlog hnil) hunder
    (by rw [hcurrent]; exact nofun) fun r hr => ?_
  cases (hconn.trans hnone).symm.trans hr

/-! ## `AsyncConnect` -/

/-- The connections that are there once `connection_` has let its own go. -/
def kept (s : ClientUse) (held : Bool) (n : Nat) : Option TcpRun :=
  if s.current = some n ∧ s.onlyOwner held n = true then none else s.connection n

theorem letGo_eq (s : ClientUse) (held : Bool) :
    s.letGo held = { s with current := none, connection := s.kept held } := by
  unfold letGo
  split
  next hc =>
    have hkept : s.kept held = s.connection := funext fun n => if_neg (by rw [hc]; exact nofun)
    rw [hkept, ← hc]
  next n hc =>
    have hkept : s.kept held = if s.onlyOwner held n = true then
        Function.update s.connection n none else s.connection := by
      funext m
      unfold kept
      rcases eq_or_ne m n with rfl | hm
      · by_cases ho : s.onlyOwner held m = true <;> simp [hc, ho]
      · rw [if_neg fun h => hm (Option.some.inj (hc.symm.trans h.1)).symm]
        split
        · exact (Function.update_of_ne hm ..).symm
        · rfl
    rw [hkept]

theorem kept_cases (s : ClientUse) (held : Bool) (n : Nat) :
    s.kept held n = s.connection n ∨ s.current = some n ∧ s.kept held n = none := by
  unfold kept
  split
  next h => exact .inr ⟨h.1, rfl⟩
  · exact .inl rfl

/-- A new attempt, before its asyncer. -/
def begun (s : ClientUse) (held : Bool) : ClientUse :=
  { s with
    current := none
    connection := s.kept held
    connectCalled := true
    connector := some .new
    attempts := s.attempts + 1 }

theorem asyncConnect_waiting {old : Nat} (held : Bool)
    (hset : s.connectedHandler = true ∧ s.disconnectedHandler = true)
    (ha : s.asyncer = .waiting old) : s.asyncConnect held = { s.begun held with
      asyncer := .unused
      frames := .canceled s.attempts :: s.frames
      asked := false
      log := s.log ++ [(old, .disconnected "Asyncer Canceled")]
      fault := s.fault || s.destroyed } := by
  unfold asyncConnect
  rw [hset.1, hset.2, if_neg (by decide), letGo_eq, ha]
  rfl

theorem asyncConnect_of_ne (held : Bool)
    (hset : s.connectedHandler = true ∧ s.disconnectedHandler = true)
    (ha : ∀ old, s.asyncer ≠ .waiting old) : s.asyncConnect held = { s.begun held with
      asyncer := .waiting s.attempts
      asked := true } := by
  unfold asyncConnect
  rw [hset.1, hset.2, if_neg (by decide), letGo_eq]
  split
  next old h => exact absurd h (ha old)
  all_goals rfl

theorem asyncConnect_of_not_set (held : Bool)
    (hset : ¬ (s.connectedHandler = true ∧ s.disconnectedHandler = true)) :
    s.asyncConnect held = s := by
  unfold asyncConnect
  exact if_pos (by simpa [imp_iff_not_or, or_comm] using hset)

/-- The attempts before a new one. -/
theorem Inv.begun_life (hs : s.Inv) (hdestroyed : s.destroyed = false) (hclosed : s.closed = true)
    (hattempts : t.attempts = s.attempts + 1) (hcurrent : t.current = none)
    (hconn : t.connection n = s.connection n ∨ s.current = some n ∧ t.connection n = none)
    (hn : n ≠ s.attempts) (hunder : t.UnderWay n ↔ s.UnderWay n)
    (hanswers : t.answers n = s.answers n) : t.Life n := by
  have hborn : n < t.attempts ↔ n < s.attempts := by
    rw [hattempts, Nat.lt_succ_iff_lt_or_eq]
    exact or_iff_left hn
  cases hc : decide (s.current = some n) with
  | true =>
    have hcur : s.current = some n := of_decide_eq_true hc
    cases hs.life n with
    | connected hlt _ hr hrep =>
      have hone : _ := hclosed
      simp only [closed, hcur, Option.all_some, hr, beq_iff_eq] at hone
      have hreported : ∀ r, t.Reported n r ↔ s.Reported n r := fun r => by
        rw [Reported, hanswers, Reported]
      obtain ⟨e, hover⟩ := (hrep.cases.resolve_left fun h => by
        rw [hone] at h; exact absurd h.1 (by decide)).2
      refine .ended (hborn.mpr hlt) ⟨e, by rw [hanswers]; exact hover⟩
        (fun h => hs.stage.not_underWay hcur (hunder.mp h)) (by rw [hcurrent]; exact nofun)
        fun r' hr' => ?_
      rcases hconn with hconn | ⟨-, hconn⟩
      · cases (hconn.trans hr).symm.trans hr'
        exact ⟨(hreported _).mpr hrep, hone⟩
      · cases hconn.symm.trans hr'
    | unborn hle =>
      have hnew := hs.stage.current hcur
      exact absurd (hnew ▸ Nat.lt_succ_self n) (Nat.not_lt_of_le hle)
    | underWay _ hu => exact absurd hu (hs.stage.not_underWay hcur)
    | ended _ _ _ hne => exact absurd hcur hne
    | gone hd => cases hdestroyed.symm.trans hd
  | false =>
    have hcur : s.current ≠ some n := of_decide_eq_false hc
    refine (hs.life n).of_same hborn hunder hanswers (hconn.resolve_right fun h => hcur h.1)
      ⟨fun h => ?_, fun h => absurd h hcur⟩ fun hd => ?_
    · cases hcurrent.symm.trans h
    · cases hdestroyed.symm.trans hd

theorem Inv.unborn (hs : s.Inv) : ¬ s.UnderWay s.attempts ∧ s.answers s.attempts = [] ∧
    s.connection s.attempts = none := by
  have hlt := Nat.lt_irrefl s.attempts
  cases hs.life s.attempts with
  | unborn _ hu hnil hnone => exact ⟨hu, hnil, hnone⟩
  | underWay h | connected h | ended h => exact absurd h hlt
  | gone _ h => exact absurd h (Nat.succ_ne_self _)

/-- The new attempt itself. -/
theorem Inv.new_life (hs : s.Inv) (hattempts : t.attempts = s.attempts + 1)
    (hunder : t.UnderWay s.attempts) (hlog : t.answers s.attempts = s.answers s.attempts)
    (hconn : t.connection s.attempts = none) : t.Life s.attempts :=
  .underWay (by rw [hattempts]; exact Nat.lt_succ_self _) hunder (hlog.trans hs.unborn.2.1) hconn

theorem Inv.asyncConnect (hs : s.Inv) (hdestroyed : s.destroyed = false) (held : Bool)
    (hq : s.Reuses (.asyncConnect held)) : (s.asyncConnect held).Inv := by
  obtain ⟨hdelivering, hconnecting, hclosed⟩ := hq
  unfold ClientUse.connecting at hconnecting
  by_cases hset : s.connectedHandler = true ∧ s.disconnectedHandler = true
  case neg =>
    rw [asyncConnect_of_not_set held hset]
    exact hs
  have hconn := s.kept_cases held
  by_cases hold : ∃ old, s.asyncer = .waiting old
  · obtain ⟨old, hold⟩ := hold
    rw [asyncConnect_waiting held hset hold]
    cases hs.stage with
    | unused ha | delivering ha | connecting ha | connected ha | idle ha =>
      cases ha.symm.trans hold
    | waiting ha _ _ hcurrent hframe hnew =>
      cases ha.symm.trans hold
      have hne : old ≠ s.attempts := Nat.ne_of_lt (hnew ▸ Nat.lt_succ_self old)
      refine ⟨.unused rfl hdelivering rfl rfl rfl rfl, ?_, fun m => ?_, fun _ => hset,
        fun _ _ => rfl, fun hd => ?_, ?_⟩
      · refine List.nodup_cons.mpr ⟨fun hmem => hs.unborn.1 (.inl ?_), hs.nodup⟩
        obtain ⟨f, hf, hfn⟩ := List.mem_filterMap.mp hmem
        cases f with
        | canceled k =>
          cases hfn
          exact hf
        | reuse => cases hfn
      · rcases eq_or_ne m s.attempts with rfl | hm
        · refine hs.new_life rfl (.inl List.mem_cons_self) (answers_call_of_ne rfl hne.symm) ?_
          exact (hconn _).elim (fun h => h.trans hs.unborn.2.2) And.right
        · rcases eq_or_ne m old with rfl | hmo
          · refine hs.answered hdestroyed (.inr (.inl hold)) rfl (Nat.le_succ _) ?_ rfl
              ((hconn _).resolve_right fun h => by rw [hcurrent] at h; cases h.1)
            simp [UnderWay, begun, hne, hframe, hdelivering, ClientUse.connecting, Connector.new]
          · refine hs.begun_life hdestroyed hclosed rfl rfl (hconn m) hm ?_
              (answers_call_of_ne rfl hmo)
            simp [UnderWay, begun, hm, hold, Ne.symm hmo, hconnecting, ClientUse.connecting,
              Connector.new]
      · cases hdestroyed.symm.trans hd
      · show (s.fault || s.destroyed) = false
        rw [hs.fault, hdestroyed]
        rfl
  · have hold : ∀ old, s.asyncer ≠ .waiting old := fun old h => hold ⟨old, h⟩
    rw [asyncConnect_of_ne held hset hold]
    refine ⟨.waiting rfl hdelivering rfl rfl (fun h => hs.unborn.1 (.inl h)) rfl, hs.nodup,
      fun m => ?_, fun _ => hset, fun _ _ => rfl, fun hd => ?_, hs.fault⟩
    · rcases eq_or_ne m s.attempts with rfl | hm
      · refine hs.new_life rfl (.inr (.inl rfl)) (answers_same rfl) ?_
        exact (hconn _).elim (fun h => h.trans hs.unborn.2.2) And.right
      · refine hs.begun_life hdestroyed hclosed rfl rfl (hconn m) hm ?_ (answers_same rfl)
        simp [UnderWay, begun, Ne.symm hm, hold m, hconnecting, ClientUse.connecting,
          Connector.new]
    · cases hdestroyed.symm.trans hd

/-- What follows in `AsyncConnect` once a handler has returned. -/
inductive Returned (s : ClientUse) : ClientUse → Prop
  | reuse {frames : List ConnectFrame} : s.frames = .reuse :: frames →
      Returned s { s with frames := frames, asked := true }
  | asyncDo {n : Nat} {frames : List ConnectFrame} : s.frames = .canceled n :: frames →
      s.asyncer = .unused →
      Returned s { s with frames := frames, asyncer := .waiting n, asked := true }
  | canReuse {n : Nat} {frames : List ConnectFrame} : s.frames = .canceled n :: frames →
      s.asyncer ≠ .unused →
      Returned s { s with
        frames := .reuse :: frames
        asked := false
        log := s.log ++ [(n, .disconnected "Asyncer can't reuse")]
        fault := s.fault || s.destroyed }

theorem asyncDo_unused (h : s.asyncer = .unused) :
    s.asyncDo n = { s with asyncer := .waiting n, asked := true } := by
  unfold asyncDo
  split
  · rfl
  all_goals next h' => cases h.symm.trans h'

theorem asyncDo_used (h : s.asyncer ≠ .unused) : s.asyncDo n = { s with
    frames := .reuse :: s.frames
    asked := false
    log := s.log ++ [(n, .disconnected "Asyncer can't reuse")]
    fault := s.fault || s.destroyed } := by
  unfold asyncDo
  split
  next h' => exact absurd h' h
  all_goals rfl

theorem returned_cases (hlive : s.frames ≠ [] → s.destroyed = false) (ht : s.returned = some t) :
    s.Returned t := by
  unfold returned at ht
  split at ht
  · cases ht
  next n frames hframes =>
    have hd : s.destroyed = false := hlive (by rw [hframes]; exact List.cons_ne_nil _ _)
    rw [if_neg (by rw [hd]; decide)] at ht
    rcases eq_or_ne s.asyncer .unused with ha | ha
    · rw [asyncDo_unused (s := { s with frames := frames }) ha] at ht
      cases ht
      exact .asyncDo hframes ha
    · rw [asyncDo_used (s := { s with frames := frames }) ha] at ht
      cases ht
      exact .canReuse hframes ha
  next frames hframes =>
    cases ht
    exact .reuse hframes

theorem Inv.live_of_frames (hs : s.Inv) (hframes : s.frames ≠ []) : s.destroyed = false :=
  Bool.eq_false_of_not_eq_true fun hd => hframes (hs.gone hd).2.1

/-- A handler inside `AsyncConnect` returns. -/
theorem Inv.returned (hs : s.Inv) (ht : s.returned = some t) : t.Inv := by
  have hnodup := hs.nodup
  have hlive : s.destroyed = false := hs.live_of_frames fun hnil => by
    simp [ClientUse.returned, hnil] at ht
  have hlives : ∀ {p : Prop}, s.destroyed = true → p := fun hd => by cases hlive.symm.trans hd
  cases returned_cases (fun _ => hlive) ht with
  | @reuse frames hframes =>
    rw [hframes] at hnodup
    have hrest : ∀ {n}, .canceled n ∉ s.frames → .canceled n ∉ frames := fun h hmem =>
      h (hframes ▸ List.mem_cons_of_mem _ hmem)
    refine ⟨?_, hnodup, fun m => ?_, hs.handlers, hs.connector, hlives, hs.fault⟩
    · cases hs.stage with
      | unused _ _ _ _ hf | connecting _ _ _ _ hf | connected _ _ _ _ hf | idle _ _ _ _ hf =>
        cases hf.symm.trans hframes
      | waiting ha hd hc hcur hf hnew => exact .waiting ha hd hc hcur (hrest hf) hnew
      | delivering ha hd hc hcur hf hnew => exact .delivering ha hd hc hcur (hrest hf) hnew
    · refine (hs.life m).of_same Iff.rfl ?_ (answers_same rfl) rfl Iff.rfl hlives
      simp [UnderWay, hframes, ClientUse.connecting]
  | @asyncDo n frames hframes ha =>
    rw [hframes] at hnodup
    obtain ⟨hn, hnodup⟩ := List.nodup_cons.mp hnodup
    cases hs.stage with
    | waiting ha' | delivering ha' | connecting ha' | connected ha' | idle ha' =>
      cases ha'.symm.trans ha
    | unused _ hd hc hcur hf hnew =>
      cases hf.symm.trans hframes
      have hrest : .canceled n ∉ frames := fun hmem => hn (List.mem_filterMap.mpr ⟨_, hmem, rfl⟩)
      refine ⟨.waiting rfl hd hc hcur hrest hnew, hnodup, fun m => ?_, hs.handlers, hs.connector,
        hlives, hs.fault⟩
      refine (hs.life m).of_same Iff.rfl ?_ (answers_same rfl) rfl Iff.rfl hlives
      -- the attempt goes from its frame to the asyncer
      simp only [UnderWay, hframes, ha, List.mem_cons, ConnectFrame.canceled.injEq,
        ClientAsyncer.waiting.injEq, reduceCtorEq, false_or, eq_comm (a := m),
        ClientUse.connecting]
      tauto
  | @canReuse n frames hframes ha =>
    rw [hframes] at hnodup
    obtain ⟨hn, hnodup⟩ := List.nodup_cons.mp hnodup
    have hmem : .canceled n ∈ s.frames := hframes ▸ List.mem_cons_self
    have hrest : ∀ {k}, .canceled k ∉ s.frames → .canceled k ∉ ConnectFrame.reuse :: frames := by
      intro k h hk
      rcases List.mem_cons.mp hk with hk | hk
      · cases hk
      · exact h (hframes ▸ List.mem_cons_of_mem _ hk)
    have hnot : .canceled n ∉ ConnectFrame.reuse :: frames := fun h => by
      rcases List.mem_cons.mp h with h | h
      · cases h
      · exact hn (List.mem_filterMap.mpr ⟨_, h, rfl⟩)
    have hfault : (s.fault || s.destroyed) = false := by rw [hs.fault, hlive]; rfl
    have hothers : ∀ m, m ≠ n → Life { s with
        frames := .reuse :: frames
        asked := false
        log := s.log ++ [(n, .disconnected "Asyncer can't reuse")]
        fault := s.fault || s.destroyed } m := fun m hm => by
      refine (hs.life m).of_same Iff.rfl ?_ (answers_call_of_ne rfl hm) rfl Iff.rfl hlives
      simp [UnderWay, hframes, hm, ClientUse.connecting]
    cases hs.stage with
    | unused ha' => exact absurd ha' ha
    | connecting _ _ _ _ hf | connected _ _ _ _ hf | idle _ _ _ _ hf => cases hf.symm.trans hframes
    | @waiting k ha' hd hc hcur hf hnew =>
      have hkn : k ≠ n := fun h => hf (h ▸ hmem)
      refine ⟨.waiting ha' hd hc hcur (hrest hf) hnew, hnodup, fun m => ?_, hs.handlers,
        hs.connector, hlives, hfault⟩
      rcases eq_or_ne m n with rfl | hm
      · refine hs.answered hlive (.inl hmem) rfl (Nat.le_refl _) ?_ hcur rfl
        rintro (h | h | h | ⟨h, -⟩)
        · exact hnot h
        · cases ha'.symm.trans h
          exact hkn rfl
        · cases hd.symm.trans h
        · cases hc.symm.trans h
      · exact hothers m hm
    | @delivering k ha' hd hc hcur hf hnew =>
      have hkn : k ≠ n := fun h => hf (h ▸ hmem)
      refine ⟨.delivering ha' hd hc hcur (hrest hf) hnew, hnodup, fun m => ?_, hs.handlers,
        hs.connector, hlives, hfault⟩
      rcases eq_or_ne m n with rfl | hm
      · refine hs.answered hlive (.inl hmem) rfl (Nat.le_refl _) ?_ hcur rfl
        rintro (h | h | h | ⟨h, -⟩)
        · exact hnot h
        · cases ha'.symm.trans h
        · cases hd.symm.trans h
          exact hkn rfl
        · cases hc.symm.trans h
      · exact hothers m hm

/-! ## The other steps -/

/-- Handlers are set. -/
theorem Inv.set (hs : s.Inv) (connected disconnected : Bool)
    (hc : s.connectedHandler = true → connected = true)
    (hd : s.disconnectedHandler = true → disconnected = true) :
    Inv { s with connectedHandler := connected, disconnectedHandler := disconnected } := by
  refine ⟨hs.stage.of_same rfl rfl rfl rfl rfl rfl, hs.nodup, fun m => ?_,
    fun h => (hs.handlers h).imp hc hd, hs.connector, hs.gone, hs.fault⟩
  exact (hs.life m).of_same Iff.rfl Iff.rfl rfl rfl Iff.rfl fun hd => ⟨hd, rfl⟩

theorem Inv.deliver (hs : s.Inv) (ha : s.asyncer = .waiting n) :
    Inv { s with asyncer := .done, delivering := some n } := by
  cases hs.stage with
  | unused ha' | delivering ha' | connecting ha' | connected ha' | idle ha' =>
    cases ha'.symm.trans ha
  | waiting ha' hd hc hcur hf hnew =>
    cases ha'.symm.trans ha
    refine ⟨.delivering rfl rfl hc hcur hf hnew, hs.nodup, fun m => ?_, hs.handlers, hs.connector,
      fun hgone => ?_, hs.fault⟩
    · refine (hs.life m).of_same Iff.rfl ?_ (answers_same rfl) rfl Iff.rfl fun hd => ⟨hd, rfl⟩
      simp [UnderWay, ha', hd, ClientUse.connecting]
    · cases (hs.gone hgone).1.symm.trans ha'

theorem connect_cases (calls : ConnectCalls) {c : Connector}
    (hset : c.newConnectionHandler = true ∧ c.connectFailedHandler = true) :
    c.connect calls = ("", { c with event := some true }) ∨
      ∃ errMsg, errMsg ≠ "" ∧ c.connect calls = (errMsg, c) := by
  unfold Connector.connect
  rw [hset.1, hset.2, if_neg (by decide)]
  split
  next h => exact .inr ⟨_, h, rfl⟩
  · split
    next h => exact .inr ⟨_, h, rfl⟩
    · split
      next h => exact .inr ⟨_, h, rfl⟩
      · exact .inl rfl

/-- The function of the asyncer fails, or the loop has the write event of the connector to watch. -/
theorem run_cases (calls : ConnectCalls) {c : Connector} (hc : s.connector = some c)
    (hevent : c.event ≠ some true) : ∃ c' : Connector,
    c'.event = some true ∧ s.run n calls = { s with delivering := none, connector := some c' } ∨
      c'.event ≠ some true ∧ ∃ errMsg, s.run n calls = { s with
        delivering := none
        connector := some c'
        log := s.log ++ [(n, .disconnected errMsg)]
        fault := s.fault || s.destroyed } := by
  unfold run
  rw [hc]
  rcases connect_cases calls (c := { c with
      newConnectionHandler := true
      connectFailedHandler := true }) ⟨rfl, rfl⟩ with h | ⟨errMsg, he, h⟩
  · simp only [h]
    exact ⟨_, .inl ⟨rfl, rfl⟩⟩
  · simp only [h]
    exact ⟨{ c with newConnectionHandler := true, connectFailedHandler := true },
      .inr ⟨hevent, errMsg, if_pos he⟩⟩

theorem Inv.run (hs : s.Inv) (hdelivering : s.delivering = some n) (hframes : s.frames = [])
    (calls : ConnectCalls) : (s.run n calls).Inv := by
  have hlive : s.destroyed = false := Bool.eq_false_of_not_eq_true fun hd => by
    cases (hs.gone hd).2.2.1.symm.trans hdelivering
  have hlives : ∀ {p : Prop}, s.destroyed = true → p := fun hd => by cases hlive.symm.trans hd
  cases hs.stage with
  | unused _ hd | waiting _ hd | connecting _ hd | connected _ hd | idle _ hd =>
    cases hd.symm.trans hdelivering
  | delivering ha hd hc hcur hf hnew =>
    cases hd.symm.trans hdelivering
    obtain ⟨c, hsome⟩ := Option.isSome_iff_exists.mp
      (hs.connector (hnew ▸ Nat.succ_pos n) hlive)
    have hevent : c.event ≠ some true := by
      rw [ClientUse.connecting, hsome] at hc
      simpa using hc
    obtain ⟨c', ⟨hevent', heq⟩ | ⟨hevent', errMsg, heq⟩⟩ := run_cases (n := n) calls hsome hevent
    · rw [heq]
      have hconnecting : (some c').any (·.event == some true) = true := by simp [hevent']
      refine ⟨.connecting ha rfl hconnecting hcur hframes (hnew ▸ Nat.succ_pos n), hs.nodup,
        fun m => ?_, hs.handlers, fun _ _ => rfl, hlives, hs.fault⟩
      refine (hs.life m).of_same Iff.rfl ?_ (answers_same rfl) rfl Iff.rfl hlives
      rw [ClientUse.connecting, hsome] at hc
      simp only [UnderWay, hframes, ha, hd, ClientUse.connecting, hsome, hc, hconnecting, ← hnew]
      simp [eq_comm]
    · rw [heq]
      have hconnecting : (some c').any (·.event == some true) = false := by simp [hevent']
      refine ⟨.idle ha rfl hconnecting hcur hframes, hs.nodup, fun m => ?_, hs.handlers,
        fun _ _ => rfl, hlives, ?_⟩
      · rcases eq_or_ne m n with rfl | hm
        · refine hs.answered hlive (.inr (.inr (.inl hdelivering))) rfl (Nat.le_refl _) ?_ hcur rfl
          simp [UnderWay, hframes, ha, ClientUse.connecting, hevent']
        · refine (hs.life m).of_same Iff.rfl ?_ (answers_call_of_ne rfl hm) rfl Iff.rfl hlives
          rw [ClientUse.connecting, hsome] at hc
          simp [UnderWay, hframes, ha, hd, ClientUse.connecting, hsome, hevent, hevent', Ne.symm hm]
      · show (s.fault || s.destroyed) = false
        rw [hs.fault, hlive]
        rfl

theorem writeHandler_cases (addr : String) (port : Int) (error : Option String) (c : Connector) :
    ∃ c' : Connector, c'.event ≠ some true ∧
      (c.writeHandler addr port error = (c', .newConnection) ∨
        ∃ errMsg, c.writeHandler addr port error = (c', .connectFailed errMsg)) := by
  unfold Connector.writeHandler
  by_cases he : Socket.checkConnect addr port error ≠ ""
  · exact ⟨_, by exact nofun, .inr ⟨_, if_pos he⟩⟩
  · exact ⟨_, by exact nofun, .inl (if_neg he)⟩

/-- The write event of the connector. -/
theorem Inv.writable (hs : s.Inv) (hconnecting : s.connecting = true) (error : Option String)
    (held : Bool) : (s.writable error held).Inv := by
  cases hs.stage with
  | unused _ _ hc | waiting _ _ hc | delivering _ _ hc | connected _ _ hc | idle _ _ hc =>
    cases hc.symm.trans hconnecting
  | connecting ha hd _ hcur hframes hpos =>
    have hlive : s.destroyed = false := Bool.eq_false_of_not_eq_true fun hgone => by
      rw [ClientUse.connecting, (hs.gone hgone).2.2.2.2] at hconnecting
      cases hconnecting
    have hlives : ∀ {p : Prop}, s.destroyed = true → p := fun hd => by cases hlive.symm.trans hd
    have hnew : s.newest + 1 = s.attempts := Nat.succ_pred_eq_of_pos hpos
    have hfault : (s.fault || s.destroyed) = false := by rw [hs.fault, hlive]; rfl
    have hunder : s.UnderWay s.newest := .inr (.inr (.inr ⟨hconnecting, hnew⟩))
    obtain ⟨c, hsome⟩ := Option.isSome_iff_exists.mp (hs.connector hpos hlive)
    obtain ⟨c', hevent, hwrite⟩ := writeHandler_cases s.addr s.port error c
    have hnot : (some c').any (·.event == some true) = false := by simpa using hevent
    -- no other attempt is under way
    have hothers : ∀ m, m ≠ s.newest → ¬ s.UnderWay m := fun m hm h => by
      rcases hs.stage.underWay h with h | h
      · rw [hframes] at h
        cases h
      · exact hm (Nat.succ.inj (h.trans hnew.symm))
    rcases hwrite with hwrite | ⟨errMsg, hwrite⟩
    · have hkept : ∀ m, kept { s with connector := some c' } held m = s.connection m := fun m =>
        (kept_cases _ held m).resolve_right fun h => by cases hcur.symm.trans h.1
      have heq : s.writable error held = { s with
          connector := some c'
          current := some s.newest
          connection := Function.update s.connection s.newest (some .init)
          log := s.log ++ [(s.newest, .connected "")]
          fault := s.fault || s.destroyed } := by
        unfold ClientUse.writable
        rw [hsome]
        simp only [hwrite, letGo_eq, funext hkept]
        rfl
      rw [heq]
      refine ⟨.connected ha hd hnot rfl hframes hnew, hs.nodup, fun m => ?_, hs.handlers,
        fun _ _ => rfl, hlives, hfault⟩
      rcases eq_or_ne m s.newest with rfl | hm
      · refine .connected (hnew ▸ Nat.lt_succ_self _) rfl (Function.update_self ..) ⟨rfl, ?_⟩
        rw [answers_call (s := s) rfl, (hs.underWay hlive hunder).2.1]
        rfl
      · refine (hs.life m).of_same Iff.rfl ?_ (answers_call_of_ne rfl hm)
          (Function.update_of_ne hm ..) ?_ hlives
        · refine iff_of_false ?_ (hothers m hm)
          simp [UnderWay, hframes, ha, hd, ClientUse.connecting, hevent]
        · refine iff_of_false (fun h => hm (Option.some.inj h).symm) ?_
          rw [hcur]
          exact nofun
    · have heq : s.writable error held = { s with
          connector := some c'
          log := s.log ++ [(s.newest, .disconnected errMsg)]
          fault := s.fault || s.destroyed } := by
        unfold ClientUse.writable
        rw [hsome]
        simp only [hwrite]
        rfl
      rw [heq]
      have hnone : ∀ m, ¬ UnderWay { s with
          connector := some c'
          log := s.log ++ [(s.newest, .disconnected errMsg)]
          fault := s.fault || s.destroyed } m := fun m => by
        simp [UnderWay, hframes, ha, hd, ClientUse.connecting, hevent]
      refine ⟨.idle ha hd hnot hcur hframes, hs.nodup, fun m => ?_, hs.handlers, fun _ _ => rfl,
        hlives, hfault⟩
      rcases eq_or_ne m s.newest with rfl | hm
      · exact hs.answered hlive hunder rfl (Nat.le_refl _) (hnone _) hcur rfl
      · exact (hs.life m).of_same Iff.rfl (iff_of_false (hnone m) (hothers m hm))
          (answers_call_of_ne rfl hm) rfl Iff.rfl hlives

/-! ## A connection goes on -/

theorem foldl_call (ends : List String) : ∀ s : ClientUse,
    ends.foldl (fun t errMsg => t.call n (.disconnected errMsg)) s = { s with
      log := s.log ++ ends.map fun errMsg => (n, .disconnected errMsg)
      fault := s.fault || (s.destroyed && !ends.isEmpty) } := by
  induction ends with
  | nil => intro s; simp
  | cons errMsg rest ih =>
    intro s
    rw [List.foldl_cons, ih]
    cases hd : s.destroyed <;> simp [call, hd]

theorem answers_ends {ends : List String}
    (hlog : t.log = s.log ++ ends.map fun errMsg => (n, .disconnected errMsg)) :
    t.answers n = s.answers n ++ ends.map .disconnected := by
  rw [answers, hlog, List.filterMap_append, List.filterMap_map]
  congr 1
  induction ends <;> simp [*]

theorem answers_ends_of_ne {ends : List String} (hm : m ≠ n)
    (hlog : t.log = s.log ++ ends.map fun errMsg => (n, .disconnected errMsg)) :
    t.answers m = s.answers m := by
  rw [answers, hlog, List.filterMap_append, List.filterMap_map]
  simp [answers, hm.symm]

theorem Inv.connection {r r' : TcpRun} {a : TcpAction} (hs : s.Inv)
    (hr : s.connection n = some r) (ha : a = .reset → r.conn.finished = false)
    (ht : r.step a = some r') : (s.setConnection n r r').Inv := by
  obtain ⟨new, hnew⟩ := TcpRun.ends_step ht
  have heq : s.setConnection n r r' = { s with
      connection := Function.update s.connection n (some r')
      log := s.log ++ new.map fun errMsg => (n, .disconnected errMsg)
      fault := s.fault || (s.destroyed && !new.isEmpty) } := by
    rw [setConnection, ← hnew, List.drop_left, foldl_call]
  rw [heq]
  have hothers : ∀ m, m ≠ n → Life { s with
      connection := Function.update s.connection n (some r')
      log := s.log ++ new.map fun errMsg => (n, .disconnected errMsg)
      fault := s.fault || (s.destroyed && !new.isEmpty) } m := fun m hm =>
    (hs.life m).of_same Iff.rfl Iff.rfl (answers_ends_of_ne hm rfl) (Function.update_of_ne hm ..)
      Iff.rfl fun hd => ⟨hd, rfl⟩
  have hreported : s.Reported n r → Reported { s with
      connection := Function.update s.connection n (some r')
      log := s.log ++ new.map fun errMsg => (n, .disconnected errMsg)
      fault := s.fault || (s.destroyed && !new.isEmpty) } n r' := fun hrep => by
    refine ⟨hrep.1.step ha ht, ?_⟩
    rw [answers_ends (s := s) rfl, hrep.2, ← hnew, List.map_append, List.cons_append]
  have hself := Function.update_self (β := fun _ => Option TcpRun) n (some r') s.connection
  refine ⟨hs.stage.of_same rfl rfl rfl rfl rfl rfl, hs.nodup, fun m => ?_, hs.handlers,
    hs.connector, hs.gone, ?_⟩
  · rcases eq_or_ne m n with rfl | hm
    · cases hs.life m with
      | unborn _ _ _ hnone | underWay _ _ _ hnone | gone _ _ _ hnone => cases hnone.symm.trans hr
      | connected hlt hcur hr' hrep =>
        cases hr'.symm.trans hr
        exact .connected hlt hcur hself (hreported hrep)
      | ended hlt hover hu hcur hall =>
        obtain ⟨hrep, hone⟩ := hall r hr
        have hrep' := hreported hrep
        have hone' : r'.ends.length = 1 ∧ Over _ m := hrep'.cases.resolve_left fun h => by
          have hle := (TcpRun.ends_step ht).length_le
          rw [h.1, hone] at hle
          exact absurd hle (by decide)
        refine .ended hlt hone'.2 hu hcur fun r'' hr'' => ?_
        cases hself.symm.trans hr''
        exact ⟨hrep', hone'.1⟩
    · exact hothers m hm
  · show (s.fault || (s.destroyed && !new.isEmpty)) = false
    rw [hs.fault, Bool.false_or]
    cases hd : s.destroyed with
    | false => rfl
    | true =>
      -- a connection that is left has had its end
      obtain ⟨hrep, hone⟩ : s.Reported n r ∧ r.ends.length = 1 := by
        cases hs.life n with
        | unborn _ _ _ hnone | underWay _ _ _ hnone | gone _ _ _ hnone => cases hnone.symm.trans hr
        | connected _ hcur => cases (hs.gone hd).2.2.2.1.symm.trans hcur
        | ended _ _ _ _ hall => exact hall r hr
      have hle : r'.ends.length ≤ 1 := by
        rcases (hreported hrep).cases with h | h
        · rw [h.1]
          exact Nat.zero_le 1
        · exact Nat.le_of_eq h.1
      rw [← hnew, List.length_append, hone] at hle
      have hnil : new = [] := List.eq_nil_of_length_eq_zero (by omega)
      rw [hnil]
      rfl

/-! ## The destructor -/

theorem destroy_eq (held : Bool) : s.destroy held = { s with
    current := none
    connection := s.kept held
    destroyed := true
    asyncer := .done
    connector := none
    fault := s.fault || s.asyncer.isWaiting } := by
  rw [destroy, letGo_eq]

theorem Inv.destroy (hs : s.Inv) (hlive : s.destroyed = false) {held : Bool}
    (hq : s.Reuses (.destroy held)) : (s.destroy held).Inv := by
  obtain ⟨hasyncer, hdelivering, hframes, hconn⟩ := hq
  rw [destroy_eq]
  have hnone : ∀ m, ¬ UnderWay { s with
      current := none
      connection := s.kept held
      destroyed := true
      asyncer := .done
      connector := none
      fault := s.fault || s.asyncer.isWaiting } m := fun m => by
    simp [UnderWay, hframes, hdelivering, ClientUse.connecting]
  refine ⟨.idle rfl hdelivering rfl rfl hframes, hs.nodup, fun m => ?_, hs.handlers,
    fun _ hd => ?_, fun _ => ⟨rfl, hframes, hdelivering, rfl, rfl⟩, ?_⟩
  · have hkept := s.kept_cases held m
    cases hs.life m with
    | unborn hle _ hnil hn =>
      exact .unborn hle (hnone m) hnil (hkept.elim (fun h => h.trans hn) And.right)
    | underWay _ hu hnil hn =>
      refine .gone rfl ?_ (.inl hnil) (hkept.elim (fun h => h.trans hn) And.right)
      refine (hs.stage.underWay hu).resolve_left fun h => ?_
      rw [hframes] at h
      cases h
    | connected hlt hcur hr hrep =>
      rcases hrep.cases with ⟨hzero, hopened⟩ | ⟨hone, hover⟩
      · have hgone : s.kept held m = none := by
          refine if_pos ⟨hcur, ?_⟩
          rcases hconn with hclosed | hconn
          · simp only [closed, hcur, Option.all_some, hr, beq_iff_eq] at hclosed
            cases hzero.symm.trans hclosed
          · exact hconn m hcur
        exact .gone rfl (hs.stage.current hcur) (.inr hopened) hgone
      · refine .ended hlt hover (hnone m) nofun fun r' hr' => ?_
        rcases hkept with hkept | ⟨-, hkept⟩
        · cases (hkept.trans hr).symm.trans hr'
          exact ⟨hrep, hone⟩
        · cases hkept.symm.trans hr'
    | ended hlt hover _ hcur hall =>
      refine .ended hlt hover (hnone m) nofun fun r' hr' => hall r' ?_
      exact (hkept.resolve_right fun h => hcur h.1).symm.trans hr'
    | gone hd => cases hlive.symm.trans hd
  · cases hd
  · show (s.fault || s.asyncer.isWaiting) = false
    rw [hs.fault, hasyncer]
    rfl

/-! ## Runs -/

theorem Inv.step {a : ReuseAction} (hs : s.Inv) (ha : s.Reuses a) (ht : s.step a = some t) :
    t.Inv := by
  cases a with
  | setConnectedHandler =>
    obtain ⟨-, ht⟩ := Option.ite_none_left_eq_some.mp ht
    cases ht
    exact hs.set true s.disconnectedHandler (fun _ => rfl) id
  | setDisconnectedHandler =>
    obtain ⟨-, ht⟩ := Option.ite_none_left_eq_some.mp ht
    cases ht
    exact hs.set s.connectedHandler true id fun _ => rfl
  | asyncConnect held =>
    obtain ⟨hlive, ht⟩ := Option.ite_none_left_eq_some.mp ht
    cases ht
    exact hs.asyncConnect (Bool.eq_false_of_not_eq_true hlive) held ha
  | returned => exact hs.returned ht
  | deliver =>
    simp only [ClientUse.step] at ht
    split at ht
    next n h _ =>
      cases ht
      exact hs.deliver h
    · cases ht
  | run calls =>
    obtain ⟨hframes, ht⟩ := Option.ite_none_right_eq_some.mp ht
    obtain ⟨n, hn, rfl⟩ := Option.map_eq_some_iff.mp ht
    exact hs.run hn (List.isEmpty_iff.mp hframes) calls
  | writable error held =>
    obtain ⟨hconnecting, ht⟩ := Option.ite_none_right_eq_some.mp ht
    cases ht
    exact hs.writable hconnecting error held
  | connection n a =>
    obtain ⟨r, hr, ht⟩ := Option.bind_eq_some_iff.mp ht
    obtain ⟨r', hr', rfl⟩ := Option.map_eq_some_iff.mp ht
    refine hs.connection hr (fun h => ?_) hr'
    subst h
    exact ha r hr
  | destroy held =>
    obtain ⟨hlive, ht⟩ := Option.ite_none_left_eq_some.mp ht
    cases ht
    exact hs.destroy (Bool.eq_false_of_not_eq_true hlive) ha

/-- An attempt that is in the way of the next one: it is between the loop and its answer, or has an
open connection. -/
theorem Inv.in_the_way (hs : s.Inv) (hlive : s.destroyed = false) {held : Bool}
    (hq : ¬ s.Reuses (.asyncConnect held)) : ∃ n, n + 1 = s.attempts ∧ .canceled n ∉ s.frames ∧
      s.asyncer = .done ∧ ¬ s.Over n := by
  have hquiet : s.delivering = none → s.connecting = false → s.closed = false := fun hd hc =>
    Bool.eq_false_of_not_eq_true fun h => hq ⟨hd, hc, h⟩
  have hover : ∀ {n}, s.UnderWay n → ¬ s.Over n := fun hu h =>
    h.ne_nil (hs.underWay hlive hu).2.1
  cases hs.stage with
  | unused _ hd hc hcur | waiting _ hd hc hcur | idle _ hd hc hcur =>
    have h := hquiet hd hc
    rw [closed, hcur] at h
    cases h
  | @delivering n ha hd hc hcur hf hnew =>
    exact ⟨n, hnew, hf, ha, hover (.inr (.inr (.inl hd)))⟩
  | connecting ha hd hc hcur hf hpos =>
    have hnew : s.newest + 1 = s.attempts := Nat.succ_pred_eq_of_pos hpos
    exact ⟨s.newest, hnew, by rw [hf]; exact List.not_mem_nil, ha,
      hover (.inr (.inr (.inr ⟨hc, hnew⟩)))⟩
  | @connected n ha hd hc hcur hf hnew =>
    refine ⟨n, hnew, by rw [hf]; exact List.not_mem_nil, ha, fun h => ?_⟩
    have hclosed := hquiet hd hc
    cases hs.life n with
    | unborn hle => exact absurd (hnew ▸ Nat.lt_succ_self n) (Nat.not_lt_of_le hle)
    | underWay _ hu => exact hs.stage.not_underWay hcur hu
    | ended _ _ _ hne => exact hne hcur
    | gone hd => cases hlive.symm.trans hd
    | connected _ _ hr hrep =>
      rcases hrep.cases with ⟨-, hopened⟩ | ⟨hone, -⟩
      · exact h.not_opened hopened
      · simp [closed, hcur, hr, hone] at hclosed

/-- A new attempt forgets it. -/
theorem Inv.asyncConnect_breaks (hs : s.Inv) (hlive : s.destroyed = false) {held : Bool}
    (hq : ¬ s.Reuses (.asyncConnect held)) : ¬ (s.asyncConnect held).ReuseLaw := by
  obtain ⟨n, hnew, hframe, ha, hover⟩ := hs.in_the_way hlive hq
  have hset := hs.handlers (hnew ▸ Nat.succ_pos n)
  intro hlaw
  rw [asyncConnect_of_ne held hset fun old h => by cases ha.symm.trans h] at hlaw
  have hlt : n + 1 < s.attempts + 1 := Nat.lt_succ_of_le (Nat.le_of_eq hnew)
  exact hover (hlaw.earlier n hlt hframe)

/-- `Reset` of a finished connection: `Finish` can run once more. -/
theorem Inv.reset_breaks {r r' : TcpRun} (hs : s.Inv) (hr : s.connection n = some r)
    (hfinished : r.conn.finished = true) (ht : r.step .reset = some r') :
    ¬ (s.setConnection n r r').ReuseLaw := by
  intro hlaw
  have honce : r.FinishesOnce := by
    cases hs.life n with
    | unborn _ _ _ hnone | underWay _ _ _ hnone | gone _ _ _ hnone => cases hnone.symm.trans hr
    | connected _ _ hr' hrep =>
      cases hr'.symm.trans hr
      exact hrep.1
    | ended _ _ _ _ hall => exact (hall r hr).1.1
  cases ht
  have hsame : (s.setConnection n r { r with conn := r.conn.reset }).connection n =
      some { r with conn := r.conn.reset } := by
    rw [setConnection, foldl_call]
    exact Function.update_self ..
  have hzero : r.finishing + r.ends.length = 0 := hlaw.finish n _ hsame
  rw [honce, hfinished] at hzero
  cases hzero

/-- The destructor leaves something behind that calls the client. -/
theorem Inv.destroy_breaks (hs : s.Inv) (hlive : s.destroyed = false) {held : Bool}
    (hq : ¬ s.Reuses (.destroy held)) : ¬ (s.destroy held).ReuseLaw := by
  intro hlaw
  rw [destroy_eq] at hlaw
  obtain ⟨hframes, hdelivering, hended⟩ := hlaw.gone rfl
  refine hq ⟨(Bool.or_eq_false_iff.mp hlaw.fault).2, hdelivering, hframes, ?_⟩
  · by_contra hnot
    obtain ⟨hclosed, howner⟩ := not_or.mp hnot
    obtain ⟨n, hn⟩ := not_forall.mp howner
    obtain ⟨hcur, howner⟩ := Classical.not_imp.mp hn
    have hcur : s.current = some n := hcur
    cases hs.life n with
    | unborn hle =>
      exact absurd ((hs.stage.current hcur) ▸ Nat.lt_succ_self n) (Nat.not_lt_of_le hle)
    | underWay _ hu => exact hs.stage.not_underWay hcur hu
    | ended _ _ _ hne => exact hne hcur
    | gone hd => cases hlive.symm.trans hd
    | connected _ _ hr _ =>
      have hone := hended n _ ((if_neg fun h => howner h.2).trans hr)
      simp [closed, hcur, hr, hone] at hclosed

theorem Inv.leaves {a : ReuseAction} (hs : s.Inv) (ha : ¬ s.Reuses a) (ht : s.step a = some t) :
    ¬ t.ReuseLaw := by
  cases a with
  | setConnectedHandler | setDisconnectedHandler | returned | deliver | run | writable =>
    exact absurd True.intro ha
  | asyncConnect held =>
    obtain ⟨hlive, ht⟩ := Option.ite_none_left_eq_some.mp ht
    cases ht
    exact hs.asyncConnect_breaks (Bool.eq_false_of_not_eq_true hlive) ha
  | connection n a =>
    obtain ⟨r, hr, ht⟩ := Option.bind_eq_some_iff.mp ht
    obtain ⟨r', hr', rfl⟩ := Option.map_eq_some_iff.mp ht
    cases a with
    | reset =>
      refine hs.reset_breaks hr (Bool.eq_true_of_not_eq_false fun h => ha ?_) hr'
      rintro _ hr''
      cases hr.symm.trans hr''
      exact h
    | _ => exact absurd True.intro ha
  | destroy held =>
    obtain ⟨hlive, ht⟩ := Option.ite_none_left_eq_some.mp ht
    cases ht
    exact hs.destroy_breaks (Bool.eq_false_of_not_eq_true hlive) ha

/-- A client that is used again and again: every attempt is answered once, and none is forgotten,
if and only if each begins when no attempt is between the loop and its answer and no connection is
open, no finished connection is reset, and the client goes when nothing is left that calls it. -/
theorem reuseLaw_iff (addr : String) (port : Int) (as : List ReuseAction)
    (hrun : ((system addr port).run (new addr port) as).isSome) :
    (system addr port).AllStates ReuseLaw (new addr port) as ↔
      (system addr port).AllSteps Reuses (new addr port) as :=
  System.allStates_iff_of_invariant (inv_new addr port) (fun _ hs => hs.law)
    (fun _ _ _ hs ha ht => hs.step ha ht) (fun _ _ _ hs ha ht => hs.leaves ha ht) hrun

/-- A connection that ends, and three attempts that follow it, the second from the handler that
hears of the first. -/
def reconnects : List ReuseAction :=
  [.setConnectedHandler, .setDisconnectedHandler, .asyncConnect false, .deliver,
    .run ⟨none, none, .inProgress⟩, .writable none false, .connection 0 (.readable (.bytes [])),
    .connection 0 .resume, .asyncConnect false, .asyncConnect false, .asyncConnect false,
    .returned, .returned, .deliver, .run ⟨none, none, .error "Network is unreachable"⟩,
    .destroy false]

theorem reuseLaw_reconnects :
    (system "127.0.0.1" 8080).AllStates ReuseLaw (new "127.0.0.1" 8080) reconnects :=
  (reuseLaw_iff "127.0.0.1" 8080 reconnects (by decide)).mpr (by decide)

/-- An open connection that is replaced has no end. -/
example : ¬ (system "127.0.0.1" 8080).AllSteps Reuses (new "127.0.0.1" 8080)
    [.setConnectedHandler, .setDisconnectedHandler, .asyncConnect false, .deliver,
      .run ⟨none, none, .connected⟩, .writable none false, .asyncConnect false] := by decide

/-! ## A handler that connects again -/

/-- Each handler inside `AsyncConnect` calls it before it returns, and the loop, on whose thread it
all runs, begins no asyncer meanwhile. -/
def Reconnects (s : ClientUse) : ReuseAction → Prop
  | .returned => s.asked = true
  | .deliver | .destroy _ => False
  | _ => True

instance Reconnects.decidable (s : ClientUse) : ∀ a, Decidable (s.Reconnects a)
  | .returned => inferInstanceAs (Decidable (s.asked = true))
  | .deliver | .destroy _ => isFalse id
  | .setConnectedHandler | .setDisconnectedHandler | .asyncConnect _ | .run _ | .writable ..
  | .connection .. => isTrue True.intro

/-- The call of `AsyncConnect` that began with `attempts` attempts has not returned. Each handler
inside it takes two attempts, and the innermost one may have the second still to come. -/
inductive Depth (attempts : Nat) (s : ClientUse) : Prop
  | reuse {frames : List ConnectFrame} : s.frames = .reuse :: frames → s.asked = false →
      s.asyncer.isWaiting = true → s.attempts = attempts + 2 * s.frames.length → Depth attempts s
  | called {n : Nat} {frames : List ConnectFrame} : s.frames = .canceled n :: frames →
      s.asked = false → s.asyncer = .unused → s.attempts + 1 = attempts + 2 * s.frames.length →
      Depth attempts s
  | asked {n : Nat} {frames : List ConnectFrame} : s.frames = .canceled n :: frames →
      s.asked = true → s.asyncer.isWaiting = true →
      s.attempts = attempts + 2 * s.frames.length → Depth attempts s

structure Deep (attempts : Nat) (s : ClientUse) : Prop where
  live : s.destroyed = false
  handlers : s.connectedHandler = true ∧ s.disconnectedHandler = true
  depth : s.Depth attempts

variable {attempts : Nat}

theorem Deep.frames_ne (h : s.Deep attempts) : s.frames ≠ [] := by
  cases h.depth with
  | reuse hf | called hf | asked hf =>
    rw [hf]
    exact List.cons_ne_nil _ _

theorem Deep.deep (h : s.Deep attempts) : s.attempts ≤ attempts + 2 * s.frames.length := by
  cases h.depth with
  | reuse _ _ _ hn | asked _ _ _ hn => exact Nat.le_of_eq hn
  | called _ _ _ hn => exact hn ▸ Nat.le_succ _

/-- A step that leaves the frames and the asyncer alone. -/
theorem Deep.of_same (h : s.Deep attempts) (hdestroyed : t.destroyed = s.destroyed)
    (hset : t.connectedHandler = true ∧ t.disconnectedHandler = true)
    (hframes : t.frames = s.frames) (hasked : t.asked = s.asked)
    (hasyncer : t.asyncer = s.asyncer) (hattempts : t.attempts = s.attempts) :
    t.Deep attempts := by
  refine ⟨hdestroyed.trans h.live, hset, ?_⟩
  cases h.depth with
  | reuse hf ha hw hn =>
    exact .reuse (hframes.trans hf) (hasked.trans ha) (hasyncer ▸ hw)
      (by rw [hattempts, hframes, hn])
  | called hf ha hw hn =>
    exact .called (hframes.trans hf) (hasked.trans ha) (hasyncer.trans hw)
      (by rw [hattempts, hframes, hn])
  | asked hf ha hw hn =>
    exact .asked (hframes.trans hf) (hasked.trans ha) (hasyncer ▸ hw)
      (by rw [hattempts, hframes, hn])

theorem isWaiting_iff {a : ClientAsyncer} : a.isWaiting = true ↔ ∃ n, a = .waiting n := by
  cases a with
  | waiting n => exact ⟨fun _ => ⟨n, rfl⟩, fun _ => rfl⟩
  | unused | done => exact ⟨nofun, fun ⟨_, h⟩ => by cases h⟩

/-- `AsyncConnect` with an asyncer that waits: one more handler runs. -/
theorem deep_cancels (held : Bool) (hlive : s.destroyed = false)
    (hset : s.connectedHandler = true ∧ s.disconnectedHandler = true)
    (hw : s.asyncer.isWaiting = true) (hn : s.attempts = attempts + 2 * s.frames.length) :
    (s.asyncConnect held).Deep attempts := by
  obtain ⟨old, hold⟩ := isWaiting_iff.mp hw
  rw [asyncConnect_waiting held hset hold]
  refine ⟨hlive, hset, .called rfl rfl rfl ?_⟩
  show s.attempts + 1 + 1 = attempts + 2 * (s.frames.length + 1)
  rw [hn]
  rfl

theorem Deep.asyncConnect (h : s.Deep attempts) (held : Bool) :
    (s.asyncConnect held).Deep attempts := by
  cases h.depth with
  | reuse _ _ hw hn | asked _ _ hw hn => exact deep_cancels held h.live h.handlers hw hn
  | called hf _ hw hn =>
    rw [asyncConnect_of_ne held h.handlers fun old hold => by cases hw.symm.trans hold]
    exact ⟨h.live, h.handlers, .asked hf rfl rfl hn⟩

/-- The handler that returns has called `AsyncConnect`, so its asyncer is used. -/
theorem Deep.returned (h : s.Deep attempts) (hasked : s.asked = true)
    (ht : s.returned = some t) : t.Deep attempts := by
  cases h.depth with
  | reuse _ ha | called _ ha => cases ha.symm.trans hasked
  | asked hf _ hw hn =>
    cases returned_cases (fun _ => h.live) ht with
    | reuse hf' => cases hf'.symm.trans hf
    | asyncDo _ ha =>
      rw [ha] at hw
      cases hw
    | canReuse hf' _ =>
      cases hf'.symm.trans hf
      refine ⟨h.live, h.handlers, .reuse rfl rfl hw ?_⟩
      rw [hn, hf]
      rfl

theorem Deep.writable (h : s.Deep attempts) (error : Option String) (held : Bool) :
    (s.writable error held).Deep attempts := by
  unfold ClientUse.writable
  split
  · exact h
  · split
    · exact h.of_same rfl h.handlers rfl rfl rfl rfl
    · simp only [letGo_eq]
      exact h.of_same rfl h.handlers rfl rfl rfl rfl

theorem Deep.step {a : ReuseAction} (h : s.Deep attempts) (ha : s.Reconnects a)
    (ht : s.step a = some t) : t.Deep attempts := by
  cases a with
  | setConnectedHandler =>
    obtain ⟨-, ht⟩ := Option.ite_none_left_eq_some.mp ht
    cases ht
    exact h.of_same rfl ⟨rfl, h.handlers.2⟩ rfl rfl rfl rfl
  | setDisconnectedHandler =>
    obtain ⟨-, ht⟩ := Option.ite_none_left_eq_some.mp ht
    cases ht
    exact h.of_same rfl ⟨h.handlers.1, rfl⟩ rfl rfl rfl rfl
  | asyncConnect held =>
    obtain ⟨-, ht⟩ := Option.ite_none_left_eq_some.mp ht
    cases ht
    exact h.asyncConnect held
  | returned => exact h.returned ha ht
  | deliver | destroy => exact ha.elim
  | run calls =>
    obtain ⟨hframes, -⟩ := Option.ite_none_right_eq_some.mp ht
    exact absurd (List.isEmpty_iff.mp hframes) h.frames_ne
  | writable error held =>
    obtain ⟨-, ht⟩ := Option.ite_none_right_eq_some.mp ht
    cases ht
    exact h.writable error held
  | connection n a =>
    obtain ⟨r, -, ht⟩ := Option.bind_eq_some_iff.mp ht
    obtain ⟨r', -, rfl⟩ := Option.map_eq_some_iff.mp ht
    rw [setConnection, foldl_call]
    exact h.of_same rfl h.handlers rfl rfl rfl rfl

/-- `AsyncConnect` is called while an asyncer waits for the loop, by a user who connects again from
every handler: it has not returned after any number of steps, and every second attempt has put
one more handler on the stack. -/
theorem reconnecting_never_returns (s : ClientUse) (held : Bool) (as : List ReuseAction)
    (hlive : s.destroyed = false)
    (hset : s.connectedHandler = true ∧ s.disconnectedHandler = true)
    (hasyncer : s.asyncer.isWaiting = true) (hframes : s.frames = [])
    (hsteps : (system s.addr s.port).AllSteps Reconnects (s.asyncConnect held) as) :
    (system s.addr s.port).AllStates
      (fun t => t.frames ≠ [] ∧ t.attempts ≤ s.attempts + 2 * t.frames.length)
      (s.asyncConnect held) as := by
  have hdeep : (s.asyncConnect held).Deep s.attempts :=
    deep_cancels held hlive hset hasyncer (by rw [hframes]; rfl)
  have hall := hsteps.allStates hdeep fun _ _ _ h ha ht => h.step ha ht
  exact hall.imp fun t h => ⟨h.frames_ne, h.deep⟩

/-- The handlers are set, and an attempt waits for the loop. -/
def waits : ClientUse :=
  { new "127.0.0.1" 8080 with
    connectedHandler := true
    disconnectedHandler := true
    connectCalled := true
    connector := some .new
    asyncer := .waiting 0
    attempts := 1 }

theorem reconnecting_never_returns_waits :
    (system "127.0.0.1" 8080).AllStates
      (fun t => t.frames ≠ [] ∧ t.attempts ≤ 1 + 2 * t.frames.length) (waits.asyncConnect false)
      [.asyncConnect false, .returned, .asyncConnect false, .asyncConnect false, .returned] :=
  reconnecting_never_returns waits false _ rfl ⟨rfl, rfl⟩ rfl rfl (by decide)

end ClientUse

end Sheep
