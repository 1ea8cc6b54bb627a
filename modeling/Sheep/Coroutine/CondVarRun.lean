import Sheep.Lib.System
import Sheep.Coroutine.Waiter

/-!
# Runs of a condition variable of coroutines

`cv` is one `ConditionVariable` and any number of coroutines on any number of schedulers. A wait
call pushes its waiter and blocks; a deadline passes; a scheduler switches to a coroutine it was
told to resume; the coroutine takes the lock again and its call returns; somebody notifies. Waits
and notifications are critical sections of the user's lock, so they are single steps.

`NotifyLaw` is the contract of a notification: it goes to the wait calls that have not returned
and were not notified, the longest-waiting one first. `notifyLaw_iff`: a run meets it at every
step exactly when every notification finds no entry of a returned call where it looks. A wait
whose time is over leaves its entry in the queue, because `isCanceled` is set on the coroutine's
own copy of the waiter.
-/

namespace Sheep

/-- A wait call that has not returned. -/
structure WaitCall where
  coro : Coro
  /-- the local object of the call -/
  waiter : CoroutineWaiter
  milliseconds : Int
  /-- ghost: the call was notified -/
  notified : Bool
  /-- the scheduler has switched to the coroutine, which now takes the lock -/
  woken : Bool
  deriving DecidableEq, Repr

structure CvRun where
  coCv : CoConditionVariable
  /-- the wait calls that have not returned, the longest-waiting one first -/
  waits : List WaitCall
  /-- ghost: the local waiters of the wait calls that have returned -/
  returned : List CoroutineWaiter
  /-- ghost: the number of wait calls so far -/
  calls : Nat
  /-- the entries of the schedulers' `resumeQueue_` and `sleepQueue_` -/
  resumeQueue : List Coro
  sleepQueue : List Coro
  deriving DecidableEq, Repr

inductive CvAction
  | wait (c : Coro) (milliseconds : Int)
  /-- `wakeUpSleep` takes an entry of `c` -/
  | expire (c : Coro)
  | switchTo (c : Coro)
  /-- the wait call with this number takes the lock and returns -/
  | relock (call : Nat)
  | notifyOne
  | notifyAll
  deriving DecidableEq, Repr

namespace CvRun

def init : CvRun := ⟨⟨[]⟩, [], [], 0, [], []⟩

/-- The wait calls that block their coroutine and were not notified. -/
def openWaits (s : CvRun) : List WaitCall := s.waits.filter (!·.notified)

/-- The call that built the waiter has returned. -/
def hasReturned (s : CvRun) (w : CoroutineWaiter) : Bool := s.returned.any (·.call = w.call)

/-- The state after a notification with the result `r`. -/
def notify (s : CvRun) (r : NotifyResult) : CvRun :=
  { s with
    coCv := ⟨r.waiters⟩
    waits := s.waits.map fun w =>
      if r.takes w.waiter.call then { w with notified := true } else w
    resumeQueue := s.resumeQueue ++ r.resumed }

def step (s : CvRun) : CvAction → Option CvRun
  | .wait c milliseconds =>
    -- a coroutine that is inside a wait call makes no other call
    if s.waits.any (·.coro = c) then none
    else
      let waiter : CoroutineWaiter := ⟨some c.sched, c.info, false, s.calls⟩
      match s.coCv.wait waiter milliseconds with
      | (_, .error _) => none
      | (coCv, .ok blocking) => some { s with
          coCv := coCv
          waits := s.waits ++ [⟨c, waiter, milliseconds, false, false⟩]
          calls := s.calls + 1
          sleepQueue := if blocking = .suspend then s.sleepQueue else s.sleepQueue ++ [c] }
  | .expire c =>
    if c ∈ s.sleepQueue then
      some { s with sleepQueue := s.sleepQueue.erase c, resumeQueue := s.resumeQueue ++ [c] }
    else none
  | .switchTo c =>
    -- while a woken coroutine waits for the lock, its thread runs nothing else
    if c ∈ s.resumeQueue ∧ ∀ w ∈ s.waits, w.woken → w.coro.sched ≠ c.sched then
      some { s with
        resumeQueue := s.resumeQueue.erase c
        waits := s.waits.map fun w => if w.coro = c then { w with woken := true } else w }
    else none
  | .relock call =>
    match s.waits.find? fun w => w.woken ∧ w.waiter.call = call with
    | none => none
    | some w => some { s with
        waits := s.waits.filter (·.waiter.call ≠ call)
        returned := w.waiter.cancel :: s.returned }
  | .notifyOne => some (s.notify (ConditionVariable.notifyOne s.coCv).1)
  | .notifyAll => some (s.notify s.coCv.notifyAll)

end CvRun

def cv : System CvRun CvAction := ⟨.init, CvRun.step⟩

/-! ## The contract of a notification -/

/-- A notification with the result `r` goes to the wait calls `ws`, each through its own entry. -/
structure GoesTo (r : NotifyResult) (ws : List WaitCall) : Prop where
  resumed : r.resumed = ws.map (·.coro)
  calls : r.taken.map (·.call) = ws.map (·.waiter.call)
  count : r.notifyCount = ws.length

/-- `notify_one` goes to the longest-waiting call that has not returned and was not notified,
`notify_all` to all of them, and `ConditionVariable::notify_one` turns to the threads when no
coroutine is left. -/
def NotifyLaw (s : CvRun) : CvAction → Prop
  | .notifyOne =>
    GoesTo s.coCv.notifyOne (s.openWaits.take 1) ∧
      (ConditionVariable.notifyOne s.coCv).2 = s.openWaits.isEmpty
  | .notifyAll => GoesTo s.coCv.notifyAll s.openWaits
  | _ => True

/-- The entries a notification takes out of the queue are not of calls that have returned. -/
def FindsNoReturned (s : CvRun) : CvAction → Prop
  | .notifyOne => ∀ w ∈ s.coCv.waiters.head?, s.hasReturned w = false
  | .notifyAll => ∀ w ∈ s.coCv.waiters, s.hasReturned w = false
  | _ => True

/-! ## The queue and the wait calls -/

/-- Apart from the entries of returned calls, the queue holds the local waiters of the open wait
calls, in the same order. -/
structure CvInv (s : CvRun) : Prop where
  live : s.coCv.waiters.filter (!s.hasReturned ·) = s.openWaits.map (·.waiter)
  fresh : ∀ w ∈ s.waits, w.waiter.call < s.calls
  returned_fresh : ∀ w ∈ s.returned, w.call < s.calls
  nodup : (s.waits.map (·.waiter.call)).Nodup
  coro : ∀ w ∈ s.waits, w.waiter.wakeup = some w.coro
  not_canceled : ∀ w ∈ s.coCv.waiters, w.isCanceled = false

theorem CvInv.init : CvInv .init := by
  constructor <;> simp [CvRun.init, CvRun.openWaits]

/-- A call number that is not used yet is not the number of a returned call. -/
theorem CvInv.hasReturned_new {s : CvRun} (h : CvInv s) {w : CoroutineWaiter}
    (hw : w.call = s.calls) : s.hasReturned w = false := by
  simp only [CvRun.hasReturned, List.any_eq_false, decide_eq_true_eq]
  intro v hv hvw
  have := h.returned_fresh v hv
  omega

theorem CvInv.wait {s t : CvRun} {c : Coro} {milliseconds : Int} (h : CvInv s)
    (hs : s.step (.wait c milliseconds) = some t) : CvInv t := by
  simp only [CvRun.step, CoConditionVariable.wait, CoroutineWaiter.wait] at hs
  split at hs
  · cases hs
  · obtain rfl := Option.some.inj hs
    have hnew := h.hasReturned_new (w := ⟨some c.sched, c.info, false, s.calls⟩) rfl
    have hlive := h.live
    simp only [CvRun.hasReturned, CvRun.openWaits] at hnew hlive
    refine ⟨?_, ?_, ?_, ?_, ?_, ?_⟩
    · simp only [CvRun.hasReturned, CvRun.openWaits, List.filter_append, List.map_append, hlive]
      simp [hnew]
    · intro w hw
      rcases List.mem_append.mp hw with hw | hw
      · exact Nat.lt_succ_of_lt (h.fresh w hw)
      · simp only [List.mem_singleton] at hw
        simp [hw]
    · exact fun w hw => Nat.lt_succ_of_lt (h.returned_fresh w hw)
    · simp only [List.map_append, List.map_cons, List.map_nil]
      refine List.nodup_append.mpr ⟨h.nodup, by simp, ?_⟩
      rintro a ha b hb rfl
      simp only [List.mem_singleton] at hb
      obtain ⟨w, hw, hwa⟩ := List.mem_map.mp ha
      have := h.fresh w hw
      omega
    · intro w hw
      rcases List.mem_append.mp hw with hw | hw
      · exact h.coro w hw
      · simp only [List.mem_singleton] at hw
        simp [hw, CoroutineWaiter.wakeup]
    · intro w hw
      rcases List.mem_append.mp hw with hw | hw
      · exact h.not_canceled w hw
      · simp only [List.mem_singleton] at hw
        simp [hw]

/-- A step that changes the wait calls one by one, and neither their waiters nor which of them
are notified. -/
theorem CvInv.mapWaits {s t : CvRun} {f : WaitCall → WaitCall} (h : CvInv s)
    (hcv : t.coCv = s.coCv) (hret : t.returned = s.returned) (hcalls : t.calls = s.calls)
    (hwaits : t.waits = s.waits.map f)
    (hf : ∀ w, (f w).coro = w.coro ∧ (f w).waiter = w.waiter ∧ (f w).notified = w.notified) :
    CvInv t := by
  have hopen : t.openWaits.map (·.waiter) = s.openWaits.map (·.waiter) := by
    simp only [CvRun.openWaits, hwaits, List.filter_map, List.map_map]
    simp only [Function.comp_def, hf]
  refine ⟨?_, ?_, ?_, ?_, ?_, ?_⟩
  · simpa only [CvRun.hasReturned, hcv, hret, hopen] using h.live
  · intro w hw
    obtain ⟨v, hv, rfl⟩ := List.mem_map.mp (hwaits ▸ hw)
    simpa only [hf, hcalls] using h.fresh v hv
  · simpa only [hret, hcalls] using h.returned_fresh
  · simpa only [hwaits, List.map_map, Function.comp_def, hf] using h.nodup
  · intro w hw
    obtain ⟨v, hv, rfl⟩ := List.mem_map.mp (hwaits ▸ hw)
    simpa only [hf] using h.coro v hv
  · simpa only [hcv] using h.not_canceled

theorem CvInv.relock {s t : CvRun} {call : Nat} (h : CvInv s)
    (hs : s.step (.relock call) = some t) : CvInv t := by
  simp only [CvRun.step] at hs
  split at hs
  · cases hs
  · rename_i w hfind
    obtain rfl := Option.some.inj hs
    have hw : w ∈ s.waits := List.mem_of_find?_eq_some hfind
    have hcall : w.waiter.call = call := by
      have := List.find?_some hfind
      simp only [Bool.decide_and, Bool.decide_eq_true, Bool.and_eq_true, decide_eq_true_eq] at this
      exact this.2
    refine ⟨?_, ?_, ?_, ?_, ?_, ?_⟩
    · have hlive := congrArg (List.filter (·.call ≠ call)) h.live
      simp only [List.filter_filter, List.filter_map, CvRun.openWaits, Function.comp_def]
        at hlive
      simp only [CvRun.hasReturned, CvRun.openWaits, List.filter_filter, List.any_cons,
        CoroutineWaiter.cancel, hcall]
      convert hlive using 2
      · funext v
        rw [Bool.eq_iff_iff]
        simp [CvRun.hasReturned]
        tauto
      · congr 1
        funext v
        rw [Bool.and_comm]
    · exact fun v hv => h.fresh v (List.mem_of_mem_filter hv)
    · intro v hv
      rcases List.mem_cons.mp hv with rfl | hv
      · exact h.fresh w hw
      · exact h.returned_fresh v hv
    · exact h.nodup.sublist (List.filter_sublist.map _)
    · exact fun v hv => h.coro v (List.mem_of_mem_filter hv)
    · exact h.not_canceled

/-! ## Notifications -/

theorem take_filter {α : Type} {p : α → Bool} {k : Nat} {l : List α}
    (h : ∀ a ∈ l.take k, p a) : (l.filter p).take k = l.take k := by
  induction l generalizing k with
  | nil => rfl
  | cons a l ih =>
    cases k with
    | zero => rfl
    | succ k =>
      have ha : p a := h a (by simp)
      have ih' := ih (k := k) fun b hb => h b (by simp [hb])
      simp [ha, ih']

theorem drop_filter {α : Type} {p : α → Bool} {k : Nat} {l : List α}
    (h : ∀ a ∈ l.take k, p a) : (l.filter p).drop k = (l.drop k).filter p := by
  induction l generalizing k with
  | nil => simp
  | cons a l ih =>
    cases k with
    | zero => rfl
    | succ k =>
      have ha : p a := h a (by simp)
      have ih' := ih (k := k) fun b hb => h b (by simp [hb])
      simp [ha, ih']

theorem filter_not_taken {α β : Type} [DecidableEq β] {f : α → β} {l : List α} {k : Nat}
    (h : (l.map f).Nodup) :
    l.filter (fun a => !(l.take k).any (f · = f a)) = l.drop k := by
  have hdisj : ∀ a ∈ l.take k, ∀ b ∈ l.drop k, f a ≠ f b := by
    rw [← List.take_append_drop k l, List.map_append, List.nodup_append] at h
    exact fun a ha b hb => h.2.2 _ (List.mem_map_of_mem ha) _ (List.mem_map_of_mem hb)
  conv => lhs; rhs; rw [← List.take_append_drop k l]
  rw [List.filter_append]
  have htake : (l.take k).filter (fun a => !(l.take k).any (f · = f a)) = [] := by
    simp only [List.filter_eq_nil_iff, Bool.not_eq_true', Bool.not_eq_false, List.any_eq_true,
      decide_eq_true_eq]
    exact fun a ha => ⟨a, ha, rfl⟩
  have hdrop : (l.drop k).filter (fun a => !(l.take k).any (f · = f a)) = l.drop k := by
    simp only [List.filter_eq_self, Bool.not_eq_true', List.any_eq_false, decide_eq_true_eq]
    exact fun b hb a ha => hdisj a ha b hb
  rw [htake, hdrop, List.nil_append]

theorem CvInv.nodup_openWaits {s : CvRun} (h : CvInv s) :
    (s.openWaits.map (·.waiter.call)).Nodup :=
  h.nodup.sublist (List.filter_sublist.map _)

/-- The first `k` entries of the queue are the waiters of the first `k` open wait calls, if none
of them is of a returned call. -/
theorem CvInv.take {s : CvRun} {k : Nat} (h : CvInv s)
    (hk : ∀ w ∈ s.coCv.waiters.take k, s.hasReturned w = false) :
    s.coCv.waiters.take k = (s.openWaits.take k).map (·.waiter) := by
  rw [List.map_take, ← h.live, take_filter fun w hw => by simp [hk w hw]]

/-- The notified calls are no longer open. -/
theorem openWaits_notify (s : CvRun) (r : NotifyResult) :
    (s.notify r).openWaits =
      s.openWaits.filter fun w => !r.takes w.waiter.call := by
  simp only [CvRun.openWaits, CvRun.notify]
  induction s.waits with
  | nil => rfl
  | cons w ws ih =>
    cases htaken : r.takes w.waiter.call <;> cases hw : w.notified <;> simp_all

/-- A notification that takes the first `k` entries, none of them of a returned call. -/
theorem CvInv.notify {s : CvRun} {k : Nat} {n : Nat} (h : CvInv s)
    (hk : ∀ w ∈ s.coCv.waiters.take k, s.hasReturned w = false) :
    CvInv (s.notify ⟨s.coCv.waiters.take k, s.coCv.waiters.drop k, n⟩) := by
  have hmap : ∀ v ∈ (s.notify ⟨s.coCv.waiters.take k, s.coCv.waiters.drop k, n⟩).waits,
      ∃ w ∈ s.waits, v.waiter = w.waiter ∧ v.coro = w.coro := by
    intro v hv
    obtain ⟨w, hw, rfl⟩ := List.mem_map.mp hv
    refine ⟨w, hw, ?_⟩
    split <;> exact ⟨rfl, rfl⟩
  have hopen : (s.notify ⟨s.coCv.waiters.take k, s.coCv.waiters.drop k, n⟩).openWaits =
      s.openWaits.drop k := by
    rw [openWaits_notify, h.take hk, ← filter_not_taken h.nodup_openWaits]
    simp only [NotifyResult.takes, List.any_map, Function.comp_def]
  refine ⟨?_, ?_, h.returned_fresh, ?_, ?_, ?_⟩
  · rw [hopen, List.map_drop, ← h.live, drop_filter fun w hw => by simp [hk w hw]]
    rfl
  · intro v hv
    obtain ⟨w, hw, hvw, -⟩ := hmap v hv
    exact hvw ▸ h.fresh w hw
  · have : (s.notify ⟨s.coCv.waiters.take k, s.coCv.waiters.drop k, n⟩).waits.map
        (·.waiter.call) = s.waits.map (·.waiter.call) := by
      simp only [CvRun.notify, List.map_map]
      refine List.map_congr_left fun w _ => ?_
      simp only [Function.comp_apply]
      split <;> rfl
    exact this ▸ h.nodup
  · intro v hv
    obtain ⟨w, hw, hvw, hcoro⟩ := hmap v hv
    exact hvw ▸ hcoro ▸ h.coro w hw
  · exact fun w hw => h.not_canceled w (List.mem_of_mem_drop hw)

theorem CvInv.goesTo {s : CvRun} {k : Nat} (h : CvInv s)
    (hk : ∀ w ∈ s.coCv.waiters.take k, s.hasReturned w = false) :
    GoesTo ⟨s.coCv.waiters.take k, s.coCv.waiters.drop k, (s.coCv.waiters.take k).length⟩
      (s.openWaits.take k) := by
  refine ⟨?_, ?_, ?_⟩
  · simp only [NotifyResult.resumed, h.take hk, List.filterMap_map]
    rw [← List.filterMap_eq_map]
    refine List.filterMap_congr fun w hw => ?_
    have hw' : w ∈ s.waits := List.mem_of_mem_filter (List.mem_of_mem_take hw)
    simp [h.coro w hw']
  · simp only [h.take hk, List.map_map, Function.comp_def]
  · simp [h.take hk]

/-- Whoever is notified by a notification that goes to open wait calls has not returned. -/
theorem CvInv.not_returned {s : CvRun} {r : NotifyResult} {ws : List WaitCall} (h : CvInv s)
    (hr : GoesTo r ws) (hws : ∀ w ∈ ws, w ∈ s.openWaits) :
    ∀ w ∈ r.taken, s.hasReturned w = false := by
  intro w hw
  have hcall : w.call ∈ ws.map (·.waiter.call) := hr.calls ▸ List.mem_map_of_mem hw
  obtain ⟨v, hv, hvw⟩ := List.mem_map.mp hcall
  have hlive : v.waiter ∈ s.coCv.waiters.filter (!s.hasReturned ·) :=
    h.live ▸ List.mem_map_of_mem (hws v hv)
  have := (List.mem_filter.mp hlive).2
  simpa [CvRun.hasReturned, hvw] using this

theorem CvInv.notifyOne_eq {s : CvRun} (h : CvInv s) :
    s.coCv.notifyOne =
      ⟨s.coCv.waiters.take 1, s.coCv.waiters.drop 1, (s.coCv.waiters.take 1).length⟩ :=
  notifyNolock_one h.not_canceled

theorem CvInv.notifyAll_eq {s : CvRun} (h : CvInv s) :
    s.coCv.notifyAll = ⟨s.coCv.waiters.take s.coCv.waiters.length,
      s.coCv.waiters.drop s.coCv.waiters.length,
      (s.coCv.waiters.take s.coCv.waiters.length).length⟩ := by
  rw [List.take_length, List.drop_length]
  exact notifyNolock_all h.not_canceled

/-- There are at least as many entries as open wait calls. -/
theorem CvInv.length_openWaits_le {s : CvRun} (h : CvInv s) :
    s.openWaits.length ≤ s.coCv.waiters.length := by
  rw [← List.length_map (·.waiter), ← h.live]
  exact List.length_filter_le ..

theorem mem_take_one {α : Type} {l : List α} {a : α} : a ∈ l.take 1 ↔ a ∈ l.head? := by
  cases l <;> simp [eq_comm]

/-! ## Every run -/

theorem CvInv.step {s t : CvRun} {a : CvAction} (h : CvInv s) (ha : FindsNoReturned s a)
    (hs : s.step a = some t) : CvInv t := by
  cases a with
  | wait c milliseconds => exact h.wait hs
  | relock call => exact h.relock hs
  | expire c =>
    simp only [CvRun.step, Option.ite_none_right_eq_some, Option.some.injEq] at hs
    obtain ⟨-, rfl⟩ := hs
    exact h.mapWaits rfl rfl rfl (List.map_id _).symm fun _ => ⟨rfl, rfl, rfl⟩
  | switchTo c =>
    simp only [CvRun.step, Option.ite_none_right_eq_some, Option.some.injEq] at hs
    obtain ⟨-, rfl⟩ := hs
    refine h.mapWaits rfl rfl rfl rfl fun w => ?_
    split <;> exact ⟨rfl, rfl, rfl⟩
  | notifyOne =>
    obtain rfl := Option.some.inj hs
    simp only [ConditionVariable.notifyOne, h.notifyOne_eq]
    exact h.notify fun w hw => ha w (mem_take_one.mp hw)
  | notifyAll =>
    obtain rfl := Option.some.inj hs
    rw [h.notifyAll_eq]
    exact h.notify fun w hw => ha w (List.mem_of_mem_take hw)

/-- In a state with the invariant the contract of a notification holds exactly when it finds no
entry of a returned call. -/
theorem CvInv.law_iff {s : CvRun} (h : CvInv s) (a : CvAction) :
    NotifyLaw s a ↔ FindsNoReturned s a := by
  cases a with
  | wait | expire | switchTo | relock => exact Iff.rfl
  | notifyOne =>
    constructor
    · rintro ⟨hgoes, -⟩ w hw
      refine h.not_returned hgoes (fun v hv => List.mem_of_mem_take hv) w ?_
      rw [h.notifyOne_eq]
      exact mem_take_one.mpr hw
    · intro ha
      have hgoes := h.goesTo (k := 1) fun w hw => ha w (mem_take_one.mp hw)
      rw [← h.notifyOne_eq] at hgoes
      refine ⟨hgoes, ?_⟩
      simp only [ConditionVariable.notifyOne, hgoes.count]
      cases s.openWaits <;> rfl
  | notifyAll =>
    constructor
    · intro hgoes w hw
      refine h.not_returned hgoes (fun v hv => hv) w ?_
      rw [h.notifyAll_eq, List.take_length]
      exact hw
    · intro ha
      have hgoes := h.goesTo (k := s.coCv.waiters.length) fun w hw =>
        ha w (List.mem_of_mem_take hw)
      rwa [← h.notifyAll_eq, List.take_of_length_le h.length_openWaits_le] at hgoes

/-- A run keeps the contract of notifications at every step exactly when none of its
notifications finds an entry of a returned call. -/
theorem notifyLaw_iff (as : List CvAction) :
    cv.AllSteps NotifyLaw cv.init as ↔ cv.AllSteps FindsNoReturned cv.init as :=
  System.allSteps_iff CvInv.init (fun _ _ _ h ha hs => h.step ha hs)
    fun _ a h => h.law_iff a

/-- Coroutine `0` waits 10 ms and its call returns; coroutine `1` waits for a notification.
`notify_one` then resumes coroutine `0`, which has left, and returns 1. -/
theorem notify_goes_to_returned_wait :
    ∃ s, cv.run cv.init [.wait ⟨0, 0⟩ 10, .wait ⟨0, 1⟩ (-1), .expire ⟨0, 0⟩, .switchTo ⟨0, 0⟩,
        .relock 0] = some s ∧
      s.openWaits.map (·.coro) = [⟨0, 1⟩] ∧ s.coCv.notifyOne.resumed = [⟨0, 0⟩] ∧
      s.coCv.notifyOne.notifyCount = 1 ∧ ¬ NotifyLaw s .notifyOne := by
  refine ⟨_, rfl, by decide, by decide, by decide, ?_⟩
  rintro ⟨hgoes, -⟩
  exact absurd hgoes.resumed (by decide)

end Sheep
