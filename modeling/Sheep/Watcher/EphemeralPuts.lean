import Sheep.Watcher.Ephemeral

/-!
# The PUTs of `Etcd::CreateEphemeral`

`PutLaw`: every PUT of the cycle is for the path and the value that `CreateEphemeral` was called
with. `putLaw_iff`: a run keeps the law if and only if none of the three branches is taken that call
`nextCreateEphemral(path, path)`: an error of the timer before a create, and an error of the request
in a create or a refresh. The error of the timer before a refresh passes the value.
-/

namespace Sheep

namespace Ephemeral

/-! ## The law -/

/-- The PUT is for the path and the value. -/
structure HttpPut.Right (path value : String) (put : HttpPut) : Prop where
  method : put.method = "PUT"
  target : put.target = "/v2/keys" ++ path
  body : ∃ rest, put.body = "value=" ++ value ++ "&" ++ rest

/-- The PUT of the armed timer, which it issues when it expires. -/
def nextPuts (s : Ephemeral) : List HttpPut := s.armed.map fun timer => timer.2.put

/-- Every PUT that was issued, and the one that comes next if a timer is armed, is for the path and
the value. -/
def PutLaw (path value : String) (s : Ephemeral) : Prop :=
  ∀ put ∈ s.puts ++ s.nextPuts, HttpPut.Right path value put

/-- The step takes a branch with `nextCreateEphemral(path, path)`. -/
def PassesPath (s : Ephemeral) : EphemeralAction → Prop
  | .create sync => ∃ errMsg ∈ sync, errMsg ≠ ""
  | .reply _ r => r.errMsg ≠ ""
  | .timer id timerError sync =>
    if timerError ≠ "" then ∀ c ∈ s.armed.lookup id, c.call = .createEphemeral
    else ∃ errMsg ∈ sync, errMsg ≠ ""

/-- The body of a create with `v` for the value begins as that with `value` has to. -/
def Begins (value v : String) : Prop := ∃ rest, v ++ "&ttl=12" = value ++ "&" ++ rest

/-- If the step passes the path for the value, the body of a create still begins as it has to: for
example, when the value is the path. -/
def KeepsValue (path value : String) (s : Ephemeral) (a : EphemeralAction) : Prop :=
  s.PassesPath a → Begins value path

theorem begins_self (value : String) : Begins value value :=
  ⟨"ttl=12", by rw [String.append_assoc]; rfl⟩

theorem right_create {path value v : String} :
    HttpPut.Right path value (EphemeralTask.put ⟨.createEphemeral, path, v⟩) ↔ Begins value v := by
  constructor
  · rintro ⟨-, -, rest, hbody⟩
    refine ⟨rest, ?_⟩
    simp only [EphemeralTask.put, String.append_assoc] at hbody
    rw [String.append_assoc]
    exact (String.append_right_inj "value=").mp hbody
  · rintro ⟨rest, hbody⟩
    refine ⟨rfl, rfl, rest, ?_⟩
    simp only [EphemeralTask.put]
    rw [String.append_assoc, hbody]
    simp only [String.append_assoc]

theorem right_refresh {path value v : String} (h : Begins value v) :
    HttpPut.Right path value (EphemeralTask.put ⟨.refresh, path, v⟩) := by
  obtain ⟨rest, hbody⟩ := h
  refine ⟨rfl, rfl, rest ++ "&refresh=true", ?_⟩
  show "value=" ++ v ++ ("&ttl=12" ++ "&refresh=true") = _
  rw [← String.append_assoc, @String.append_assoc "value=", hbody]
  simp only [String.append_assoc]

theorem right_put {path value : String} {c : EphemeralTask} (hpath : c.path = path)
    (hb : Begins value c.value) : HttpPut.Right path value c.put := by
  obtain ⟨call, p, v⟩ := c
  obtain rfl : p = path := hpath
  cases call with
  | createEphemeral => exact right_create.mpr hb
  | refresh => exact right_refresh hb

/-- What is pending is for the path, and before a refresh its create has been issued. -/
inductive Carries (path : String) (s : Ephemeral) : Prop
  | idle : s = new → Carries path s
  | request (id : Nat) (c : EphemeralTask) : s.inFlight = [(id, c)] → s.armed = [] → c.path = path →
      EphemeralTask.put ⟨.createEphemeral, path, c.value⟩ ∈ s.puts → Carries path s
  | timer (id : Nat) (c : EphemeralTask) : s.inFlight = [] → s.armed = [(id, c)] → c.path = path →
      (c.call = .refresh → EphemeralTask.put ⟨.createEphemeral, path, c.value⟩ ∈ s.puts) →
      Carries path s

theorem put_mem_withClient {s : Ephemeral} {path : String} {c : EphemeralTask}
    (hpath : c.path = path)
    (hmade : c.call = .refresh → EphemeralTask.put ⟨.createEphemeral, path, c.value⟩ ∈ s.puts) :
    EphemeralTask.put ⟨.createEphemeral, path, c.value⟩ ∈ (s.withClient c).puts := by
  obtain ⟨call, p, v⟩ := c
  obtain rfl : p = path := hpath
  cases call with
  | createEphemeral => exact List.mem_append_right _ (List.mem_singleton_self _)
  | refresh => exact List.mem_append_left _ (hmade rfl)

theorem Carries.reply {s : Ephemeral} {path : String} (hflight : s.inFlight = [])
    (harmed : s.armed = []) {c : EphemeralTask} (hpath : c.path = path)
    (hmade : EphemeralTask.put ⟨.createEphemeral, path, c.value⟩ ∈ s.puts) (id : Nat)
    (r : PutReply) : Carries path (s.onDone id c r) := by
  have hnext : Carries path (s.armTimer (nextTask c r)) := by
    refine .timer s.nextTimer (nextTask c r) hflight (congrArg _ harmed) ?_ ?_
    · unfold nextTask
      split
      · exact hpath
      · split <;> exact hpath
    · unfold nextTask
      split
      · intro hcall; cases hcall
      · split
        · intro hcall; cases hcall
        · exact fun _ => hmade
  rcases onDone_eq s id c r with ⟨-, heq⟩ | ⟨-, heq⟩
  · rw [heq]
    cases hnext with
    | idle hnew => exact absurd (congrArg Ephemeral.armed hnew) (List.cons_ne_nil _ _)
    | request id c hf ha hp hm => exact .request id c hf ha hp hm
    | timer id c hf ha hp hm => exact .timer id c hf ha hp hm
  · rw [heq]
    exact hnext

theorem Carries.expire {s : Ephemeral} {path : String} (hflight : s.inFlight = [])
    (harmed : s.armed = []) {c : EphemeralTask} (hpath : c.path = path)
    (hmade : c.call = .refresh → EphemeralTask.put ⟨.createEphemeral, path, c.value⟩ ∈ s.puts)
    (errMsg : String) (sync : Option String) : Carries path (s.expire c errMsg sync) := by
  rw [expire_eq]
  split
  · exact .timer s.nextTimer (retryTask c) hflight (congrArg _ harmed) hpath fun hcall => by
      cases hcall
  · cases sync with
    | none =>
      exact .request s.nextClient c (congrArg _ hflight) harmed hpath
        (put_mem_withClient hpath hmade)
    | some errMsg =>
      exact Carries.reply (s := s.withClient c) hflight harmed hpath
        (put_mem_withClient hpath hmade) s.nextClient ⟨errMsg, true, none, none⟩

/-- The value of what is pending is one with which the law holds. -/
theorem Carries.begins {s : Ephemeral} {path value : String} (h : s.Carries path)
    (hlaw : s.PutLaw path value) {id : Nat} {c : EphemeralTask}
    (hc : s.inFlight = [(id, c)] ∨ s.armed = [(id, c)]) : c.path = path ∧ Begins value c.value := by
  cases h with
  | idle hnew => rw [hnew] at hc; rcases hc with hc | hc <;> cases hc
  | request id' c' hflight harmed hpath hmade =>
    rw [hflight, harmed] at hc
    rcases hc with hc | hc
    · cases hc
      exact ⟨hpath, right_create.mp (hlaw _ (List.mem_append_left _ hmade))⟩
    · cases hc
  | timer id' c' hflight harmed hpath hmade =>
    rw [hflight, harmed] at hc
    rcases hc with hc | hc
    · cases hc
    · cases hc
      refine ⟨hpath, ?_⟩
      cases hcall : c.call with
      | refresh => exact right_create.mp (hlaw _ (List.mem_append_left _ (hmade hcall)))
      | createEphemeral =>
        have hnext : c.put ∈ s.puts ++ s.nextPuts :=
          List.mem_append_right _ (by simp [nextPuts, harmed])
        have hright := hlaw _ hnext
        obtain ⟨call, p, v⟩ := c
        obtain rfl : p = path := hpath
        obtain rfl : call = .createEphemeral := hcall
        exact right_create.mp hright

/-! ## The PUTs, step by step -/

theorem putLaw_armTimer {s : Ephemeral} {path value : String} (harmed : s.armed = [])
    (hputs : ∀ put ∈ s.puts, HttpPut.Right path value put) (d : EphemeralTask) :
    (s.armTimer d).PutLaw path value ↔ HttpPut.Right path value d.put := by
  have hnext : (s.armTimer d).nextPuts = [d.put] := by simp [nextPuts, armTimer, harmed]
  unfold PutLaw
  rw [hnext]
  show (∀ put ∈ s.puts ++ [d.put], _) ↔ _
  simp only [List.mem_append, List.mem_singleton]
  exact ⟨fun h => h _ (.inr rfl), fun h put hput => hput.elim (hputs put) fun heq => heq ▸ h⟩

theorem putLaw_onDone {s : Ephemeral} {path value : String} (harmed : s.armed = [])
    (hputs : ∀ put ∈ s.puts, HttpPut.Right path value put) {c : EphemeralTask}
    (hpath : c.path = path) (hb : Begins value c.value) (id : Nat) (r : PutReply) :
    (s.onDone id c r).PutLaw path value ↔ (r.errMsg ≠ "" → Begins value path) := by
  have harm : (s.onDone id c r).PutLaw path value ↔
      (s.armTimer (nextTask c r)).PutLaw path value := by
    rcases onDone_eq s id c r with ⟨-, heq⟩ | ⟨-, heq⟩
    · rw [heq]; rfl
    · rw [heq]
  rw [harm, putLaw_armTimer harmed hputs]
  unfold nextTask
  split
  · next herr =>
    rw [hpath, right_create]
    exact ⟨fun h _ => h, fun h => h herr⟩
  · next herr =>
    refine iff_of_true ?_ fun h => absurd h herr
    split
    · exact right_put hpath hb
    · exact right_put hpath hb

theorem putLaw_expire {s : Ephemeral} {path value : String} (harmed : s.armed = [])
    (hputs : ∀ put ∈ s.puts, HttpPut.Right path value put) {c : EphemeralTask}
    (hpath : c.path = path) (hb : Begins value c.value) (errMsg : String) (sync : Option String) :
    (s.expire c errMsg sync).PutLaw path value ↔
      ((if errMsg ≠ "" then c.call = .createEphemeral else ∃ e ∈ sync, e ≠ "") →
        Begins value path) := by
  have hput := right_put hpath hb
  rw [expire_eq]
  split
  · rw [putLaw_armTimer harmed hputs, retryTask, hpath, right_create]
    split
    · next hcall => exact ⟨fun h _ => h, fun h => h hcall⟩
    · next hcall => exact iff_of_true hb fun h => absurd h hcall
  · have hputs' : ∀ put ∈ (s.withClient c).puts, HttpPut.Right path value put := by
      intro put hmem
      rcases List.mem_append.mp hmem with hmem | hmem
      · exact hputs put hmem
      · exact List.mem_singleton.mp hmem ▸ hput
    cases sync with
    | none =>
      refine iff_of_true (fun put hmem => ?_) fun ⟨_, hnone, _⟩ => by cases hnone
      have hnext : (s.doReq c none).nextPuts = [] := by simp [nextPuts, doReq, harmed]
      rw [hnext, List.append_nil] at hmem
      exact hputs' put hmem
    | some e =>
      have hdone := putLaw_onDone (s := s.withClient c) harmed hputs' hpath hb s.nextClient
        ⟨e, true, none, none⟩
      refine hdone.trans ⟨fun h ⟨x, hx, hne⟩ => h ?_, fun h hne => h ⟨e, rfl, hne⟩⟩
      cases hx
      exact hne

theorem eq_singleton_of_lookup {id id' : Nat} {c c' : EphemeralTask}
    {l : List (Nat × EphemeralTask)} (hl : l = [(id', c')]) (hc : l.lookup id = some c) :
    l = [(id, c)] := by
  subst hl
  simp only [List.lookup_cons, List.lookup_nil] at hc
  split at hc
  · next heq =>
    obtain rfl : id = id' := by simpa using heq
    cases hc
    rfl
  · cases hc

theorem Carries.of_lookup_inFlight {s : Ephemeral} {path : String} (h : s.Carries path) {id : Nat}
    {c : EphemeralTask} (hc : s.inFlight.lookup id = some c) :
    s.inFlight = [(id, c)] ∧ s.armed = [] ∧ c.path = path ∧
      EphemeralTask.put ⟨.createEphemeral, path, c.value⟩ ∈ s.puts := by
  cases h with
  | idle hnew => simp [hnew, new] at hc
  | timer id' c' hflight => simp [hflight] at hc
  | request id' c' hflight harmed hpath hmade =>
    have heq := eq_singleton_of_lookup hflight hc
    obtain rfl : c' = c := by rw [hflight] at heq; cases heq; rfl
    exact ⟨heq, harmed, hpath, hmade⟩

theorem Carries.of_lookup_armed {s : Ephemeral} {path : String} (h : s.Carries path) {id : Nat}
    {c : EphemeralTask} (hc : s.armed.lookup id = some c) :
    s.inFlight = [] ∧ s.armed = [(id, c)] ∧ c.path = path ∧
      (c.call = .refresh → EphemeralTask.put ⟨.createEphemeral, path, c.value⟩ ∈ s.puts) := by
  cases h with
  | idle hnew => simp [hnew, new] at hc
  | request id' c' _ harmed => simp [harmed] at hc
  | timer id' c' hflight harmed hpath hmade =>
    have heq := eq_singleton_of_lookup harmed hc
    obtain rfl : c' = c := by rw [harmed] at heq; cases heq; rfl
    exact ⟨hflight, heq, hpath, hmade⟩

theorem Carries.setTimers {u : Ephemeral} {path : String} (h : u.Carries path) (harmed : u ≠ new)
    (timers : Finset Nat) : Carries path { u with timers := timers } := by
  cases h with
  | idle hnew => exact absurd hnew harmed
  | request id c hf ha hp hm => exact .request id c hf ha hp hm
  | timer id c hf ha hp hm => exact .timer id c hf ha hp hm

theorem Carries.step {path value : String} {s t : Ephemeral} {a : EphemeralAction} (h : s.Inv)
    (hc : s.Carries path) (ht : s.step path value a = some t) : t.Carries path := by
  obtain ⟨c, htask⟩ := step_cases h ht
  cases htask with
  | create sync hs heq =>
    have hmade : EphemeralCall.createEphemeral = .refresh →
        EphemeralTask.put ⟨.createEphemeral, path, value⟩ ∈ new.puts := fun hcall => by cases hcall
    have hexp : Carries path (Ephemeral.expire { new with started := true }
        ⟨.createEphemeral, path, value⟩ "" sync) :=
      Carries.expire (s := { new with started := true }) (c := ⟨.createEphemeral, path, value⟩)
        rfl rfl rfl hmade "" sync
    rw [expire_eq, if_neg (by simp), ← heq] at hexp
    exact hexp
  | reply id r c hs hlookup heq =>
    obtain ⟨hflight, harmed, hpath, hmade⟩ := hc.of_lookup_inFlight hlookup
    rw [heq]
    exact Carries.reply (s := { s with inFlight := s.inFlight.filter (·.1 ≠ id) })
      (by simp [hflight]) harmed hpath hmade id r
  | timer id errMsg sync c u hs hlookup hu heq =>
    obtain ⟨hflight, harmed, hpath, hmade⟩ := hc.of_lookup_armed hlookup
    have hexp := Carries.expire (s := { s with armed := s.armed.filter (·.1 ≠ id) }) hflight
      (by simp [harmed]) hpath hmade errMsg sync
    rw [← hu] at hexp
    rw [heq]
    refine hexp.setTimers (fun hnew => ?_) _
    have hstarted : u.started = s.started := by rw [hu]; exact started_expire _ _ _ _
    rw [hnew, hs] at hstarted
    cases hstarted

theorem putLaw_step {path value : String} {s t : Ephemeral} {a : EphemeralAction} (h : s.Inv)
    (hc : s.Carries path) (hlaw : s.PutLaw path value) (ht : s.step path value a = some t) :
    t.PutLaw path value ↔ s.KeepsValue path value a := by
  have hputs : ∀ put ∈ s.puts, HttpPut.Right path value put :=
    fun put hmem => hlaw put (List.mem_append_left _ hmem)
  obtain ⟨c, htask⟩ := step_cases h ht
  cases htask with
  | create sync hs heq =>
    have hexp : (Ephemeral.expire { new with started := true }
        ⟨.createEphemeral, path, value⟩ "" sync).PutLaw path value ↔ _ :=
      putLaw_expire rfl (fun put hmem => by cases hmem) rfl (begins_self value) "" sync
    rw [expire_eq, if_neg (by simp), ← heq] at hexp
    simpa [KeepsValue, PassesPath] using hexp
  | reply id r c hs hlookup heq =>
    obtain ⟨hflight, harmed, hpath, -⟩ := hc.of_lookup_inFlight hlookup
    rw [heq]
    exact putLaw_onDone (s := { s with inFlight := s.inFlight.filter (·.1 ≠ id) }) harmed hputs
      hpath (hc.begins hlaw (.inl hflight)).2 id r
  | timer id errMsg sync c u hs hlookup hu heq =>
    obtain ⟨hflight, harmed, hpath, -⟩ := hc.of_lookup_armed hlookup
    have hexp := putLaw_expire (s := { s with armed := s.armed.filter (·.1 ≠ id) })
      (by simp [harmed]) hputs hpath (hc.begins hlaw (.inr harmed)).2 errMsg sync
    rw [← hu] at hexp
    have hsame : t.PutLaw path value ↔ u.PutLaw path value := by rw [heq]; rfl
    rw [hsame, hexp]
    simp [KeepsValue, PassesPath, hlookup]

/-- In every state of a run all PUTs are for the path and the value, if and only if no step passes
the path for the value, except where the body of a create begins with `value=`, the value and `&`
all the same. -/
theorem putLaw_iff (path value : String) (as : List EphemeralAction)
    (hrun : ((system path value).run new as).isSome) :
    (system path value).AllStates (PutLaw path value) new as ↔
      (system path value).AllSteps (KeepsValue path value) new as :=
  System.allStates_iff_allSteps (I := fun s => s.Inv ∧ s.Carries path) (L := fun _ => True)
    (fun _ h => by cases h) ⟨inv_new, .idle rfl⟩
    (fun _ _ _ h ht => ⟨(h.1.step ht).1, h.2.step h.1 ht⟩)
    (fun _ _ _ h hlaw _ ht => putLaw_step h.1 h.2 hlaw ht) (fun _ _ => True.intro) hrun

/-- A refresh is canceled, and the value is passed on; the key is created again. -/
def canceledRefresh : List EphemeralAction :=
  [.create none, .reply 0 ⟨"", false, none, none⟩, .timer 0 "Timer Canceled" none,
    .timer 1 "" none, .reply 1 ⟨"", true, none, none⟩]

theorem putLaw_iff_canceledRefresh :
    (system "/p" "v").AllStates (PutLaw "/p" "v") new canceledRefresh ↔
      (system "/p" "v").AllSteps (KeepsValue "/p" "v") new canceledRefresh :=
  putLaw_iff "/p" "v" canceledRefresh rfl

/-- A create fails, and the next one has the path for the value. -/
theorem putLaw_fails : ∃ s, (system "/p" "v").run new
      [.create none, .reply 0 ⟨"timeout", false, none, none⟩, .timer 0 "" none] = some s ∧
    s.puts = [⟨"PUT", "/v2/keys/p", "value=v&ttl=12"⟩, ⟨"PUT", "/v2/keys/p", "value=/p&ttl=12"⟩] ∧
    ¬ ∀ put ∈ s.puts, HttpPut.Right "/p" "v" put := by
  refine ⟨_, rfl, by decide, fun h => ?_⟩
  obtain ⟨rest, hbody⟩ := (h ⟨"PUT", "/v2/keys/p", "value=/p&ttl=12"⟩ (by decide)).body
  have hlist := congrArg String.toList hbody
  simp at hlist

end Ephemeral

end Sheep
