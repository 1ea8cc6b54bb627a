import Sheep.Net.Epoller

/-!
# `Epoller::Poll`

What `Epoller::Poll` makes of a result of `epoll_wait` (`net/common/poller/epoller.cpp`). The kernel
writes the first `num` entries of `pollEvents_`, and the others keep what earlier calls have left
there. The loop goes over all entries and stops when the counter `i` is `num`; an entry whose event
is gone does not count.

`Right`: the events returned are those of the `num` entries, in their order. `poll_right_iff`: this
is so exactly when every one of these entries finds its event, or there are no others.
-/

namespace Sheep

/-- An entry of `pollEvents_`: the bits of `events` that the loop looks at, and `data.fd`. -/
structure EpollEntry where
  fd : Int
  epollin : Bool
  epollout : Bool
  epollerr : Bool
  epollhup : Bool
  deriving DecidableEq, Repr

/-- The kernel reports an entry for a condition that was asked for or that is always reported. -/
def EpollEntry.Reported (entry : EpollEntry) : Prop :=
  entry.epollin ∨ entry.epollout ∨ entry.epollerr ∨ entry.epollhup

/-- `pollEvents_`: its size is `MaxSize_`. -/
structure PollEvents where
  entries : List EpollEntry
  size : entries.length = Epoller.maxSize.toNat

/-- The entries of a call of `epoll_wait` that does not fail. -/
structure EpollReport where
  entries : List EpollEntry
  size : entries.length ≤ Epoller.maxSize.toNat
  reported : ∀ entry ∈ entries, entry.Reported

/-- `num` and the entries written. -/
inductive EpollWait
  | failed (num : Int)
  | ready (report : EpollReport)

/-- What `Poll` does: the events returned, those whose flags it sets, and the indices of the entries
that it reads. -/
structure PollOutcome where
  errMsg : String
  events : List EventId
  readAble : List EventId
  writeAble : List EventId
  reads : List Nat
  deriving DecidableEq, Repr

namespace PollOutcome

def empty : PollOutcome := ⟨"", [], [], [], []⟩

def read (out : PollOutcome) (index : Nat) : PollOutcome :=
  { out with reads := out.reads ++ [index] }

def setReadAble (out : PollOutcome) (id : EventId) : PollOutcome :=
  { out with readAble := out.readAble ++ [id] }

def setWriteAble (out : PollOutcome) (id : EventId) : PollOutcome :=
  { out with writeAble := out.writeAble ++ [id] }

def pushBack (out : PollOutcome) (id : EventId) : PollOutcome :=
  { out with events := out.events ++ [id] }

end PollOutcome

namespace Epoller

/-- `events_[fd].lock()`, as the object. -/
def lockId (s : Epoller) (fd : Int) : Option EventId :=
  (s.events fd).filter fun id => (s.live id).isSome

/-- The loop over `pollEvents_` from an index on; `none` is `LOG(FATAL)`. -/
def pollLoop (s : Epoller) (num : Nat) :
    List EpollEntry → Nat → Nat → PollOutcome → Option PollOutcome
  | [], _, _, out => some out
  | pollEvent :: rest, index, i, out =>
    if i = num then some out
    else
      match s.lockId pollEvent.fd with
      | none => pollLoop s num rest (index + 1) i (out.read index)
      | some id =>
        if pollEvent.epollin then
          pollLoop s num rest (index + 1) (i + 1) (((out.read index).setReadAble id).pushBack id)
        else if pollEvent.epollout || pollEvent.epollerr || pollEvent.epollhup then
          pollLoop s num rest (index + 1) (i + 1) (((out.read index).setWriteAble id).pushBack id)
        else none

/-- `Poll`, with what `epoll_wait` returns and what `pollEvents_` held before. -/
def poll (s : Epoller) (wait : EpollWait) (pollEvents : PollEvents) : Option PollOutcome :=
  match wait with
  | .failed num => some { PollOutcome.empty with errMsg := "epoll_wait returns " ++ toString num }
  | .ready report =>
    let num := report.entries.length
    s.pollLoop num (report.entries ++ pollEvents.entries.drop num) 0 0 .empty

/-- The live events of the entries reported. -/
def found (s : Epoller) (entries : List EpollEntry) : List EventId :=
  entries.filterMap fun entry => s.lockId entry.fd

/-- The events returned are the live ones of the entries reported, in order, flags are set on these
only, and no other entry is read. -/
structure Right (s : Epoller) (report : EpollReport) (out : PollOutcome) : Prop where
  events : out.events = s.found report.entries
  flags : ∀ id ∈ out.readAble ++ out.writeAble, id ∈ s.found report.entries
  reads : ∀ index ∈ out.reads, index < report.entries.length

/-- The condition: every entry reported finds its event, or the report fills `pollEvents_`. -/
def FindsAll (s : Epoller) (report : EpollReport) : Prop :=
  (∀ entry ∈ report.entries, (s.lockId entry.fd).isSome) ∨
    report.entries.length = maxSize.toNat

variable {s : Epoller} {num index i : Nat} {out out' : PollOutcome}

/-! ## The entries reported -/

/-- The loop after the entries `entries`: it has looked at each of them, returned the events that
it found, and set a flag on each of these. -/
structure Passed (s : Epoller) (entries : List EpollEntry) (index : Nat) (out out' : PollOutcome) :
    Prop where
  events : out'.events = out.events ++ s.found entries
  flags : ∀ id ∈ out'.readAble ++ out'.writeAble,
    id ∈ out.readAble ++ out.writeAble ∨ id ∈ s.found entries
  reads : ∀ j ∈ out'.reads, j ∈ out.reads ∨ j < index + entries.length

theorem found_cons_none {entry : EpollEntry} {entries : List EpollEntry}
    (hlock : s.lockId entry.fd = none) : s.found (entry :: entries) = s.found entries :=
  List.filterMap_cons_none (f := fun entry : EpollEntry => s.lockId entry.fd) hlock

theorem found_cons_some {entry : EpollEntry} {entries : List EpollEntry} {id : EventId}
    (hlock : s.lockId entry.fd = some id) :
    s.found (entry :: entries) = id :: s.found entries :=
  List.filterMap_cons_some (f := fun entry : EpollEntry => s.lockId entry.fd) hlock

theorem passed_nil : Passed s [] index out out where
  events := by simp [found]
  flags _ h := .inl h
  reads _ h := .inl h

theorem Passed.cons {entry : EpollEntry} {entries : List EpollEntry} {mid : PollOutcome}
    (h : Passed s [entry] index out mid) (h' : Passed s entries (index + 1) mid out') :
    Passed s (entry :: entries) index out out' := by
  have hfound : s.found (entry :: entries) = s.found [entry] ++ s.found entries :=
    List.filterMap_append (l := [entry])
  refine ⟨?_, fun id hid => ?_, fun j hj => ?_⟩
  · rw [h'.events, h.events, hfound, List.append_assoc]
  · rw [hfound]
    rcases h'.flags id hid with hid | hid
    · exact (h.flags id hid).imp_right (List.mem_append_left _)
    · exact .inr (List.mem_append_right _ hid)
  · rw [List.length_cons]
    rcases h'.reads j hj with hj | hj
    · rcases h.reads j hj with hj | hj
      · exact .inl hj
      · exact .inr (by simp only [List.length_singleton] at hj; omega)
    · exact .inr (by omega)

theorem mem_reads_read {j : Nat} (hj : j ∈ (out.read index).reads) :
    j ∈ out.reads ∨ j < index + 1 := by
  rcases List.mem_append.mp hj with hj | hj
  · exact .inl hj
  · exact .inr (by rw [List.mem_singleton.mp hj]; omega)

/-- An entry whose event is gone. -/
theorem passed_read {entry : EpollEntry} (hlock : s.lockId entry.fd = none) :
    Passed s [entry] index out (out.read index) where
  events := by rw [found_cons_none hlock]; exact (List.append_nil _).symm
  flags _ h := .inl h
  reads _ := mem_reads_read

theorem passed_setReadAble {entry : EpollEntry} {id : EventId}
    (hlock : s.lockId entry.fd = some id) :
    Passed s [entry] index out (((out.read index).setReadAble id).pushBack id) where
  events := by rw [found_cons_some hlock]; rfl
  flags id' hid := by
    rw [found_cons_some hlock]
    rcases List.mem_append.mp hid with hid | hid
    · exact (List.mem_append.mp hid).imp_left (List.mem_append_left _)
    · exact .inl (List.mem_append_right _ hid)
  reads _ := mem_reads_read

theorem passed_setWriteAble {entry : EpollEntry} {id : EventId}
    (hlock : s.lockId entry.fd = some id) :
    Passed s [entry] index out (((out.read index).setWriteAble id).pushBack id) where
  events := by rw [found_cons_some hlock]; rfl
  flags id' hid := by
    rw [found_cons_some hlock]
    rcases List.mem_append.mp hid with hid | hid
    · exact .inl (List.mem_append_left _ hid)
    · exact (List.mem_append.mp hid).imp_left (List.mem_append_right _)
  reads _ := mem_reads_read

/-- The loop passes the entries reported, and counts those that find their event. -/
theorem pollLoop_entries (index i : Nat) (out : PollOutcome) {entries : List EpollEntry}
    (hreported : ∀ e ∈ entries, e.Reported)
    (hi : i + entries.length ≤ num) (rest : List EpollEntry) :
    ∃ out', s.pollLoop num (entries ++ rest) index i out =
        s.pollLoop num rest (index + entries.length) (i + (s.found entries).length) out' ∧
      Passed s entries index out out' := by
  induction entries generalizing index i out with
  | nil => exact ⟨out, rfl, passed_nil⟩
  | cons entry entries ih =>
    obtain ⟨hentry, hreported⟩ := List.forall_mem_cons.mp hreported
    rw [List.length_cons] at hi
    have hne : i ≠ num := by omega
    have hindex : index + (entry :: entries).length = index + 1 + entries.length := by
      rw [List.length_cons]
      omega
    rw [List.cons_append, pollLoop, if_neg hne, hindex]
    cases hlock : s.lockId entry.fd with
    | none =>
      obtain ⟨out', heq, hpassed⟩ := ih (index + 1) i (out.read index) hreported
        (by omega)
      exact ⟨out', by rw [found_cons_none hlock, ← heq], (passed_read hlock).cons hpassed⟩
    | some id =>
      have hfound : i + (s.found (entry :: entries)).length =
          i + 1 + (s.found entries).length := by
        rw [found_cons_some hlock, List.length_cons]
        omega
      rw [hfound]
      simp only
      split
      next =>
        obtain ⟨out', heq, hpassed⟩ := ih (index + 1) (i + 1)
          (((out.read index).setReadAble id).pushBack id) hreported (by omega)
        exact ⟨out', heq, (passed_setReadAble hlock).cons hpassed⟩
      next hin =>
        have hbits : (entry.epollout || entry.epollerr || entry.epollhup) = true := by
          rcases hentry with h | h | h | h
          · exact absurd h hin
          all_goals simp [h]
        rw [if_pos hbits]
        obtain ⟨out', heq, hpassed⟩ := ih (index + 1) (i + 1)
          (((out.read index).setWriteAble id).pushBack id) hreported (by omega)
        exact ⟨out', heq, (passed_setWriteAble hlock).cons hpassed⟩

/-! ## The entries that are left from earlier calls -/

/-- The loop only adds to the entries that it has read. -/
theorem reads_of_pollLoop {entries : List EpollEntry}
    (h : s.pollLoop num entries index i out = some out') : ∀ j ∈ out.reads, j ∈ out'.reads := by
  induction entries generalizing index i out with
  | nil =>
    cases h
    exact fun _ hj => hj
  | cons entry entries ih =>
    have hread : ∀ j ∈ out.reads, j ∈ (out.read index).reads := fun j hj =>
      List.mem_append_left _ hj
    rw [pollLoop] at h
    split at h
    next =>
      cases h
      exact fun _ hj => hj
    next =>
      split at h
      next => exact fun j hj => ih h j (hread j hj)
      next =>
        split at h
        next => exact fun j hj => ih h j (hread j hj)
        next =>
          split at h
          next => exact fun j hj => ih h j (hread j hj)
          next => cases h

/-- A loop that has not counted to `num` reads the next entry. -/
theorem reads_next {entry : EpollEntry} {entries : List EpollEntry} (hi : i ≠ num)
    (h : s.pollLoop num (entry :: entries) index i out = some out') : index ∈ out'.reads := by
  have hread : index ∈ (out.read index).reads :=
    List.mem_append_right _ (List.mem_singleton.mpr rfl)
  rw [pollLoop, if_neg hi] at h
  split at h
  next => exact reads_of_pollLoop h index hread
  next =>
    split at h
    next => exact reads_of_pollLoop h index hread
    next =>
      split at h
      next => exact reads_of_pollLoop h index hread
      next => cases h

theorem found_length_eq_iff {entries : List EpollEntry} :
    (s.found entries).length = entries.length ↔
      ∀ entry ∈ entries, (s.lockId entry.fd).isSome :=
  List.filterMap_length_eq_length

/-! ## `Poll` -/

/-- `Poll` returns the live events of the entries reported and reads no other entry, exactly when
every entry reported finds its event, or the report fills `pollEvents_`. -/
theorem poll_right_iff (s : Epoller) (report : EpollReport) (pollEvents : PollEvents) :
    (∃ out, s.poll (.ready report) pollEvents = some out ∧ s.Right report out) ↔
      s.FindsAll report := by
  have hfull : report.entries.length ≤ maxSize.toNat := report.size
  obtain ⟨mid, heq, hpassed⟩ := pollLoop_entries (s := s) 0 0 .empty report.reported
    (Nat.le_of_eq (Nat.zero_add _)) (pollEvents.entries.drop report.entries.length)
  have hpoll : s.poll (.ready report) pollEvents = _ := heq
  rw [Nat.zero_add, Nat.zero_add] at hpoll
  have hright : s.Right report mid := by
    refine ⟨by rw [hpassed.events]; rfl, fun id hid => ?_, fun j hj => ?_⟩
    · exact (hpassed.flags id hid).resolve_left nofun
    · have := (hpassed.reads j hj).resolve_left nofun
      omega
  have hsize := pollEvents.size
  constructor
  · rintro ⟨out, hout, hr⟩
    by_contra hnot
    obtain ⟨hlive, hroom⟩ := not_or.mp hnot
    -- the counter is behind, and there is an entry to go on with
    have hcount : (s.found report.entries).length ≠ report.entries.length :=
      fun h => hlive (found_length_eq_iff.mp h)
    rw [hpoll] at hout
    cases hrest : pollEvents.entries.drop report.entries.length with
    | nil =>
      have := List.drop_eq_nil_iff.mp hrest
      omega
    | cons entry rest =>
      rw [hrest] at hout
      exact absurd (hr.reads _ (reads_next hcount hout)) (Nat.lt_irrefl _)
  · intro hall
    refine ⟨mid, ?_, hright⟩
    rw [hpoll]
    rcases hall with hlive | hfull
    · have hcount := found_length_eq_iff.mpr hlive
      cases pollEvents.entries.drop report.entries.length with
      | nil => rfl
      | cons entry rest => rw [pollLoop, if_pos hcount]
    · rw [List.drop_eq_nil_of_le (by omega)]
      rfl

/-- An event for descriptor 5 is dropped, and one for descriptor 6 waits until it is writable. -/
def dropsFive : List EpollerAction :=
  [.create 5, .enableReadNotify 0, .create 6, .enableWriteNotify 1, .destroy 0]

/-- `num` is 1, and descriptor 5 is readable. -/
def fiveReadable : EpollReport where
  entries := [⟨5, true, false, false, false⟩]
  size := by decide
  reported := by simp [EpollEntry.Reported]

/-- Every entry is one in which an earlier call has reported descriptor 6 as writable. -/
def sixWritable : PollEvents where
  entries := List.replicate maxSize.toNat ⟨6, false, true, false, false⟩
  size := List.length_replicate

/-- Nothing has been reported for descriptor 6, and its event is returned as writable. -/
theorem stale_entry_returned : ∃ s, system.run new dropsFive = some s ∧
    s.found fiveReadable.entries = [] ∧
    s.poll (.ready fiveReadable) sixWritable = some ⟨"", [1], [], [1], [0, 1]⟩ ∧
    ¬ ∃ out, s.poll (.ready fiveReadable) sixWritable = some out ∧ s.Right fiveReadable out := by
  obtain ⟨rest, hrest⟩ : ∃ rest, sixWritable.entries.drop fiveReadable.entries.length =
      ⟨6, false, true, false, false⟩ :: ⟨6, false, true, false, false⟩ :: rest :=
    ⟨List.replicate 99997 _, List.drop_replicate⟩
  refine ⟨_, rfl, by decide, ?_⟩
  have hpoll : ∀ s : Epoller, s.lockId 5 = none → s.lockId 6 = some 1 →
      s.poll (.ready fiveReadable) sixWritable = some ⟨"", [1], [], [1], [0, 1]⟩ := by
    intro s h5 h6
    simp only [poll, hrest]
    simp [fiveReadable, pollLoop, h5, h6, PollOutcome.empty, PollOutcome.read,
      PollOutcome.setWriteAble, PollOutcome.pushBack]
  refine ⟨hpoll _ (by decide) (by decide), ?_⟩
  rintro ⟨out, hout, hright⟩
  rw [hpoll _ (by decide) (by decide)] at hout
  cases hout
  exact absurd hright.events (by decide)

end Epoller

end Sheep
