import Mathlib.Order.Lattice
import Mathlib.Data.List.Basic
import Mathlib.Data.List.Sort

/-!
# Ordered maps

A map that is iterated in the order of its keys, as a list of entries with increasing keys. The
order is a field of the map, so an operation has to keep it where it builds one.

`insert` keeps an entry that is there, `erase` takes one out, `modify` changes a value in place, and
`upTo` is the iteration from the first entry to the upper bound of a key. What the operations do is
said about `find`; `mem_iff` connects the entries and `find`.
-/

namespace Sheep

universe u v w

structure OrderedMap (κ : Type u) (ν : Type v) [LinearOrder κ] where
  entries : List (κ × ν)
  sorted : entries.Pairwise fun x y => x.1 < y.1

namespace OrderedMap

variable {κ : Type u} {ν : Type v} [LinearOrder κ]

/-! ## The operations -/

def empty : OrderedMap κ ν := ⟨[], .nil⟩

def size (m : OrderedMap κ ν) : Nat := m.entries.length

def find (m : OrderedMap κ ν) (k : κ) : Option ν := m.entries.lookup k

/-- An entry that is there stays. -/
def insertEntry (k : κ) (v : ν) : List (κ × ν) → List (κ × ν)
  | [] => [(k, v)]
  | (k', v') :: rest =>
    if k < k' then (k, v) :: (k', v') :: rest
    else if k = k' then (k', v') :: rest
    else (k', v') :: insertEntry k v rest

theorem mem_of_mem_insertEntry {k : κ} {v : ν} {entries : List (κ × ν)} {x : κ × ν}
    (hx : x ∈ insertEntry k v entries) : x = (k, v) ∨ x ∈ entries := by
  induction entries with
  | nil => exact .inl (List.mem_singleton.mp hx)
  | cons entry rest ih =>
    rw [insertEntry] at hx
    split at hx
    next => exact List.mem_cons.mp hx
    next =>
      split at hx
      next => exact .inr hx
      next =>
        rcases List.mem_cons.mp hx with rfl | hx
        · exact .inr List.mem_cons_self
        · exact (ih hx).imp_right (List.mem_cons_of_mem _)

theorem insertEntry_sorted {k : κ} {v : ν} {entries : List (κ × ν)}
    (h : entries.Pairwise fun x y => x.1 < y.1) :
    (insertEntry k v entries).Pairwise fun x y => x.1 < y.1 := by
  induction entries with
  | nil => exact List.pairwise_singleton _ _
  | cons entry rest ih =>
    obtain ⟨hhead, hrest⟩ := List.pairwise_cons.mp h
    rw [insertEntry]
    split
    next hlt =>
      refine List.pairwise_cons.mpr ⟨fun x hx => ?_, h⟩
      rcases List.mem_cons.mp hx with rfl | hx
      · exact hlt
      · exact lt_trans hlt (hhead x hx)
    next hnlt =>
      split
      next => exact h
      next hne =>
        refine List.pairwise_cons.mpr ⟨fun x hx => ?_, ih hrest⟩
        rcases mem_of_mem_insertEntry hx with rfl | hx
        · exact lt_of_le_of_ne (not_lt.mp hnlt) (Ne.symm hne)
        · exact hhead x hx

def insert (m : OrderedMap κ ν) (k : κ) (v : ν) : OrderedMap κ ν :=
  ⟨insertEntry k v m.entries, insertEntry_sorted m.sorted⟩

def erase (m : OrderedMap κ ν) (k : κ) : OrderedMap κ ν :=
  ⟨m.entries.filter fun x => decide (x.1 ≠ k), m.sorted.filter _⟩

def modify (m : OrderedMap κ ν) (k : κ) (f : ν → ν) : OrderedMap κ ν where
  entries := m.entries.map fun x => if x.1 = k then (x.1, f x.2) else x
  sorted := by
    rw [List.pairwise_map]
    refine m.sorted.imp fun {x y} h => ?_
    split <;> split <;> exact h

/-- The entries before `upper_bound(k)`. -/
def upTo (m : OrderedMap κ ν) (k : κ) : List (κ × ν) :=
  m.entries.takeWhile fun x => decide (x.1 ≤ k)

/-! ## What `find` sees -/

theorem mem_iff {m : OrderedMap κ ν} {k : κ} {v : ν} :
    (k, v) ∈ m.entries ↔ m.find k = some v := by
  obtain ⟨entries, h⟩ := m
  simp only [find]
  induction entries with
  | nil => simp
  | cons entry rest ih =>
    obtain ⟨k', v'⟩ := entry
    obtain ⟨hhead, hrest⟩ := List.pairwise_cons.mp h
    rcases eq_or_ne k k' with rfl | hne
    · have hnot : (k, v) ∉ rest := fun hx => lt_irrefl k (hhead _ hx)
      simp [hnot, eq_comm]
    · rw [List.mem_cons, List.lookup_cons, beq_false_of_ne hne, ← ih hrest]
      simp [hne]

theorem find_eq_none {m : OrderedMap κ ν} {k : κ} :
    m.find k = none ↔ ∀ v, (k, v) ∉ m.entries := by
  simp only [mem_iff, Option.eq_none_iff_forall_ne_some, ne_eq]

theorem ext_find {m : OrderedMap κ ν} {k : κ} {o : Option ν}
    (h : ∀ v, (k, v) ∈ m.entries ↔ o = some v) : m.find k = o :=
  Option.ext fun v => mem_iff.symm.trans (h v)

@[simp] theorem find_empty {k : κ} : (empty : OrderedMap κ ν).find k = none := rfl

/-- Inserting under a key that is absent. -/
theorem mem_insert {m : OrderedMap κ ν} {k : κ} {v : ν} (h : m.find k = none) {x : κ × ν} :
    x ∈ (m.insert k v).entries ↔ x = (k, v) ∨ x ∈ m.entries := by
  refine ⟨mem_of_mem_insertEntry, ?_⟩
  obtain ⟨entries, hsorted⟩ := m
  rw [find_eq_none] at h
  simp only [insert] at h ⊢
  clear hsorted
  induction entries with
  | nil => simp [insertEntry]
  | cons entry rest ih =>
    obtain ⟨k', v'⟩ := entry
    have hne : k ≠ k' := by
      rintro rfl
      exact h v' List.mem_cons_self
    have ih' := ih fun v hv => h v (List.mem_cons_of_mem _ hv)
    rw [insertEntry]
    split
    next => exact List.mem_cons.mpr
    next =>
      rintro (rfl | hx)
      · exact List.mem_cons_of_mem _ (ih' (.inl rfl))
      · rcases List.mem_cons.mp hx with rfl | hx
        · exact List.mem_cons_self
        · exact List.mem_cons_of_mem _ (ih' (.inr hx))

theorem find_insert {m : OrderedMap κ ν} {k : κ} {v : ν} (h : m.find k = none) (j : κ) :
    (m.insert k v).find j = if j = k then some v else m.find j := by
  refine ext_find fun w => ?_
  rw [mem_insert h, mem_iff, Prod.mk.injEq]
  split
  next hj => subst hj; simp [h, eq_comm]
  next hj => simp [hj]

/-- Inserting under a key that is there changes nothing. -/
theorem insert_of_find {m : OrderedMap κ ν} {k : κ} {v w : ν} (h : m.find k = some w) :
    m.insert k v = m := by
  obtain ⟨entries, hsorted⟩ := m
  rw [← mem_iff] at h
  suffices hentries : insertEntry k v entries = entries by simp only [insert, hentries]
  simp only at h
  induction entries with
  | nil => exact absurd h List.not_mem_nil
  | cons entry rest ih =>
    obtain ⟨hhead, hrest⟩ := List.pairwise_cons.mp hsorted
    rw [insertEntry]
    rcases List.mem_cons.mp h with rfl | h
    · rw [if_neg (lt_irrefl k), if_pos rfl]
    · have hlt : entry.1 < k := hhead _ h
      rw [if_neg (not_lt_of_gt hlt), if_neg (ne_of_gt hlt), ih hrest h]

/-- What is in a map stays. -/
theorem mem_insert_of_mem {m : OrderedMap κ ν} {k : κ} {v : ν} {x : κ × ν} (hx : x ∈ m.entries) :
    x ∈ (m.insert k v).entries := by
  cases hfind : m.find k with
  | none => exact (mem_insert hfind).mpr (.inr hx)
  | some w => rwa [insert_of_find hfind]

/-- An entry is under the key that was inserted. -/
theorem exists_mem_insert (m : OrderedMap κ ν) (k : κ) (v : ν) :
    ∃ w, (k, w) ∈ (m.insert k v).entries := by
  cases hfind : m.find k with
  | none => exact ⟨v, (mem_insert hfind).mpr (.inl rfl)⟩
  | some w => exact ⟨w, mem_insert_of_mem (mem_iff.mpr hfind)⟩

theorem find_insert_or (m : OrderedMap κ ν) (k : κ) (v : ν) (j : κ) :
    (m.insert k v).find j = if j = k then (m.find k).or (some v) else m.find j := by
  cases hfind : m.find k with
  | none => exact find_insert hfind j
  | some w =>
    rw [insert_of_find hfind]
    split
    next hj => rw [hj, hfind, Option.or_some]; rfl
    next => rfl

theorem find_erase (m : OrderedMap κ ν) (k j : κ) :
    (m.erase k).find j = if j = k then none else m.find j := by
  refine ext_find fun w => ?_
  rw [erase, List.mem_filter, mem_iff]
  split
  next hj => simp [hj]
  next hj => simp [hj]

theorem find_modify (m : OrderedMap κ ν) (k : κ) (f : ν → ν) (j : κ) :
    (m.modify k f).find j = if j = k then (m.find k).map f else m.find j := by
  refine ext_find fun w => ?_
  simp only [modify, List.mem_map, Prod.exists]
  constructor
  · rintro ⟨k', v', hmem, heq⟩
    rw [mem_iff] at hmem
    split at heq
    next hk =>
      subst hk
      cases heq
      rw [if_pos rfl, hmem]
      rfl
    next hk =>
      cases heq
      rwa [if_neg hk]
  · intro h
    split at h
    next hj =>
      subst hj
      obtain ⟨v', hv', rfl⟩ := Option.map_eq_some_iff.mp h
      exact ⟨j, v', mem_iff.mpr hv', if_pos rfl⟩
    next hj => exact ⟨j, w, mem_iff.mpr h, if_neg hj⟩

/-! ## Entries and keys -/

/-- Entries in order are determined by which there are. -/
theorem entries_ext {xs ys : List (κ × ν)} (hxs : xs.Pairwise fun x y => x.1 < y.1)
    (hys : ys.Pairwise fun x y => x.1 < y.1) (h : ∀ x, x ∈ xs ↔ x ∈ ys) : xs = ys :=
  have : Std.Irrefl fun x y : κ × ν => x.1 < y.1 := ⟨fun x => lt_irrefl x.1⟩
  have : Std.Antisymm fun x y : κ × ν => x.1 < y.1 :=
    ⟨fun _ _ hxy hyx => absurd hyx (lt_asymm hxy)⟩
  hxs.eq_of_mem_iff hys h

/-- The entries before and behind a key. -/
def below (m : OrderedMap κ ν) (k : κ) : List (κ × ν) := m.entries.filter fun x => decide (x.1 < k)

def above (m : OrderedMap κ ν) (k : κ) : List (κ × ν) := m.entries.filter fun x => decide (k < x.1)

theorem mem_below {m : OrderedMap κ ν} {k : κ} {x : κ × ν} :
    x ∈ m.below k ↔ x ∈ m.entries ∧ x.1 < k := by simp [below]

theorem mem_above {m : OrderedMap κ ν} {k : κ} {x : κ × ν} :
    x ∈ m.above k ↔ x ∈ m.entries ∧ k < x.1 := by simp [above]

theorem entries_eq_around (m : OrderedMap κ ν) (k : κ) :
    m.entries = m.below k ++ (m.find k).toList.map (k, ·) ++ m.above k := by
  have hkey : ∀ x, x ∈ (m.find k).toList.map (k, ·) ↔ x ∈ m.entries ∧ x.1 = k := by
    rintro ⟨j, v⟩
    simp only [List.mem_map, Option.mem_toList, Prod.mk.injEq, mem_iff]
    constructor
    · rintro ⟨w, hw, rfl, rfl⟩
      exact ⟨hw, rfl⟩
    · rintro ⟨hv, rfl⟩
      exact ⟨v, hv, rfl, rfl⟩
  refine entries_ext m.sorted ?_ fun x => ?_
  · refine List.pairwise_append.mpr ⟨List.pairwise_append.mpr ⟨m.sorted.filter _, ?_, ?_⟩,
      m.sorted.filter _, ?_⟩
    · cases m.find k with
      | none => exact .nil
      | some v => exact List.pairwise_singleton _ _
    · intro x hx y hy
      rw [((hkey y).mp hy).2]
      exact (mem_below.mp hx).2
    · intro x hx y hy
      refine lt_of_le_of_lt ?_ (mem_above.mp hy).2
      rcases List.mem_append.mp hx with hx | hx
      · exact le_of_lt (mem_below.mp hx).2
      · exact le_of_eq ((hkey x).mp hx).2
  · rw [List.mem_append, List.mem_append, hkey, mem_below, mem_above]
    constructor
    · intro hx
      rcases lt_trichotomy x.1 k with h | h | h
      · exact .inl (.inl ⟨hx, h⟩)
      · exact .inl (.inr ⟨hx, h⟩)
      · exact .inr ⟨hx, h⟩
    · rintro ((h | h) | h)
      · exact h.1
      · exact h.1
      · exact h.1

/-- Maps that differ at one key at most have the same entries around it. -/
theorem around_congr {m m' : OrderedMap κ ν} {k : κ} (h : ∀ j, j ≠ k → m.find j = m'.find j) :
    m.below k = m'.below k ∧ m.above k = m'.above k := by
  have hmem : ∀ x : κ × ν, x.1 ≠ k → (x ∈ m.entries ↔ x ∈ m'.entries) := fun x hx => by
    rw [← Prod.mk.eta (p := x), mem_iff, mem_iff, h x.1 hx]
  refine ⟨entries_ext (m.sorted.filter _) (m'.sorted.filter _) fun x => ?_,
    entries_ext (m.sorted.filter _) (m'.sorted.filter _) fun x => ?_⟩
  · rw [mem_below, mem_below]
    exact and_congr_left fun hlt => hmem x (ne_of_lt hlt)
  · rw [mem_above, mem_above]
    exact and_congr_left fun hlt => hmem x (ne_of_gt hlt)

/-- A map of size one has one key. -/
theorem eq_of_size_one {m : OrderedMap κ ν} (h : m.size = 1) {k j : κ} {v w : ν}
    (hk : m.find k = some v) (hj : m.find j = some w) : j = k ∧ w = v := by
  obtain ⟨entry, hentry⟩ := List.length_eq_one_iff.mp h
  rw [← mem_iff, hentry, List.mem_singleton] at hk hj
  have := hj.trans hk.symm
  exact Prod.mk.inj this

/-- `erase` takes one entry only. -/
theorem erase_entries_ne_nil {m : OrderedMap κ ν} {k : κ} {v : ν} (h : m.find k = some v)
    (hsize : m.size ≠ 1) : (m.erase k).entries ≠ [] := by
  rw [ne_eq, erase, List.filter_eq_nil_iff]
  intro hall
  obtain ⟨entries, hsorted⟩ := m
  match entries with
  | [] => cases h
  | [_] => exact hsize rfl
  | x :: y :: rest =>
    -- two entries of one key are not in order
    have hx : x.1 = k := by simpa using hall x List.mem_cons_self
    have hy : y.1 = k := by simpa using hall y (List.mem_cons_of_mem _ List.mem_cons_self)
    have hlt := (List.pairwise_cons.mp hsorted).1 y List.mem_cons_self
    rw [hx, hy] at hlt
    exact lt_irrefl k hlt

theorem mem_upTo {m : OrderedMap κ ν} {k : κ} {x : κ × ν} :
    x ∈ m.upTo k ↔ x ∈ m.entries ∧ x.1 ≤ k := by
  obtain ⟨entries, h⟩ := m
  simp only [upTo]
  induction entries with
  | nil => simp
  | cons entry rest ih =>
    obtain ⟨hhead, hrest⟩ := List.pairwise_cons.mp h
    rw [List.takeWhile_cons]
    split
    next hle =>
      rw [List.mem_cons, ih hrest, List.mem_cons]
      constructor
      · rintro (rfl | ⟨hx, hxk⟩)
        · exact ⟨.inl rfl, of_decide_eq_true hle⟩
        · exact ⟨.inr hx, hxk⟩
      · rintro ⟨rfl | hx, hxk⟩
        · exact .inl rfl
        · exact .inr ⟨hx, hxk⟩
    next hle =>
      have hlt : k < entry.1 := by simpa using hle
      simp only [List.not_mem_nil, false_iff, not_and, not_le, List.mem_cons]
      rintro (rfl | hx)
      · exact hlt
      · exact lt_trans hlt (hhead x hx)

theorem upTo_sublist (m : OrderedMap κ ν) (k : κ) : (m.upTo k).Sublist m.entries :=
  List.takeWhile_sublist _

/-! ## Keys -/

def keys (m : OrderedMap κ ν) : List κ := m.entries.map Prod.fst

theorem mem_keys {m : OrderedMap κ ν} {k : κ} : k ∈ m.keys ↔ ∃ v, (k, v) ∈ m.entries := by
  simp [keys]

theorem find_isNone {m : OrderedMap κ ν} {k : κ} : (m.find k).isNone ↔ k ∉ m.keys := by
  rw [Option.isNone_iff_eq_none, find_eq_none, mem_keys, not_exists]

theorem not_mem_keys_empty {k : κ} : k ∉ (empty : OrderedMap κ ν).keys := List.not_mem_nil

theorem mem_keys_insert {m : OrderedMap κ ν} {k : κ} {v : ν} {j : κ} :
    j ∈ (m.insert k v).keys ↔ j = k ∨ j ∈ m.keys := by
  rw [mem_keys, mem_keys]
  constructor
  · rintro ⟨w, hw⟩
    rcases mem_of_mem_insertEntry hw with heq | hw
    · exact .inl (congrArg Prod.fst heq)
    · exact .inr ⟨w, hw⟩
  · rintro (rfl | ⟨w, hw⟩)
    · exact exists_mem_insert m j v
    · exact ⟨w, mem_insert_of_mem hw⟩

theorem keys_nodup (m : OrderedMap κ ν) : m.keys.Nodup :=
  List.pairwise_map.mpr (m.sorted.imp fun h => ne_of_lt h)

end OrderedMap

/-- A `std::set`. -/
abbrev OrderedSet (κ : Type u) [LinearOrder κ] := OrderedMap κ Unit

end Sheep
