import Mathlib.Algebra.Group.Nat.Defs
import Sheep.Lib.Bytes
import Sheep.Lib.OrderedMap

/-!
# `WatcherResolver`

The nodes that `WatcherResolver` (`extends/small_watcher/watcher_resolver.h`) makes of the keys that
`ListWatch` delivers, with `small_strings::TrimLeft`.

`WatcherLaw`: the nodes are the keys below the target, without the target. `watcherLaw_iff` says
for which keys that is so. `TrimLeft` asks whether an unsigned position is negative, so a key
without the prefix is cut as well, and a prefix in the middle of a key is taken for one at its
start.
-/

namespace Sheep

/-! ## `std::string` -/

namespace StdString

/-- `max_size`. -/
def maxSize : Nat := 2 ^ 63 - 1

def npos : Nat := 2 ^ 64 - 1

/-- The position of the first occurrence; `none` is `npos`. -/
def firstOccurrence (trimStr : Bytes) : Bytes → Option Nat
  | [] => if trimStr = [] then some 0 else none
  | ch :: rest =>
    if trimStr <+: ch :: rest then some 0
    else (firstOccurrence trimStr rest).map (· + 1)

/-- `find`. -/
def find (str trimStr : Bytes) : Nat := (firstOccurrence trimStr str).getD npos

/-- `substr`. -/
def substr (str : Bytes) (pos n : Nat) : Except StdException Bytes :=
  if str.length < pos then .error .outOfRange else .ok ((str.drop pos).take n)

end StdString

open StdString

/-- `TrimLeft`. No `size_t` is negative, so `index < 0` never holds; sums and differences are
modulo `2 ^ 64`. -/
def trimLeft (str trimStr : Bytes) : Except StdException Bytes :=
  let index := find str trimStr
  substr str ((index + trimStr.length) % 2 ^ 64) ((str.length + 2 ^ 64 - trimStr.length) % 2 ^ 64)

namespace WatcherResolver

/-- `target_ + "/"`. -/
def trimStr (target : Bytes) : Bytes := target ++ bytes "/"

/-- The loop over the keys. -/
def insertKeys (target : Bytes) : List Bytes → OrderedSet Bytes →
    Except StdException (OrderedSet Bytes)
  | [], nodes => .ok nodes
  | key :: keys, nodes =>
    match trimLeft key (trimStr target) with
    | .error e => .error e
    | .ok realKey => insertKeys target keys (nodes.insert realKey ())

/-- The nodes that the handler is called with. -/
def onKeys (target : Bytes) (keys : List Bytes) : Except StdException (OrderedSet Bytes) :=
  insertKeys target keys .empty

/-! ## The contract -/

/-- Nothing is thrown, and the nodes are the keys below the target. -/
def WatcherLaw (target : Bytes) (keys : List Bytes) : Prop :=
  ∃ nodes, onKeys target keys = .ok nodes ∧
    ∀ s, s ∈ nodes.keys ↔ trimStr target ++ s ∈ keys

/-- `before` is what is in front of the first `trimStr` of the key. -/
def First (key trimStr before behind : Bytes) : Prop :=
  key = before ++ trimStr ++ behind ∧
    ∀ before' behind', key = before' ++ trimStr ++ behind' → before.length ≤ before'.length

/-- What is behind the first prefix of the key, wherever that is, is a node. A key without the
prefix is not shorter than the target, and what is behind as many bytes, but for the last byte, is a
node of another key. -/
structure Harmless (target : Bytes) (keys : List Bytes) (key : Bytes) : Prop where
  inside : ∀ before behind, First key (trimStr target) before behind →
    trimStr target ++ behind ∈ keys
  longEnough : ¬ trimStr target <:+: key → target.length ≤ key.length
  without : ¬ trimStr target <:+: key →
    trimStr target ++ (key.drop target.length).dropLast ∈ keys

/-! ## `TrimLeft` -/

theorem firstOccurrence_some {t str : Bytes} {i : Nat} (h : firstOccurrence t str = some i) :
    ∃ before behind, str = before ++ t ++ behind ∧ before.length = i := by
  induction str generalizing i with
  | nil =>
    obtain ⟨rfl, hi⟩ := Option.ite_none_right_eq_some.mp h
    exact ⟨[], [], rfl, Option.some.inj hi⟩
  | cons ch rest ih =>
    rw [firstOccurrence] at h
    split at h
    next hpre =>
      obtain ⟨behind, hbehind⟩ := hpre
      exact ⟨[], behind, hbehind.symm, Option.some.inj h⟩
    next =>
      obtain ⟨j, hj, rfl⟩ := Option.map_eq_some_iff.mp h
      obtain ⟨before, behind, rfl, rfl⟩ := ih hj
      exact ⟨ch :: before, behind, rfl, rfl⟩

theorem firstOccurrence_le (t before behind : Bytes) :
    ∃ i, firstOccurrence t (before ++ t ++ behind) = some i ∧ i ≤ before.length := by
  induction before with
  | nil =>
    refine ⟨0, ?_, Nat.le_refl 0⟩
    rw [List.nil_append]
    cases hstr : t ++ behind with
    | nil => exact if_pos (List.append_eq_nil_iff.mp hstr).1
    | cons ch rest => exact if_pos ⟨behind, hstr⟩
  | cons ch before ih =>
    obtain ⟨i, hi, hle⟩ := ih
    simp only [List.cons_append, firstOccurrence]
    split
    next => exact ⟨0, rfl, Nat.zero_le _⟩
    next => exact ⟨i + 1, by rw [hi]; rfl, Nat.succ_le_succ hle⟩

theorem firstOccurrence_first {t key before behind : Bytes} (h : First key t before behind) :
    firstOccurrence t key = some before.length := by
  obtain ⟨rfl, hfirst⟩ := h
  obtain ⟨i, hi, hle⟩ := firstOccurrence_le t before behind
  obtain ⟨before', behind', heq, rfl⟩ := firstOccurrence_some hi
  rw [hi, Nat.le_antisymm hle (hfirst before' behind' heq)]

theorem firstOccurrence_none {t key : Bytes} (h : ¬ t <:+: key) : firstOccurrence t key = none := by
  cases hfind : firstOccurrence t key with
  | none => rfl
  | some i =>
    obtain ⟨before, behind, heq, -⟩ := firstOccurrence_some hfind
    exact absurd ⟨before, behind, heq.symm⟩ h

/-- A prefix has a first occurrence. -/
theorem exists_first {t key : Bytes} (h : t <:+: key) :
    ∃ before behind, First key t before behind := by
  obtain ⟨b, c, rfl⟩ := h
  obtain ⟨i, hi, -⟩ := firstOccurrence_le t b c
  obtain ⟨before, behind, heq, hlen⟩ := firstOccurrence_some hi
  refine ⟨before, behind, heq, fun before' behind' heq' => ?_⟩
  obtain ⟨j, hj, hle⟩ := firstOccurrence_le t before' behind'
  rw [← heq', hi, Option.some.injEq] at hj
  exact hlen ▸ hj ▸ hle

variable {target key : Bytes}

theorem length_trimStr (target : Bytes) : (trimStr target).length = target.length + 1 :=
  List.length_append

/-- The text behind the first occurrence. -/
theorem trimLeft_first (hkey : key.length ≤ maxSize) {before behind : Bytes}
    (h : First key (trimStr target) before behind) :
    trimLeft key (trimStr target) = .ok behind := by
  have hfind : find key (trimStr target) = before.length := by
    unfold find
    rw [firstOccurrence_first h]
    rfl
  have hlen : key.length = before.length + (trimStr target).length + behind.length := by
    rw [h.1, List.length_append, List.length_append]
  have hmax : key.length < 2 ^ 63 := Nat.lt_of_le_of_lt hkey (by decide)
  have hpos : (before.length + (trimStr target).length) % 2 ^ 64 =
      before.length + (trimStr target).length := Nat.mod_eq_of_lt (by omega)
  have hn : (key.length + 2 ^ 64 - (trimStr target).length) % 2 ^ 64 =
      key.length - (trimStr target).length := by omega
  unfold trimLeft substr
  dsimp only
  rw [hfind, hpos, hn, if_neg (by omega)]
  have hdrop : key.drop (before.length + (trimStr target).length) = behind := by
    rw [h.1, ← List.length_append]
    exact List.drop_left
  rw [hdrop, List.take_of_length_le (by omega)]

/-- Without the prefix, the position wraps around and becomes the length of the target. -/
theorem trimLeft_without (htarget : target.length < maxSize) (hkey : key.length ≤ maxSize)
    (h : ¬ trimStr target <:+: key) :
    trimLeft key (trimStr target) =
      if key.length < target.length then .error .outOfRange
      else .ok (key.drop target.length).dropLast := by
  have hfind : find key (trimStr target) = npos := by
    unfold find
    rw [firstOccurrence_none h]
    rfl
  have hmax : maxSize < 2 ^ 63 := by decide
  have hpos : (npos + (trimStr target).length) % 2 ^ 64 = target.length := by
    rw [length_trimStr, npos]
    omega
  unfold trimLeft substr
  dsimp only
  rw [hfind, hpos, length_trimStr]
  split
  next => rfl
  next hlen =>
    refine congrArg Except.ok ?_
    rw [List.dropLast_eq_take, List.length_drop]
    rcases Nat.eq_or_lt_of_le (Nat.le_of_not_lt hlen) with heq | hlt
    · rw [heq, List.drop_length, List.take_nil, List.take_nil]
    · have hn : (key.length + 2 ^ 64 - (target.length + 1)) % 2 ^ 64 =
          key.length - target.length - 1 := by omega
      rw [hn]

/-! ## The nodes -/

theorem mem_insertKeys {keys : List Bytes} {nodes nodes' : OrderedSet Bytes}
    (h : insertKeys target keys nodes = .ok nodes') (s : Bytes) :
    s ∈ nodes'.keys ↔
      s ∈ nodes.keys ∨ ∃ key ∈ keys, trimLeft key (trimStr target) = .ok s := by
  induction keys generalizing nodes with
  | nil =>
    cases h
    simp
  | cons key keys ih =>
    rw [insertKeys] at h
    cases htrim : trimLeft key (trimStr target) with
    | error e =>
      rw [htrim] at h
      cases h
    | ok realKey =>
      rw [htrim] at h
      rw [ih h, OrderedMap.mem_keys_insert]
      simp only [List.mem_cons, exists_eq_or_imp, htrim, Except.ok.injEq, eq_comm (a := s),
        or_assoc, or_left_comm]

theorem insertKeys_isOk {keys : List Bytes} {nodes : OrderedSet Bytes} :
    (∃ nodes', insertKeys target keys nodes = .ok nodes') ↔
      ∀ key ∈ keys, ∃ s, trimLeft key (trimStr target) = .ok s := by
  induction keys generalizing nodes with
  | nil => exact iff_of_true ⟨nodes, rfl⟩ fun _ h => absurd h List.not_mem_nil
  | cons key keys ih =>
    rw [List.forall_mem_cons, insertKeys]
    cases htrim : trimLeft key (trimStr target) with
    | error e => simp
    | ok realKey =>
      dsimp only
      rw [ih]
      exact ⟨fun h => ⟨⟨realKey, rfl⟩, h⟩, fun h => h.2⟩

/-- The key itself is the prefix and its node. -/
theorem first_append (s : Bytes) : First (trimStr target ++ s) (trimStr target) [] s :=
  ⟨rfl, fun _ _ _ => Nat.zero_le _⟩

/-- The law is one on the pieces that are cut out of the keys. -/
theorem watcherLaw_iff_pieces {keys : List Bytes} (hkeys : ∀ key ∈ keys, key.length ≤ maxSize) :
    WatcherLaw target keys ↔
      ∀ key ∈ keys, ∃ s, trimLeft key (trimStr target) = .ok s ∧ trimStr target ++ s ∈ keys := by
  constructor
  · rintro ⟨nodes, hnodes, hmem⟩ key hkey
    obtain ⟨s, hs⟩ := insertKeys_isOk.mp ⟨nodes, hnodes⟩ key hkey
    exact ⟨s, hs, (hmem s).mp ((mem_insertKeys hnodes s).mpr (.inr ⟨key, hkey, hs⟩))⟩
  · intro h
    obtain ⟨nodes, hnodes⟩ := (@insertKeys_isOk target keys .empty).mpr fun key hkey =>
      (h key hkey).imp fun s hs => hs.1
    refine ⟨nodes, hnodes, fun s => ?_⟩
    rw [mem_insertKeys hnodes s, or_iff_right OrderedMap.not_mem_keys_empty]
    constructor
    · rintro ⟨key, hkey, hs⟩
      obtain ⟨s', hs', hmem⟩ := h key hkey
      rw [hs, Except.ok.injEq] at hs'
      exact hs' ▸ hmem
    · intro hmem
      exact ⟨_, hmem, trimLeft_first (hkeys _ hmem) (first_append s)⟩

/-- The nodes are right exactly when every key is harmless. -/
theorem watcherLaw_iff (target : Bytes) (keys : List Bytes) (htarget : target.length < maxSize)
    (hkeys : ∀ key ∈ keys, key.length ≤ maxSize) :
    WatcherLaw target keys ↔ ∀ key ∈ keys, Harmless target keys key := by
  rw [watcherLaw_iff_pieces hkeys]
  refine forall₂_congr fun key hkey => ?_
  by_cases hin : trimStr target <:+: key
  · obtain ⟨before, behind, hfirst⟩ := exists_first hin
    rw [trimLeft_first (hkeys key hkey) hfirst]
    constructor
    · rintro ⟨s, hs, hmem⟩
      refine ⟨fun before' behind' hfirst' => ?_, fun h => absurd hin h, fun h => absurd hin h⟩
      have htrim := (trimLeft_first (hkeys key hkey) hfirst).symm.trans
        (trimLeft_first (hkeys key hkey) hfirst')
      rw [Except.ok.injEq] at hs htrim
      rwa [← htrim, hs]
    · intro h
      exact ⟨behind, rfl, h.inside before behind hfirst⟩
  · rw [trimLeft_without htarget (hkeys key hkey) hin]
    constructor
    · rintro ⟨s, hs, hmem⟩
      split at hs
      next => cases hs
      next hlen =>
        cases hs
        refine ⟨fun before behind hfirst => ?_, fun _ => Nat.le_of_not_lt hlen, fun _ => hmem⟩
        exact absurd ⟨before, behind, hfirst.1.symm⟩ hin
    · intro h
      rw [if_neg (Nat.not_lt.mpr (h.longEnough hin))]
      exact ⟨_, rfl, h.without hin⟩

/-- A key below the target is its own node. -/
theorem harmless_below {keys : List Bytes} (hkey : key ∈ keys) (h : trimStr target <+: key) :
    Harmless target keys key := by
  obtain ⟨s, rfl⟩ := h
  refine ⟨fun before behind hfirst => ?_, fun h => absurd (List.infix_append' [] _ s) h,
    fun h => absurd (List.infix_append' [] _ s) h⟩
  have hnil : before = [] := List.length_eq_zero_iff.mp (Nat.le_zero.mp (hfirst.2 [] s rfl))
  have heq := hfirst.1
  rw [hnil, List.nil_append] at heq
  rwa [← heq]

/-- Two keys below the target. -/
theorem watcherLaw_below :
    WatcherLaw (bytes "/svc") [bytes "/svc/1.2.3.4:80", bytes "/svc/1.2.3.5:80"] :=
  (watcherLaw_iff (bytes "/svc") _ (by decide) (by decide)).mpr fun key hkey => by
    refine harmless_below hkey ?_
    revert key
    decide

/-- A key that does not start with the target becomes a node, and a short one throws. -/
theorem foreign_key_becomes_node :
    ((onKeys (bytes "/svc") [bytes "/svc2/1.2.3.4:80"]).toOption.map OrderedMap.keys) =
        some [bytes "2/1.2.3.4:8"] ∧
      onKeys (bytes "/svc") [bytes "/a"] = .error .outOfRange ∧
      ¬ WatcherLaw (bytes "/svc") [bytes "/svc2/1.2.3.4:80"] ∧
      ¬ WatcherLaw (bytes "/svc") [bytes "/a"] := by
  refine ⟨by decide, rfl, ?_, ?_⟩
  · rw [watcherLaw_iff_pieces (by decide)]
    intro h
    obtain ⟨s, -, hmem⟩ := h _ (List.mem_singleton_self _)
    have hpre : trimStr (bytes "/svc") <+: bytes "/svc2/1.2.3.4:80" :=
      ⟨s, List.mem_singleton.mp hmem⟩
    exact absurd hpre (by decide)
  · rintro ⟨nodes, hnodes, -⟩
    cases hnodes

end WatcherResolver

end Sheep
