import Mathlib.Data.List.Nodup
import Mathlib.Logic.Function.Basic

/-!
# Intrusive lists

Circular doubly linked lists whose nodes carry the pointers themselves. `Links` is the memory: the
`prev` and the `next` pointer of each node, `none` for a null pointer. The operations follow the
pointer assignments one by one, and are `none` where a null pointer is dereferenced.

* `Ring l head xs`: the pointers link `head` and the nodes `xs` into a circle.
* `Rings l head xs`: a family of rings that share no node. `Rings.move`: to remove a node from its
  ring and to insert it behind a head makes it the first node of that ring.
* `Ring.getAllNodes`, `Ring.front`: what walking along the `next` pointers finds.
-/

namespace Sheep

universe u v

structure Links (N : Type u) where
  prev : N → Option N
  next : N → Option N

namespace Links

variable {N : Type u} [DecidableEq N]

/-- No node is linked. -/
def null : Links N := ⟨fun _ => none, fun _ => none⟩

def setPrev (l : Links N) (n : N) (p : Option N) : Links N :=
  { l with prev := Function.update l.prev n p }

def setNext (l : Links N) (n : N) (p : Option N) : Links N :=
  { l with next := Function.update l.next n p }

def init (l : Links N) (head : N) : Links N := (l.setPrev head (some head)).setNext head (some head)

def insert (l : Links N) (head node : N) : Option (Links N) :=
  let l := l.setPrev node (some head)
  let l := l.setNext node (l.next head)
  (l.next head).map fun first => (l.setPrev first (some node)).setNext head (some node)

def remove (l : Links N) (node : N) : Option (Links N) :=
  (l.prev node).bind fun p =>
    let l := l.setNext p (l.next node)
    (l.next node).map fun n => l.setPrev n (l.prev node)

def isEmpty (l : Links N) (head : N) : Bool := l.next head = some head

def front (l : Links N) (head : N) : Option N := if l.isEmpty head then none else l.next head

/-- The nodes from `cur` on, up to `head`; `none` if there are more than the fuel allows. -/
def walk (l : Links N) (head : N) : Nat → Option N → Option (List N)
  | _, none => none
  | 0, some cur => if cur = head then some [] else none
  | fuel + 1, some cur =>
    if cur = head then some [] else (l.walk head fuel (l.next cur)).map (cur :: ·)

def getAllNodes (l : Links N) (head : N) (fuel : Nat) : Option (List N) :=
  l.walk head fuel (l.next head)

/-! ## Segments -/

/-- The pointers lead from `a` over the nodes `xs` to `b`, and back. -/
def Seg (l : Links N) : N → List N → N → Prop
  | a, [], b => l.next a = some b ∧ l.prev b = some a
  | a, x :: xs, b => (l.next a = some x ∧ l.prev x = some a) ∧ l.Seg x xs b

variable {l l' : Links N} {a b c node head p n : N} {xs ys : List N}

omit [DecidableEq N] in
theorem Seg.frame (h : l.Seg a xs b) (hnext : ∀ n ∈ a :: xs, l'.next n = l.next n)
    (hprev : ∀ n ∈ b :: xs, l'.prev n = l.prev n) : l'.Seg a xs b := by
  induction xs generalizing a with
  | nil => exact ⟨(hnext a List.mem_cons_self).trans h.1, (hprev b List.mem_cons_self).trans h.2⟩
  | cons x xs ih =>
    obtain ⟨⟨h1, h2⟩, h3⟩ := h
    refine ⟨⟨(hnext a List.mem_cons_self).trans h1, (hprev x (by simp)).trans h2⟩, ih h3 ?_ ?_⟩
    · exact fun n hn => hnext n (List.mem_cons_of_mem a hn)
    · intro n hn
      refine hprev n ?_
      rcases List.mem_cons.mp hn with rfl | hn
      · exact List.mem_cons_self
      · exact List.mem_cons_of_mem b (List.mem_cons_of_mem x hn)

omit [DecidableEq N] in
/-- A segment leaves no choice for the pointers in it. -/
theorem Seg.agree (h : l.Seg a xs b) (h' : l'.Seg a xs b) :
    (∀ n ∈ a :: xs, l'.next n = l.next n) ∧ ∀ n ∈ b :: xs, l'.prev n = l.prev n := by
  induction xs generalizing a with
  | nil =>
    refine ⟨fun n hn => ?_, fun n hn => ?_⟩
    · rw [List.mem_singleton.mp hn, h.1, h'.1]
    · rw [List.mem_singleton.mp hn, h.2, h'.2]
  | cons x xs ih =>
    obtain ⟨hnext, hprev⟩ := ih h.2 h'.2
    refine ⟨fun n hn => ?_, fun n hn => ?_⟩
    · rcases List.mem_cons.mp hn with rfl | hn
      · rw [h.1.1, h'.1.1]
      · exact hnext n hn
    · rcases List.mem_cons.mp hn with rfl | hn
      · exact hprev n List.mem_cons_self
      · rcases List.mem_cons.mp hn with rfl | hn
        · rw [h.1.2, h'.1.2]
        · exact hprev n (List.mem_cons_of_mem b hn)

omit [DecidableEq N] in
/-- The pointers of an inner node. -/
theorem Seg.mid (h : l.Seg a (xs ++ b :: ys) c) :
    (∃ p ∈ a :: xs, l.prev b = some p) ∧ ∃ n ∈ ys ++ [c], l.next b = some n := by
  induction xs generalizing a with
  | nil =>
    refine ⟨⟨a, List.mem_cons_self, h.1.2⟩, ?_⟩
    cases ys with
    | nil => exact ⟨c, List.mem_cons_self, h.2.1⟩
    | cons y ys => exact ⟨y, List.mem_cons_self, h.2.1.1⟩
  | cons x xs ih =>
    obtain ⟨⟨p, hp, hprev⟩, hnext⟩ := ih h.2
    exact ⟨⟨p, List.mem_cons_of_mem a hp, hprev⟩, hnext⟩

/-- The neighbours of an inner node are linked to each other. -/
theorem Seg.unlink (h : l.Seg a (xs ++ b :: ys) c) (hprev : l.prev b = some p)
    (hnext : l.next b = some n) (hleft : (a :: (xs ++ b :: ys)).Nodup)
    (hright : (xs ++ b :: ys ++ [c]).Nodup) :
    ((l.setNext p (some n)).setPrev n (some p)).Seg a (xs ++ ys) c := by
  induction xs generalizing a with
  | nil =>
    obtain ⟨⟨-, hb⟩, h⟩ := h
    obtain rfl : p = a := Option.some.inj (hprev.symm.trans hb)
    cases ys with
    | nil =>
      obtain rfl : n = c := Option.some.inj (hnext.symm.trans h.1)
      exact ⟨Function.update_self .., Function.update_self ..⟩
    | cons y ys =>
      obtain ⟨⟨hy, -⟩, h⟩ := h
      obtain rfl : n = y := Option.some.inj (hnext.symm.trans hy)
      refine ⟨⟨Function.update_self .., Function.update_self ..⟩, h.frame ?_ ?_⟩
      · intro m hm
        refine Function.update_of_ne ?_ ..
        rintro rfl
        exact (List.nodup_cons.mp hleft).1 (List.mem_cons_of_mem b hm)
      · intro m hm
        refine Function.update_of_ne ?_ ..
        rintro rfl
        have hnot := (List.nodup_cons.mp (List.nodup_cons.mp hright).2).1
        rcases List.mem_cons.mp hm with rfl | hm
        · exact hnot (List.mem_append_right _ List.mem_cons_self)
        · exact hnot (List.mem_append_left _ hm)
  | cons x xs ih =>
    obtain ⟨⟨h1, h2⟩, h⟩ := h
    obtain ⟨⟨p', hp', hb⟩, n', hn', hb'⟩ := h.mid
    obtain rfl : p' = p := Option.some.inj (hb.symm.trans hprev)
    obtain rfl : n' = n := Option.some.inj (hb'.symm.trans hnext)
    obtain ⟨ha, hleft⟩ := List.nodup_cons.mp hleft
    obtain ⟨hx, hright⟩ := List.nodup_cons.mp hright
    refine ⟨⟨(Function.update_of_ne ?_ ..).trans h1, (Function.update_of_ne ?_ ..).trans h2⟩,
      ih h hleft hright⟩
    · rintro rfl
      rcases List.mem_cons.mp hp' with rfl | hp'
      · exact ha List.mem_cons_self
      · exact ha (List.mem_cons_of_mem x (List.mem_append_left _ hp'))
    · rintro rfl
      have hmem : x ∈ xs ++ b :: ys ++ [c] := by
        rw [List.append_assoc]
        exact List.mem_append_right xs (List.mem_cons_of_mem b hn')
      exact hx hmem

/-! ## Rings -/

/-- The nodes `head` and `xs` form a circle. -/
structure Ring (l : Links N) (head : N) (xs : List N) : Prop where
  seg : l.Seg head xs head
  nodup : (head :: xs).Nodup

/-- The two memories differ at most at the nodes `ns`. -/
def SameOff (l l' : Links N) (ns : List N) : Prop :=
  ∀ n, n ∉ ns → l'.next n = l.next n ∧ l'.prev n = l.prev n

omit [DecidableEq N] in
theorem Ring.frame {ns : List N} (h : l.Ring head xs) (hsame : l.SameOff l' ns)
    (hoff : ∀ n ∈ head :: xs, n ∉ ns) : l'.Ring head xs :=
  ⟨h.seg.frame (fun n hn => (hsame n (hoff n hn)).1) fun n hn => (hsame n (hoff n hn)).2, h.nodup⟩

omit [DecidableEq N] in
/-- In two memories that have the same ring, its nodes have the same pointers. -/
theorem Ring.agree (h : l.Ring head xs) (h' : l'.Ring head xs) :
    ∀ n ∈ head :: xs, l'.next n = l.next n ∧ l'.prev n = l.prev n := by
  obtain ⟨hnext, hprev⟩ := h.seg.agree h'.seg
  exact fun n hn => ⟨hnext n hn, hprev n hn⟩

theorem ring_init : (l.init head).Ring head [] :=
  ⟨⟨Function.update_self .., Function.update_self ..⟩, List.nodup_singleton head⟩

theorem sameOff_init : l.SameOff (l.init head) [head] := by
  intro n hn
  have hne : n ≠ head := fun h => hn (h ▸ List.mem_cons_self)
  exact ⟨Function.update_of_ne hne .., Function.update_of_ne hne ..⟩

theorem Ring.insert (h : l.Ring head xs) (hnode : node ∉ head :: xs) :
    ∃ l', l.insert head node = some l' ∧ l'.Ring head (node :: xs) ∧
      l.SameOff l' (node :: head :: xs) := by
  have hne : head ≠ node := fun heq => hnode (heq ▸ List.mem_cons_self)
  have hnodup : (head :: node :: xs).Nodup := by
    have hn := List.nodup_cons.mp h.nodup
    refine List.nodup_cons.mpr ⟨?_, List.nodup_cons.mpr ⟨?_, hn.2⟩⟩
    · exact fun hm => (List.mem_cons.mp hm).elim hne hn.1
    · exact fun hm => hnode (List.mem_cons_of_mem head hm)
  obtain ⟨first, hfirst, hmem⟩ : ∃ first, l.next head = some first ∧ first ∈ head :: xs := by
    cases xs with
    | nil => exact ⟨head, h.seg.1, List.mem_cons_self⟩
    | cons x xs => exact ⟨x, h.seg.1.1, List.mem_cons_of_mem head List.mem_cons_self⟩
  have hread : ∀ p : Option N, Function.update l.next node p head = l.next head := fun p =>
    Function.update_of_ne hne ..
  unfold Links.insert
  simp only [setPrev, setNext, hread, hfirst, Option.map_some, Option.some.injEq, exists_eq_left']
  refine ⟨⟨?_, hnodup⟩, fun n hn => ⟨?_, ?_⟩⟩
  · have hfne : first ≠ node := fun heq => hnode (heq ▸ hmem)
    refine ⟨⟨Function.update_self .., ?_⟩, ?_⟩
    · exact (Function.update_of_ne hfne.symm ..).trans (Function.update_self ..)
    cases xs with
    | nil =>
      -- the head of an empty ring is its own neighbour
      obtain rfl : first = head := Option.some.inj (hfirst.symm.trans h.seg.1)
      refine ⟨?_, Function.update_self ..⟩
      exact (Function.update_of_ne hne.symm ..).trans (Function.update_self ..)
    | cons x xs =>
      obtain ⟨⟨hx, -⟩, hrest⟩ := h.seg
      obtain rfl : first = x := Option.some.inj (hfirst.symm.trans hx)
      refine ⟨⟨?_, Function.update_self ..⟩, hrest.frame ?_ ?_⟩
      · exact (Function.update_of_ne hne.symm ..).trans (Function.update_self ..)
      · intro m hm
        have h1 : m ≠ head := by
          rintro rfl
          exact (List.nodup_cons.mp h.nodup).1 hm
        have h2 : m ≠ node := by
          rintro rfl
          exact hnode (List.mem_cons_of_mem head hm)
        exact (Function.update_of_ne h1 ..).trans (Function.update_of_ne h2 ..)
      · intro m hm
        have h1 : m ≠ first := by
          rintro rfl
          rcases List.mem_cons.mp hm with rfl | hm
          · exact (List.nodup_cons.mp h.nodup).1 List.mem_cons_self
          · exact (List.nodup_cons.mp (List.nodup_cons.mp h.nodup).2).1 hm
        have h2 : m ≠ node := by
          rintro rfl
          rcases List.mem_cons.mp hm with rfl | hm
          · exact hnode List.mem_cons_self
          · exact hnode (List.mem_cons_of_mem head (List.mem_cons_of_mem first hm))
        exact (Function.update_of_ne h1 ..).trans (Function.update_of_ne h2 ..)
  · have h1 : n ≠ head := by
      rintro rfl
      exact hn (List.mem_cons_of_mem node List.mem_cons_self)
    have h2 : n ≠ node := by
      rintro rfl
      exact hn List.mem_cons_self
    exact (Function.update_of_ne h1 ..).trans (Function.update_of_ne h2 ..)
  · have h1 : n ≠ first := by
      rintro rfl
      exact hn (List.mem_cons_of_mem node hmem)
    have h2 : n ≠ node := by
      rintro rfl
      exact hn List.mem_cons_self
    exact (Function.update_of_ne h1 ..).trans (Function.update_of_ne h2 ..)

theorem Ring.remove (h : l.Ring head (xs ++ node :: ys)) :
    ∃ l', l.remove node = some l' ∧ l'.Ring head (xs ++ ys) ∧
      l.SameOff l' (head :: (xs ++ ys)) := by
  obtain ⟨⟨p, hp, hprev⟩, n, hn, hnext⟩ := h.seg.mid
  have hnode : node ∉ head :: (xs ++ ys) := by
    have hperm : (node :: (head :: (xs ++ ys))).Perm (head :: (xs ++ node :: ys)) :=
      (List.Perm.swap head node _).trans (List.perm_middle.symm.cons head)
    exact (List.nodup_cons.mp (hperm.nodup_iff.mpr h.nodup)).1
  have hsub : (head :: (xs ++ ys)).Sublist (head :: (xs ++ node :: ys)) :=
    (List.Sublist.append_left (List.sublist_cons_self node ys) xs).cons_cons head
  have hp' : p ∈ head :: (xs ++ ys) := by
    rcases List.mem_cons.mp hp with rfl | hp
    · exact List.mem_cons_self
    · exact List.mem_cons_of_mem head (List.mem_append_left ys hp)
  have hn' : n ∈ head :: (xs ++ ys) := by
    rcases List.mem_append.mp hn with hn | hn
    · exact List.mem_cons_of_mem head (List.mem_append_right xs hn)
    · rw [List.mem_singleton.mp hn]
      exact List.mem_cons_self
  have hread : Function.update l.next p (some n) node = some n := by
    refine (Function.update_of_ne ?_ ..).trans hnext
    rintro rfl
    exact hnode hp'
  unfold Links.remove
  simp only [hprev, hnext, Option.bind_some, setNext, hread, Option.map_some, Option.some.injEq,
    exists_eq_left']
  refine ⟨⟨?_, hsub.nodup h.nodup⟩, fun m hm => ⟨?_, ?_⟩⟩
  · refine h.seg.unlink hprev hnext h.nodup ?_
    exact (List.perm_append_singleton head _).nodup_iff.mpr h.nodup
  · have hne : m ≠ p := fun heq => hm (heq ▸ hp')
    exact Function.update_of_ne hne ..
  · have hne : m ≠ n := fun heq => hm (heq ▸ hn')
    exact Function.update_of_ne hne ..

theorem Ring.isEmpty_iff (h : l.Ring head xs) : l.isEmpty head = true ↔ xs = [] := by
  unfold isEmpty
  cases xs with
  | nil => simp [h.seg.1]
  | cons x xs =>
    have hne : x ≠ head := by
      rintro rfl
      exact (List.nodup_cons.mp h.nodup).1 List.mem_cons_self
    simp [h.seg.1.1, hne]

theorem Ring.front (h : l.Ring head xs) : l.front head = xs.head? := by
  unfold Links.front
  cases xs with
  | nil => rw [if_pos (h.isEmpty_iff.mpr rfl)]; rfl
  | cons x xs => rw [if_neg fun he => List.cons_ne_nil x xs (h.isEmpty_iff.mp he), h.seg.1.1]; rfl

theorem Seg.walk (h : l.Seg a xs head) (hnot : head ∉ xs) {fuel : Nat} (hfuel : xs.length ≤ fuel) :
    l.walk head fuel (l.next a) = some xs := by
  induction xs generalizing a fuel with
  | nil =>
    rw [h.1]
    cases fuel <;> exact if_pos rfl
  | cons x xs ih =>
    obtain ⟨⟨hx, -⟩, h⟩ := h
    cases fuel with
    | zero => cases hfuel
    | succ fuel =>
      have hne : x ≠ head := fun heq => hnot (heq ▸ List.mem_cons_self)
      rw [hx, Links.walk, if_neg hne,
        ih h (fun hm => hnot (List.mem_cons_of_mem x hm)) (Nat.le_of_succ_le_succ hfuel)]
      rfl

/-- `IntrusiveListGetAllNodes` comes back to the head. -/
theorem Ring.getAllNodes (h : l.Ring head xs) {fuel : Nat} (hfuel : xs.length ≤ fuel) :
    l.getAllNodes head fuel = some xs :=
  h.seg.walk (List.nodup_cons.mp h.nodup).1 hfuel

/-! ## Families of rings -/

variable {H : Type v} [DecidableEq H] {heads : H → N} {lists : H → List N} {h : H}

/-- Rings that share no node. -/
structure Rings (l : Links N) (heads : H → N) (lists : H → List N) : Prop where
  ring : ∀ h, l.Ring (heads h) (lists h)
  disjoint : ∀ h h', h ≠ h' → (heads h :: lists h).Disjoint (heads h' :: lists h')

omit [DecidableEq N] [DecidableEq H] in
theorem Rings.not_mem (hr : l.Rings heads lists) (hmem : node ∈ lists h) {h' : H} (hne : h' ≠ h) :
    node ∉ lists h' := fun hmem' =>
  hr.disjoint h h' hne.symm (List.mem_cons_of_mem _ hmem) (List.mem_cons_of_mem _ hmem')

theorem Rings.remove (hr : l.Rings heads lists) (hmem : node ∈ lists h) :
    ∃ l', l.remove node = some l' ∧
      l'.Rings heads (fun h' => (lists h').filter (· ≠ node)) := by
  obtain ⟨xs, ys, hsplit⟩ := List.append_of_mem hmem
  have hring := hr.ring h
  rw [hsplit] at hring
  have hfilter : (lists h).filter (· ≠ node) = xs ++ ys := by
    have hnodup := (List.nodup_cons.mp hring.nodup).2
    have hkeep : ∀ zs : List N, node ∉ zs → zs.filter (· ≠ node) = zs := by
      intro zs hz
      refine List.filter_eq_self.mpr fun z hm => decide_eq_true ?_
      rintro rfl
      exact hz hm
    obtain ⟨-, hys, hdisj⟩ := List.nodup_append.mp hnodup
    rw [hsplit, List.filter_append, hkeep xs fun hm => hdisj node hm node List.mem_cons_self rfl,
      List.filter_cons_of_neg (by simp), hkeep ys (List.nodup_cons.mp hys).1]
  obtain ⟨l', hl', hring', hsame⟩ := hring.remove
  have hsub : ∀ h', ∀ n ∈ heads h' :: (lists h').filter (· ≠ node), n ∈ heads h' :: lists h' :=
    fun h' n hn => (List.mem_cons.mp hn).elim (fun heq => heq ▸ List.mem_cons_self)
      fun hn => List.mem_cons_of_mem _ (List.mem_of_mem_filter hn)
  refine ⟨l', hl', fun h' => ?_, fun h1 h2 hne n hn1 hn2 =>
    hr.disjoint h1 h2 hne (hsub h1 n hn1) (hsub h2 n hn2)⟩
  by_cases heq : h' = h
  · subst heq
    rw [hfilter]
    exact hring'
  · have hkeep : (lists h').filter (· ≠ node) = lists h' := by
      refine List.filter_eq_self.mpr fun z hm => decide_eq_true ?_
      rintro rfl
      exact hr.not_mem hmem heq hm
    rw [hkeep]
    refine (hr.ring h').frame hsame fun n hn hn' => hr.disjoint h' h heq hn ?_
    rcases List.mem_cons.mp hn' with rfl | hn'
    · exact List.mem_cons_self
    · refine List.mem_cons_of_mem _ ?_
      rw [← hfilter] at hn'
      exact List.mem_of_mem_filter hn'

theorem Rings.insert (hr : l.Rings heads lists) (hnew : ∀ h', node ∉ heads h' :: lists h') (h : H) :
    ∃ l', l.insert (heads h) node = some l' ∧
      l'.Rings heads (Function.update lists h (node :: lists h)) := by
  obtain ⟨l', hl', hring', hsame⟩ := (hr.ring h).insert (hnew h)
  have hcases : ∀ h', (h' = h ∧ Function.update lists h (node :: lists h) h' = node :: lists h) ∨
      (h' ≠ h ∧ Function.update lists h (node :: lists h) h' = lists h') := by
    intro h'
    by_cases heq : h' = h
    · subst heq
      exact .inl ⟨rfl, Function.update_self ..⟩
    · exact .inr ⟨heq, Function.update_of_ne heq ..⟩
  have hmem : ∀ h' n, n ∈ heads h' :: Function.update lists h (node :: lists h) h' →
      (h' = h ∧ n = node) ∨ n ∈ heads h' :: lists h' := by
    intro h' n hn
    rcases hcases h' with ⟨rfl, heq⟩ | ⟨-, heq⟩ <;> rw [heq] at hn
    · rcases List.mem_cons.mp hn with rfl | hn
      · exact .inr List.mem_cons_self
      · rcases List.mem_cons.mp hn with rfl | hn
        · exact .inl ⟨rfl, rfl⟩
        · exact .inr (List.mem_cons_of_mem _ hn)
    · exact .inr hn
  refine ⟨l', hl', fun h' => ?_, fun h1 h2 hne n hn1 hn2 => ?_⟩
  · rcases hcases h' with ⟨rfl, heq⟩ | ⟨hne, heq⟩ <;> rw [heq]
    · exact hring'
    · refine (hr.ring h').frame hsame fun n hn hn' => ?_
      rcases List.mem_cons.mp hn' with rfl | hn'
      · exact hnew h' hn
      · exact hr.disjoint h' h hne hn hn'
  · rcases hmem h1 n hn1 with ⟨heq1, hnode⟩ | hn1
    · rcases hmem h2 n hn2 with ⟨heq2, -⟩ | hn2
      · exact hne (heq1.trans heq2.symm)
      · exact hnew h2 (hnode ▸ hn2)
    · rcases hmem h2 n hn2 with ⟨-, hnode⟩ | hn2
      · exact hnew h1 (hnode ▸ hn1)
      · exact hr.disjoint h1 h2 hne hn1 hn2

/-- A node is moved behind a head. -/
theorem Rings.move (hr : l.Rings heads lists) (hmem : node ∈ lists h) (h' : H) :
    ∃ l', ((l.remove node).bind fun l => l.insert (heads h') node) = some l' ∧
      l'.Rings heads (Function.update (fun h => (lists h).filter (· ≠ node)) h'
        (node :: (lists h').filter (· ≠ node))) := by
  obtain ⟨m, hm, hmr⟩ := hr.remove hmem
  have hnew : ∀ k, node ∉ heads k :: (lists k).filter (· ≠ node) := by
    intro k hk
    rcases List.mem_cons.mp hk with heq | hk
    · rcases eq_or_ne k h with rfl | hkh
      · exact (List.nodup_cons.mp (hr.ring k).nodup).1 (heq ▸ hmem)
      · exact hr.disjoint h k (Ne.symm hkh) (List.mem_cons_of_mem _ hmem)
          (heq ▸ List.mem_cons_self)
    · simp at hk
  obtain ⟨l', hl', hr'⟩ := hmr.insert hnew h'
  exact ⟨l', by rw [hm]; exact hl', hr'⟩

end Links

end Sheep
