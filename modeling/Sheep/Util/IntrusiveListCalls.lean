import Mathlib.Data.List.Induction
import Sheep.Lib.IntrusiveList

/-!
# Calls on intrusive lists

`util/intrusive_list.h` over any number of lists that share one type of nodes: the heads are
initialised, and then `IntrusiveListInsert` and `IntrusiveListRemove` are called in any order.
`ValidCalls` is what the callers promise: a node is inserted while it is in no list, and removed
while it is in one. `IntrusiveListRemove` is not told in which.

`contents` is the list of a head as the calls say it: what was inserted and not removed since,
newest first. `lists_run`: no call dereferences a null pointer, and the pointers of every head form
a circle with these nodes.
-/

namespace Sheep

universe u

variable {N : Type u} [DecidableEq N]

inductive LinkCall (N : Type u)
  | insert (head node : N)
  | remove (node : N)

namespace LinkCall

/-- The list of a head after a call. -/
def apply (head : N) (nodes : List N) : LinkCall N → List N
  | .insert h node => if h = head then node :: nodes else nodes
  | .remove node => nodes.filter (· ≠ node)

/-- The list of a head: the nodes inserted into it and not removed since, newest first. -/
def contents (head : N) (calls : List (LinkCall N)) : List N := calls.foldl (apply head) []

/-- The lists that a call works on. -/
def Touches (before : List (LinkCall N)) (head : N) : LinkCall N → Prop
  | .insert h _ => h = head
  | .remove node => node ∈ contents head before

/-- What a caller promises, after the calls before. -/
def Valid (heads : List N) (before : List (LinkCall N)) : LinkCall N → Prop
  | .insert head node =>
    head ∈ heads ∧ node ∉ heads ∧ ∀ h ∈ heads, node ∉ contents h before
  | .remove node => ∃ h ∈ heads, node ∈ contents h before

end LinkCall

open LinkCall

/-- Every call is valid where it is made. -/
def ValidCalls (heads : List N) (calls : List (LinkCall N)) : Prop :=
  ∀ before c after, calls = before ++ c :: after → c.Valid heads before

namespace Links

/-- `IntrusiveListInit` of each head. -/
def initAll (l : Links N) (heads : List N) : Links N := heads.foldl init l

def call (l : Links N) : LinkCall N → Option (Links N)
  | .insert head node => l.insert head node
  | .remove node => l.remove node

/-- The calls in turn; `none` if one dereferences a null pointer. -/
def calls (l : Links N) (cs : List (LinkCall N)) : Option (Links N) := cs.foldlM call l

end Links

/-! ## What the calls say -/

theorem contents_append (head : N) (before : List (LinkCall N)) (c : LinkCall N) :
    contents head (before ++ [c]) = c.apply head (contents head before) := by
  unfold contents
  rw [List.foldl_append]
  rfl

theorem contents_untouched {before : List (LinkCall N)} {c : LinkCall N} {head : N}
    (h : ¬ c.Touches before head) : contents head (before ++ [c]) = contents head before := by
  rw [contents_append]
  cases c with
  | insert h' node => exact if_neg h
  | remove node =>
    refine List.filter_eq_self.mpr fun n hn => decide_eq_true ?_
    rintro rfl
    exact h hn

/-- A node is in the list of a head if it was inserted there and not removed since. -/
theorem mem_contents_iff (head node : N) (calls : List (LinkCall N)) :
    node ∈ contents head calls ↔
      ∃ before after, calls = before ++ .insert head node :: after ∧ .remove node ∉ after := by
  induction calls using List.reverseRecOn with
  | nil =>
    refine iff_of_false List.not_mem_nil ?_
    rintro ⟨before, after, h, -⟩
    exact List.append_ne_nil_of_right_ne_nil before (List.cons_ne_nil _ after) h.symm
  | append_singleton calls c ih =>
    have hlater : (∃ before after, calls ++ [c] = before ++ .insert head node :: after ∧
        .remove node ∉ after) ↔ c = .insert head node ∨
          (node ∈ contents head calls ∧ c ≠ .remove node) := by
      rw [ih]
      constructor
      · rintro ⟨before, after, h, hnot⟩
        rcases List.eq_nil_or_concat after with rfl | ⟨after, c', rfl⟩
        · exact .inl (List.append_inj_right' h rfl |> List.singleton_inj.mp)
        · rw [List.concat_eq_append] at h hnot
          rw [← List.cons_append, ← List.append_assoc] at h
          obtain ⟨rfl, hc⟩ := List.append_inj' h rfl
          obtain rfl := List.singleton_inj.mp hc
          rw [List.mem_append, not_or] at hnot
          refine .inr ⟨⟨before, after, rfl, hnot.1⟩, ?_⟩
          rintro rfl
          exact hnot.2 List.mem_cons_self
      · rintro (rfl | ⟨⟨before, after, rfl, hnot⟩, hc⟩)
        · exact ⟨calls, [], rfl, List.not_mem_nil⟩
        · refine ⟨before, after ++ [c], by simp, ?_⟩
          rw [List.mem_append, not_or, List.mem_singleton]
          exact ⟨hnot, hc.symm⟩
    rw [hlater, contents_append]
    cases c with
    | insert h n =>
      simp only [LinkCall.apply, LinkCall.insert.injEq, ne_eq, reduceCtorEq, not_false_eq_true,
        and_true]
      split
      next heq => simp [heq, eq_comm]
      next hne => simp [hne]
    | remove n =>
      simp only [LinkCall.apply, List.mem_filter, decide_eq_true_eq, ne_eq, LinkCall.remove.injEq,
        reduceCtorEq, false_or]
      exact and_congr_right fun _ => not_congr eq_comm

/-! ## What the pointers say -/

theorem validCalls_nil (heads : List N) : ValidCalls heads [] := by
  intro before c after h
  exact absurd h.symm (List.append_ne_nil_of_right_ne_nil before (List.cons_ne_nil c after))

theorem validCalls_append {heads : List N} {calls : List (LinkCall N)} {c : LinkCall N} :
    ValidCalls heads (calls ++ [c]) ↔ ValidCalls heads calls ∧ c.Valid heads calls := by
  constructor
  · intro h
    refine ⟨fun before c' after hsplit => ?_, h calls c [] rfl⟩
    exact h before c' (after ++ [c]) (by rw [hsplit, List.append_assoc, List.cons_append])
  · rintro ⟨h, hc⟩ before c' after hsplit
    rcases List.eq_nil_or_concat after with rfl | ⟨after, c1, rfl⟩
    · obtain ⟨rfl, heq⟩ := List.append_inj' hsplit rfl
      obtain rfl := List.singleton_inj.mp heq
      exact hc
    · rw [List.concat_eq_append, ← List.cons_append, ← List.append_assoc] at hsplit
      exact h before c' after (List.append_inj' hsplit rfl).1

namespace Links

variable {l l' : Links N} {heads : List N}

/-- After the heads are initialised, whatever the memory was, every list is empty. -/
theorem initAll_ring (l : Links N) (heads : List N) {head : N} (h : head ∈ heads) :
    (l.initAll heads).Ring head [] := by
  induction heads using List.reverseRecOn with
  | nil => cases h
  | append_singleton heads h' ih =>
    have hlast : l.initAll (heads ++ [h']) = (l.initAll heads).init h' := by
      unfold initAll
      rw [List.foldl_append]
      rfl
    rw [hlast]
    by_cases heq : head = h'
    · rw [heq]
      exact ring_init
    · have hbefore : head ∈ heads :=
        (List.mem_append.mp h).resolve_right fun hm => heq (List.mem_singleton.mp hm)
      refine (ih hbefore).frame sameOff_init fun n hn hn' => heq ?_
      rw [← List.mem_singleton.mp hn, List.mem_singleton.mp hn']

theorem calls_append {calls : List (LinkCall N)} {c : LinkCall N}
    (h : l.calls calls = some l') : l.calls (calls ++ [c]) = l'.call c := by
  unfold Links.calls at h ⊢
  rw [List.foldlM_append, h]
  simp

/-- A valid call goes through, and the rings are what it says. -/
theorem call_rings {before : List (LinkCall N)} {c : LinkCall N}
    (hr : l.Rings (fun h : {h // h ∈ heads} => h.1) fun h => contents h.1 before)
    (hc : c.Valid heads before) :
    ∃ l', l.call c = some l' ∧
      l'.Rings (fun h : {h // h ∈ heads} => h.1) fun h => contents h.1 (before ++ [c]) := by
  cases c with
  | insert head node =>
    obtain ⟨hhead, hnode, hnot⟩ := hc
    have hnew : ∀ h : {h // h ∈ heads}, node ∉ h.1 :: contents h.1 before := by
      intro h hm
      rcases List.mem_cons.mp hm with rfl | hm
      · exact hnode h.2
      · exact hnot h.1 h.2 hm
    obtain ⟨l', hl', hr'⟩ := hr.insert hnew ⟨head, hhead⟩
    refine ⟨l', hl', ?_⟩
    have hlists : (fun h : {h // h ∈ heads} => contents h.1 (before ++ [.insert head node])) =
        Function.update (fun h : {h // h ∈ heads} => contents h.1 before) ⟨head, hhead⟩
          (node :: contents head before) := by
      funext h
      rw [contents_append]
      by_cases heq : h = ⟨head, hhead⟩
      · rw [heq, Function.update_self]
        exact if_pos rfl
      · rw [Function.update_of_ne heq]
        exact if_neg fun hh => heq (Subtype.ext hh.symm)
    rw [hlists]
    exact hr'
  | remove node =>
    obtain ⟨h, hh, hm⟩ := hc
    have hmem : node ∈ (fun h : {h // h ∈ heads} => contents h.1 before) ⟨h, hh⟩ := hm
    obtain ⟨l', hl', hr'⟩ := hr.remove hmem
    refine ⟨l', hl', ?_⟩
    simp only [contents_append, LinkCall.apply]
    exact hr'

/-- Valid calls go through, and the rings are what they say. -/
theorem calls_rings (l : Links N) {calls : List (LinkCall N)} (hvalid : ValidCalls heads calls) :
    ∃ l', (l.initAll heads).calls calls = some l' ∧
      l'.Rings (fun h : {h // h ∈ heads} => h.1) fun h => contents h.1 calls := by
  induction calls using List.reverseRecOn with
  | nil =>
    refine ⟨_, rfl, fun h => initAll_ring l heads h.2, fun h h' hne n hn hn' => hne ?_⟩
    exact Subtype.ext ((List.mem_singleton.mp hn).symm.trans (List.mem_singleton.mp hn'))
  | append_singleton calls c ih =>
    obtain ⟨hcalls, hc⟩ := validCalls_append.mp hvalid
    obtain ⟨l1, hl1, hr⟩ := ih hcalls
    obtain ⟨l', hl', hr'⟩ := call_rings hr hc
    exact ⟨l', (calls_append hl1).trans hl', hr'⟩

/-- What the pointers are after the calls. -/
structure AreLists (l : Links N) (heads : List N) (calls : List (LinkCall N)) : Prop where
  ring : ∀ head ∈ heads, l.Ring head (contents head calls)
  disjoint : ∀ head ∈ heads, ∀ head' ∈ heads, head ≠ head' →
    (head :: contents head calls).Disjoint (head' :: contents head' calls)
  getAllNodes : ∀ head ∈ heads, ∀ fuel, (contents head calls).length ≤ fuel →
    l.getAllNodes head fuel = some (contents head calls)
  inserted : ∀ head ∈ heads, ∀ node, node ∈ contents head calls ↔
    ∃ before after, calls = before ++ .insert head node :: after ∧ .remove node ∉ after

/-- The lists that a call does not work on have their nodes and all their pointers as before. -/
def OthersUnchanged (l l' : Links N) (heads : List N) (before : List (LinkCall N))
    (c : LinkCall N) : Prop :=
  ∀ head ∈ heads, ¬ c.Touches before head →
    contents head (before ++ [c]) = contents head before ∧
      ∀ n ∈ head :: contents head before, l'.next n = l.next n ∧ l'.prev n = l.prev n

/-- Whatever was in the memory: after the heads are initialised, a sequence of valid calls goes
through, every list is the circle that the calls say, and walking along it ends with these nodes;
and the last call leaves the other lists alone. -/
theorem lists_run (l : Links N) (heads : List N) (calls : List (LinkCall N))
    (hvalid : ValidCalls heads calls) :
    ∃ l', (l.initAll heads).calls calls = some l' ∧ l'.AreLists heads calls ∧
      ∀ before c, calls = before ++ [c] →
        ∃ l1, (l.initAll heads).calls before = some l1 ∧ l1.call c = some l' ∧
          l1.OthersUnchanged l' heads before c := by
  obtain ⟨l', hl', hr⟩ := calls_rings l hvalid
  refine ⟨l', hl', ⟨?_, ?_, ?_, ?_⟩, ?_⟩
  · exact fun head h => hr.ring ⟨head, h⟩
  · intro head h head' h' hne
    exact hr.disjoint ⟨head, h⟩ ⟨head', h'⟩ fun heq => hne (congrArg Subtype.val heq)
  · exact fun head h fuel hfuel => (hr.ring ⟨head, h⟩).getAllNodes hfuel
  · exact fun head _ node => mem_contents_iff head node calls
  · rintro before c rfl
    obtain ⟨l1, hl1, hr1⟩ := calls_rings l (validCalls_append.mp hvalid).1
    refine ⟨l1, hl1, (calls_append hl1).symm.trans hl', fun head h hnot => ?_⟩
    have hsame := contents_untouched hnot
    have hring := hr.ring ⟨head, h⟩
    rw [hsame] at hring
    exact ⟨hsame, (hr1.ring ⟨head, h⟩).agree hring⟩

/-- Two lists; a node is removed from one and inserted into the other. -/
theorem lists_run_two :
    ∃ l', ((null : Links Nat).initAll [0, 1]).calls
        [.insert 0 2, .insert 1 3, .insert 0 4, .remove 2, .insert 1 2] = some l' ∧
      l'.getAllNodes 0 1 = some [4] ∧ l'.getAllNodes 1 2 = some [2, 3] := by
  have h1 : ValidCalls [0, 1] ([] ++ [.insert 0 2]) :=
    validCalls_append.mpr ⟨validCalls_nil _, by decide, by decide, by decide⟩
  have h2 : ValidCalls [0, 1] ([.insert 0 2] ++ [.insert 1 3]) :=
    validCalls_append.mpr ⟨h1, by decide, by decide, by decide⟩
  have h3 : ValidCalls [0, 1] ([.insert 0 2, .insert 1 3] ++ [.insert 0 4]) :=
    validCalls_append.mpr ⟨h2, by decide, by decide, by decide⟩
  have h4 : ValidCalls [0, 1] ([.insert 0 2, .insert 1 3, .insert 0 4] ++ [.remove 2]) :=
    validCalls_append.mpr ⟨h3, 0, by decide, by decide⟩
  have h5 : ValidCalls [0, 1]
      ([.insert 0 2, .insert 1 3, .insert 0 4, .remove 2] ++ [.insert 1 2]) :=
    validCalls_append.mpr ⟨h4, by decide, by decide, by decide⟩
  obtain ⟨l', hl', hlists, -⟩ := lists_run null [0, 1] _ h5
  exact ⟨l', hl', hlists.getAllNodes 0 (by decide) 1 (by decide),
    hlists.getAllNodes 1 (by decide) 2 (by decide)⟩

end Links

end Sheep
