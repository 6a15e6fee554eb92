import Mathlib.Data.Finset.Card
import Mathlib.Logic.Relation
import TypedGrammar.Language.Diagnosis

/-!
# The search for cycles

If the search for cycles finds none, there are none: no path along the edges goes on forever.  A
search never forgets what it has seen or found, and as long as no cycle is found, all paths from the
nodes that are done come to an end.
-/

namespace TypedGrammar

namespace Diagnosis

namespace CycleSearch

variable {edges : Array (List ℕ)} {before middle after search : CycleSearch} {m n next fuel : ℕ}
  {path : List ℕ} {progress : Progress}

/-! ## Progress -/

/-- Nodes that are not in the table count as visited. -/
theorem lt_size_of_unseen (h : search.progressAt n = .unseen) : n < search.progress.size := by
  by_contra hle
  rw [progressAt, Array.getD_eq_getD_getElem?, Array.getElem?_eq_none (Nat.le_of_not_lt hle)] at h
  cases h

/-- What is noted at a node is its progress. -/
theorem progressAt_note_self (h : n < search.progress.size) :
    (search.note n progress).progressAt n = progress := by
  rw [progressAt, note, Array.getD_eq_getD_getElem?, Array.getElem?_setIfInBounds_self_of_lt h,
    Option.getD_some]

/-- A note at one node leaves the others alone. -/
theorem progressAt_note_of_ne (h : m ≠ n) :
    (search.note n progress).progressAt m = search.progressAt m := by
  rw [progressAt, note, Array.getD_eq_getD_getElem?, Array.getElem?_setIfInBounds_ne h.symm,
    ← Array.getD_eq_getD_getElem?, ← progressAt]

/-- A note leaves the number of nodes as it is. -/
theorem size_note : (search.note n progress).progress.size = search.progress.size :=
  Array.size_setIfInBounds

/-- The nodes that are not visited yet. -/
def unseen (search : CycleSearch) : Finset ℕ :=
  (Finset.range search.progress.size).filter fun m => search.progressAt m = .unseen

/-- The nodes that are not visited yet are those whose progress says so. -/
theorem mem_unseen : m ∈ search.unseen ↔ search.progressAt m = .unseen := by
  rw [unseen, Finset.mem_filter, Finset.mem_range]
  exact ⟨fun h => h.2, fun h => ⟨lt_size_of_unseen h, h⟩⟩

/-! ## Steps -/

/-- What a search does with a node to which an edge leads from the end of its path. -/
def visit (edges : Array (List ℕ)) (fuel : ℕ) (path : List ℕ) (search : CycleSearch) (next : ℕ) :
    CycleSearch :=
  match search.progressAt next with
  | .unseen => explore edges fuel path next search
  | .active =>
    { search with cycles := search.cycles ++ [path.dropWhile (· != next) ++ [next]] }
  | .done => search

/-- To explore a node is to visit its successors, while the node is active. -/
theorem explore_succ :
    explore edges (fuel + 1) path n search =
      ((edges.getD n []).foldl (visit edges fuel (path ++ [n])) (search.note n .active)).note n
        .done :=
  rfl

/-- **What a search keeps.**  One search goes on from another: it keeps the cycles and the progress
at all nodes that were visited, and leaves no other node active. -/
structure Extends (before after : CycleSearch) : Prop where
  size : after.progress.size = before.progress.size
  cycles : before.cycles <+: after.cycles
  kept : ∀ m, before.progressAt m ≠ .unseen → after.progressAt m = before.progressAt m
  settled : ∀ m, before.progressAt m = .unseen → after.progressAt m ≠ .active

/-- A search goes on from itself. -/
theorem Extends.refl (search : CycleSearch) : search.Extends search where
  size := rfl
  cycles := List.prefix_rfl
  kept _ _ := rfl
  settled m h := by
    rw [h]
    decide

/-- A search that goes on from a later one goes on from the earlier one. -/
theorem Extends.trans (h : before.Extends middle) (h' : middle.Extends after) :
    before.Extends after where
  size := h'.size.trans h.size
  cycles := h.cycles.trans h'.cycles
  kept m hm := by
    have hmiddle := h.kept m hm
    rw [h'.kept m (by rwa [hmiddle]), hmiddle]
  settled m hm := by
    cases hmiddle : middle.progressAt m with
    | unseen => exact h'.settled m hmiddle
    | active => exact absurd hmiddle (h.settled m hm)
    | done =>
      rw [h'.kept m (by rw [hmiddle]; decide), hmiddle]
      decide

/-- If no cycle is found in the end, none was found before. -/
theorem Extends.cycles_eq_nil (h : before.Extends after) (hnil : after.cycles = []) :
    before.cycles = [] :=
  List.prefix_nil.mp (hnil ▸ h.cycles)

/-- Nodes that are not visited at the end were not visited before. -/
theorem Extends.unseen_subset (h : before.Extends after) : after.unseen ⊆ before.unseen := by
  intro m hm
  rw [mem_unseen] at hm ⊢
  by_contra hne
  rw [h.kept m hne] at hm
  exact hne hm

/-- A search goes on through any number of steps, if it does through each. -/
theorem extends_foldl {f : CycleSearch → ℕ → CycleSearch}
    (hf : ∀ search next, Extends search (f search next)) (nexts : List ℕ) (search : CycleSearch) :
    search.Extends (nexts.foldl f search) := by
  induction nexts generalizing search with
  | nil => exact .refl search
  | cons next rest ih => exact (hf search next).trans (ih _)

/-- A node that is explored is done afterwards, and was active in between. -/
theorem extends_note (hn : search.progressAt n = .unseen)
    (h : (search.note n .active).Extends after) : search.Extends (after.note n .done) where
  size := by rw [size_note, h.size, size_note]
  cycles := h.cycles
  kept m hm := by
    have hne : m ≠ n := by
      rintro rfl
      exact hm hn
    have hactive : (search.note n .active).progressAt m = search.progressAt m :=
      progressAt_note_of_ne hne
    rw [progressAt_note_of_ne hne, h.kept m (by rwa [hactive]), hactive]
  settled m hm := by
    by_cases hne : m = n
    · subst hne
      have hlt : m < after.progress.size := by
        rw [h.size, size_note]
        exact lt_size_of_unseen hn
      rw [progressAt_note_self hlt]
      decide
    · rw [progressAt_note_of_ne hne]
      refine h.settled m ?_
      rw [progressAt_note_of_ne hne, hm]

/-- Visiting a successor goes on from the search, if exploring it does. -/
theorem extends_visit
    (hexplore : ∀ {path n search}, progressAt search n = .unseen →
      Extends search (explore edges fuel path n search)) (search : CycleSearch) (next : ℕ) :
    search.Extends (visit edges fuel path search next) := by
  rw [visit]
  split
  · next hnext => exact hexplore hnext
  · -- A cycle is noted, and the progress stays the same.
    refine ⟨rfl, List.prefix_append _ _, fun _ _ => rfl, fun m hm => ?_⟩
    show search.progressAt m ≠ .active
    rw [hm]
    decide
  · exact .refl search

/-- Exploring a node goes on from the search. -/
theorem extends_explore (hn : search.progressAt n = .unseen) :
    search.Extends (explore edges fuel path n search) := by
  induction fuel generalizing path n search with
  | zero => exact .refl search
  | succ fuel ih =>
    rw [explore_succ]
    exact extends_note hn (extends_foldl (extends_visit ih) _ _)

/-! ## Paths that end -/

/-- All paths from a node along the edges come to an end. -/
def Ends (edges : Array (List ℕ)) (n : ℕ) : Prop :=
  Acc (fun j i => j ∈ edges.getD i []) n

/-- No path that comes to an end leads back to its first node. -/
theorem Ends.not_cycle (h : Ends edges n) :
    ¬ Relation.TransGen (fun i j => j ∈ edges.getD i []) n n := by
  induction h with
  | intro n _ ih =>
    intro hcycle
    obtain ⟨next, hnext, hback⟩ := Relation.TransGen.head'_iff.mp hcycle
    exact ih next hnext (.tail' hback hnext)

/-- All paths from a node end if all those from its successors do. -/
theorem Ends.of_edges (h : ∀ next ∈ edges.getD n [], Ends edges next) : Ends edges n :=
  Acc.intro n h

/-- All paths from nodes that are done come to an end. -/
def Sound (edges : Array (List ℕ)) (search : CycleSearch) : Prop :=
  ∀ m, search.progressAt m = .done → Ends edges m

/-- A node that becomes active is not done, so nothing is claimed of it. -/
theorem Sound.note_active (h : Sound edges search) (hn : n < search.progress.size) :
    Sound edges (search.note n .active) := by
  intro m hm
  by_cases hne : m = n
  · subst hne
    rw [progressAt_note_self hn] at hm
    cases hm
  · rw [progressAt_note_of_ne hne] at hm
    exact h m hm

/-- A node is done once all paths from it end. -/
theorem Sound.note_done (h : Sound edges search) (hends : Ends edges n) :
    Sound edges (search.note n .done) := by
  intro m hm
  by_cases hne : m = n
  · rwa [hne]
  · rw [progressAt_note_of_ne hne] at hm
    exact h m hm

/-- A node that becomes active is not unseen any more. -/
theorem card_unseen_note (hn : search.progressAt n = .unseen) :
    (search.note n .active).unseen.card < search.unseen.card := by
  have hsame : (search.note n .active).unseen = search.unseen.erase n := by
    ext m
    rw [mem_unseen, Finset.mem_erase, mem_unseen]
    by_cases hne : m = n
    · -- Neither side holds of the node itself.
      subst hne
      rw [progressAt_note_self (lt_size_of_unseen hn)]
      exact ⟨fun h => (by cases h), fun h => absurd rfl h.1⟩
    · rw [progressAt_note_of_ne hne]
      exact ⟨fun h => ⟨hne, h⟩, fun h => h.2⟩
  rw [hsame]
  exact Finset.card_erase_lt_of_mem (mem_unseen.mpr hn)

/-- Steps that find no cycle one after the other leave all paths ending, and each node with the
progress that its step brings about. -/
theorem sound_foldl {f : CycleSearch → ℕ → CycleSearch} {P : Progress → Prop}
    (hunseen : ¬ P .unseen) (hextends : ∀ search next, Extends search (f search next))
    (hstep : ∀ search next, search.unseen.card ≤ fuel → (f search next).cycles = [] →
      Sound edges search → Sound edges (f search next) ∧ P ((f search next).progressAt next))
    {nexts : List ℕ} (hcard : search.unseen.card ≤ fuel)
    (hnil : (nexts.foldl f search).cycles = []) (hsound : Sound edges search) :
    Sound edges (nexts.foldl f search) ∧
      ∀ next ∈ nexts, P ((nexts.foldl f search).progressAt next) := by
  induction nexts generalizing search with
  | nil => exact ⟨hsound, fun next hnext => absurd hnext List.not_mem_nil⟩
  | cons next rest ih =>
    rw [List.foldl_cons] at hnil ⊢
    have hrest : (f search next).Extends (rest.foldl f (f search next)) :=
      extends_foldl hextends rest _
    obtain ⟨hsound', hnext⟩ := hstep search next hcard (hrest.cycles_eq_nil hnil) hsound
    -- No node becomes unseen again, so the fuel is also enough for the other steps.
    have hcard' := (Finset.card_le_card (hextends search next).unseen_subset).trans hcard
    obtain ⟨hsound'', hothers⟩ := ih hcard' hnil hsound'
    refine ⟨hsound'', fun m hm => ?_⟩
    rcases List.mem_cons.mp hm with rfl | hm
    · rw [hrest.kept m fun h => hunseen (h ▸ hnext)]
      exact hnext
    · exact hothers m hm

/-- A successor that is visited without finding a cycle is done. -/
theorem sound_visit
    (hexplore : ∀ {path n search}, progressAt search n = .unseen → search.unseen.card ≤ fuel →
      (explore edges fuel path n search).cycles = [] → Sound edges search →
      Sound edges (explore edges fuel path n search) ∧
        (explore edges fuel path n search).progressAt n = .done)
    (search : CycleSearch) (next : ℕ) (hcard : search.unseen.card ≤ fuel)
    (hnil : (visit edges fuel path search next).cycles = []) (hsound : Sound edges search) :
    Sound edges (visit edges fuel path search next) ∧
      (visit edges fuel path search next).progressAt next = .done := by
  unfold visit at hnil ⊢
  split at hnil
  · next hnext => exact hexplore hnext hcard hnil hsound
  · exact absurd hnil (List.append_ne_nil_of_right_ne_nil _ (List.cons_ne_nil _ _))
  · next hnext => exact ⟨hsound, hnext⟩

/-- **A search without cycles.**  With fuel for all nodes that are not visited yet, exploring a node
without finding a cycle means that all paths from it come to an end. -/
theorem sound_explore (hn : search.progressAt n = .unseen) (hcard : search.unseen.card ≤ fuel)
    (hnil : (explore edges fuel path n search).cycles = []) (hsound : Sound edges search) :
    Sound edges (explore edges fuel path n search) ∧
      (explore edges fuel path n search).progressAt n = .done := by
  induction fuel generalizing path n search with
  | zero =>
    -- Without fuel, there is no node left to explore.
    have hempty := Finset.card_eq_zero.mp (Nat.le_zero.mp hcard)
    have hmem := mem_unseen.mpr hn
    rw [hempty] at hmem
    exact absurd hmem (Finset.notMem_empty n)
  | succ fuel ih =>
    rw [explore_succ] at hnil ⊢
    have hlt := lt_size_of_unseen hn
    have hcard' : (search.note n .active).unseen.card ≤ fuel := by
      have := card_unseen_note hn
      omega
    have hextends : (search.note n .active).Extends
        ((edges.getD n []).foldl (visit edges fuel (path ++ [n])) (search.note n .active)) :=
      extends_foldl (extends_visit extends_explore) _ _
    obtain ⟨hfold, hdone⟩ := sound_foldl (P := (· = .done)) (by decide)
      (extends_visit extends_explore) (sound_visit ih) hcard' hnil (hsound.note_active hlt)
    refine ⟨hfold.note_done (.of_edges fun next hnext => hfold next (hdone next hnext)), ?_⟩
    refine progressAt_note_self ?_
    rw [hextends.size, size_note]
    exact hlt

/-! ## The whole search -/

/-- The search in which nothing is visited yet. -/
def blank (size : ℕ) : CycleSearch :=
  ⟨Array.replicate size .unseen, []⟩

/-- In the first search all nodes are unseen. -/
theorem progressAt_blank {size : ℕ} :
    (blank size).progressAt n = if n < size then .unseen else .done := by
  rw [progressAt, blank, Array.getD_eq_getD_getElem?, Array.getElem?_replicate]
  split <;> rfl

/-- There are no more unseen nodes than nodes. -/
theorem card_unseen_blank (size : ℕ) : (blank size).unseen.card ≤ size := by
  have hsize : (blank size).progress.size = size := Array.size_replicate
  calc (blank size).unseen.card
      ≤ (Finset.range (blank size).progress.size).card :=
        Finset.card_le_card (Finset.filter_subset _ _)
    _ = size := by rw [Finset.card_range, hsize]

/-- No edges lead from a node that is not there. -/
theorem ends_of_size_le (h : edges.size ≤ n) : Ends edges n := by
  refine .of_edges fun next hnext => ?_
  rw [Array.getD_eq_getD_getElem?, Array.getElem?_eq_none h] at hnext
  cases hnext

/-- In the first search no node is done. -/
theorem sound_blank : Sound edges (blank edges.size) := by
  intro m hm
  refine ends_of_size_le ?_
  by_contra hlt
  rw [progressAt_blank, if_pos (Nat.lt_of_not_le hlt)] at hm
  cases hm

/-- What the whole search does with each node in turn. -/
def seek (edges : Array (List ℕ)) (search : CycleSearch) (n : ℕ) : CycleSearch :=
  if search.progressAt n = .unseen then explore edges edges.size [] n search else search

/-- Seeking from a node goes on from the search. -/
theorem extends_seek (search : CycleSearch) (n : ℕ) : search.Extends (seek edges search n) := by
  rw [seek]
  split
  · next hn => exact extends_explore hn
  · exact .refl search

/-- A node from which no cycle is found is visited, and all paths from nodes that are done end. -/
theorem sound_seek (search : CycleSearch) (n : ℕ) (hcard : search.unseen.card ≤ edges.size)
    (hnil : (seek edges search n).cycles = []) (hsound : Sound edges search) :
    Sound edges (seek edges search n) ∧ (seek edges search n).progressAt n ≠ .unseen := by
  unfold seek at hnil ⊢
  split at hnil
  · next hn =>
    rw [if_pos hn]
    obtain ⟨hsound', hdone⟩ := sound_explore hn hcard hnil hsound
    refine ⟨hsound', ?_⟩
    rw [hdone]
    decide
  · next hn =>
    rw [if_neg hn]
    exact ⟨hsound, hn⟩

end CycleSearch

open CycleSearch

/-- **No cycles.**  If no cycle is found, all paths along the edges come to an end. -/
theorem ends_of_cycles_eq_nil {edges : Array (List ℕ)} (h : cycles edges = []) (n : ℕ) :
    Ends edges n := by
  rcases Nat.lt_or_ge n edges.size with hn | hn
  · have hextends : (blank edges.size).Extends
        ((List.range edges.size).foldl (seek edges) (blank edges.size)) :=
      extends_foldl extends_seek _ _
    obtain ⟨hsound, hseen⟩ := sound_foldl (P := (· ≠ .unseen)) (by decide) extends_seek sound_seek
      (card_unseen_blank edges.size) h sound_blank
    have hblank : (blank edges.size).progressAt n = .unseen := by
      rw [progressAt_blank, if_pos hn]
    -- The node is visited, and not active any more at the end.
    have hactive := hextends.settled n hblank
    have hunseen := hseen n (List.mem_range.mpr hn)
    refine hsound n ?_
    cases hprogress : progressAt _ n with
    | unseen => exact absurd hprogress hunseen
    | active => exact absurd hprogress hactive
    | done => rfl
  · exact ends_of_size_le hn

end Diagnosis

end TypedGrammar
