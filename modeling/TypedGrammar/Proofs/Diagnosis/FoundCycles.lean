import Mathlib.Data.List.Chain
import TypedGrammar.Proofs.Diagnosis.CycleSearch

/-!
# The cycles that are found

The search for cycles without a bound on its depth, said as a relation: it ends on every graph, with
one result, and this is what the bounded search computes.  The path of the search is made of the
nodes that are active, joined by edges, so each cycle that is found is one; and if none is found,
there are none.
-/

namespace TypedGrammar

namespace Diagnosis

/-- An edge leads from one node to another one. -/
def Edge (edges : Array (List ℕ)) (i j : ℕ) : Prop :=
  j ∈ edges.getD i []

/-- Nodes that are joined one after the other, from a node back to itself, and do not meet another
node twice. -/
def IsCycle (R : ℕ → ℕ → Prop) (cycle : List ℕ) : Prop :=
  ∃ first inner, cycle = first :: (inner ++ [first]) ∧ (first :: inner).Nodup ∧ cycle.IsChain R

/-- A cycle leads back to its first node. -/
theorem IsCycle.transGen {R : ℕ → ℕ → Prop} {cycle : List ℕ} (h : IsCycle R cycle) :
    ∃ n, Relation.TransGen R n n := by
  obtain ⟨first, inner, rfl, _, hchain⟩ := h
  cases inner with
  | nil =>
    rw [List.nil_append, List.isChain_cons_cons] at hchain
    exact ⟨first, .single hchain.1⟩
  | cons next rest =>
    rw [List.cons_append, List.isChain_cons_cons] at hchain
    have hback : Relation.ReflTransGen R next first :=
      List.relationReflTransGen_of_exists_isChain_cons _ hchain.2 (by simp)
    exact ⟨first, .head' hchain.1 hback⟩

/-- An edge leads on from each node of a cycle. -/
theorem IsCycle.exists_rel {R : ℕ → ℕ → Prop} {cycle : List ℕ} (h : IsCycle R cycle) {m : ℕ}
    (hm : m ∈ cycle) : ∃ j, R m j := by
  obtain ⟨first, inner, rfl, -, hchain⟩ := h
  have hbefore : ∀ a, (a :: (inner ++ [first])).IsChain R → ∀ m ∈ a :: inner, ∃ j, R m j := by
    clear hchain hm
    induction inner with
    | nil =>
      intro a hchain m hm
      obtain rfl := List.mem_singleton.mp hm
      rw [List.nil_append, List.isChain_cons_cons] at hchain
      exact ⟨first, hchain.1⟩
    | cons next rest ih =>
      intro a hchain m hm
      rw [List.cons_append, List.isChain_cons_cons] at hchain
      rcases List.mem_cons.mp hm with rfl | hm
      · exact ⟨next, hchain.1⟩
      · exact ih next hchain.2 m hm
  -- The last node is the first one again.
  refine hbefore first hchain m ?_
  simpa [or_comm, or_assoc] using hm

namespace CycleSearch

/-! ## The search without a bound -/

/-- **Visits.**  From the end of a path, the search visits some nodes one after the other.  Those
that are not visited yet are explored to their ends, and those on the path close a cycle. -/
inductive Visits (edges : Array (List ℕ)) : List ℕ → List ℕ → CycleSearch → CycleSearch → Prop
  | nil {path search} : Visits edges path [] search search
  | unseen {path next rest search inner after} :
      search.progressAt next = .unseen →
      Visits edges (path ++ [next]) (edges.getD next []) (search.note next .active) inner →
      Visits edges path rest (inner.note next .done) after →
      Visits edges path (next :: rest) search after
  | active {path next rest search after} :
      search.progressAt next = .active →
      Visits edges path rest
        { search with cycles := search.cycles ++ [path.dropWhile (· != next) ++ [next]] } after →
      Visits edges path (next :: rest) search after
  | done {path next rest search after} :
      search.progressAt next = .done → Visits edges path rest search after →
      Visits edges path (next :: rest) search after

/-- **Searches.**  From each node in turn that is not visited yet, the search sets out anew. -/
inductive Searches (edges : Array (List ℕ)) : List ℕ → CycleSearch → CycleSearch → Prop
  | nil {search} : Searches edges [] search search
  | visit {n rest search middle after} :
      search.progressAt n = .unseen → Visits edges [] [n] search middle →
      Searches edges rest middle after → Searches edges (n :: rest) search after
  | skip {n rest search after} :
      search.progressAt n ≠ .unseen → Searches edges rest search after →
      Searches edges (n :: rest) search after

variable {edges : Array (List ℕ)} {search after other : CycleSearch} {n m next fuel : ℕ}
  {path nexts : List ℕ}

/-- The search has one result. -/
theorem Visits.unique (h : Visits edges path nexts search after)
    (h' : Visits edges path nexts search other) : after = other := by
  induction h generalizing other with
  | nil => cases h'; rfl
  | unseen hnext _ _ ih ihRest =>
    cases h' with
    | unseen _ hinner hrest =>
      obtain rfl := ih hinner
      exact ihRest hrest
    | active hother => simp [hnext] at hother
    | done hother => simp [hnext] at hother
  | active hnext _ ih =>
    cases h' with
    | unseen hother => simp [hnext] at hother
    | active _ hrest => exact ih hrest
    | done hother => simp [hnext] at hother
  | done hnext _ ih =>
    cases h' with
    | unseen hother => simp [hnext] at hother
    | active hother => simp [hnext] at hother
    | done _ hrest => exact ih hrest

/-- A search has one result. -/
theorem Searches.unique (h : Searches edges nexts search after)
    (h' : Searches edges nexts search other) : after = other := by
  induction h generalizing other with
  | nil => cases h'; rfl
  | visit hn hvisit _ ih =>
    cases h' with
    | visit _ hvisit' hrest =>
      obtain rfl := hvisit.unique hvisit'
      exact ih hrest
    | skip hother => exact absurd hn hother
  | skip hn _ ih =>
    cases h' with
    | visit hother => exact absurd hother hn
    | skip _ hrest => exact ih hrest

/-! ## The bounded search computes it -/

/-- With fuel for all nodes that are not visited yet, the bounded search is the one without a
bound: its fuel is never used up. -/
theorem visits_foldl (hcard : search.unseen.card ≤ fuel) :
    Visits edges path nexts search (nexts.foldl (visit edges fuel path) search) := by
  induction fuel generalizing path nexts search with
  | zero =>
    -- All nodes are visited.
    have hseen : ∀ next, search.progressAt next ≠ .unseen := by
      intro next hnext
      have hmem := mem_unseen.mpr hnext
      rw [Finset.card_eq_zero.mp (Nat.le_zero.mp hcard)] at hmem
      exact absurd hmem (Finset.notMem_empty next)
    induction nexts generalizing search with
    | nil => exact .nil
    | cons next rest ih =>
      rw [List.foldl_cons]
      cases hnext : search.progressAt next with
      | unseen => exact absurd hnext (hseen next)
      | active =>
        rw [visit, hnext]
        exact .active hnext (ih hcard hseen)
      | done =>
        rw [visit, hnext]
        exact .done hnext (ih hcard hseen)
  | succ fuel ihFuel =>
    induction nexts generalizing search with
    | nil => exact .nil
    | cons next rest ih =>
      rw [List.foldl_cons]
      cases hnext : search.progressAt next with
      | unseen =>
        rw [visit, hnext]
        have hexplored : search.Extends (explore edges (fuel + 1) path next search) :=
          extends_explore hnext
        have hinner : (search.note next .active).unseen.card ≤ fuel := by
          have := card_unseen_note hnext
          omega
        have hrest : (explore edges (fuel + 1) path next search).unseen.card ≤ fuel + 1 :=
          (Finset.card_le_card hexplored.unseen_subset).trans hcard
        exact .unseen hnext (ihFuel hinner) (ih hrest)
      | active =>
        rw [visit, hnext]
        exact .active hnext (ih hcard)
      | done =>
        rw [visit, hnext]
        exact .done hnext (ih hcard)

/-- The nodes that are sought one by one are searched. -/
theorem searches_foldl (hcard : search.unseen.card ≤ edges.size) :
    Searches edges nexts search (nexts.foldl (seek edges) search) := by
  induction nexts generalizing search with
  | nil => exact .nil
  | cons n rest ih =>
    rw [List.foldl_cons]
    have hseek : (seek edges search n).unseen.card ≤ edges.size :=
      (Finset.card_le_card (extends_seek search n).unseen_subset).trans hcard
    by_cases hn : search.progressAt n = .unseen
    · refine .visit hn ?_ (ih hseek)
      have hvisit : Visits edges [] [n] search ([n].foldl (visit edges edges.size []) search) :=
        visits_foldl hcard
      rw [List.foldl_cons, List.foldl_nil, visit, hn] at hvisit
      rwa [seek, if_pos hn]
    · have hsame : seek edges search n = search := if_neg hn
      rw [hsame]
      exact .skip hn (ih hcard)

/-! ## The path -/

/-- The path of a search: an edge leads from each of its nodes to the next one, and its nodes are
those that are active. -/
structure IsPath (edges : Array (List ℕ)) (path : List ℕ) (search : CycleSearch) : Prop where
  chain : path.IsChain (Edge edges)
  nodup : path.Nodup
  active : ∀ m, search.progressAt m = .active ↔ m ∈ path

/-- An edge leads from the end of a path, if it has one, to a node. -/
def LeadsOn (edges : Array (List ℕ)) (path : List ℕ) (next : ℕ) : Prop :=
  ∀ last ∈ path.getLast?, Edge edges last next

/-- A node is done once this is noted. -/
theorem progressAt_note_done : (search.note n .done).progressAt n = .done := by
  by_cases hn : n < search.progress.size
  · exact progressAt_note_self hn
  · rw [progressAt, Array.getD_eq_getD_getElem?, Array.getElem?_eq_none, Option.getD_none]
    rw [size_note]
    exact Nat.le_of_not_lt hn

/-- A node that becomes active is put at the end of the path. -/
theorem IsPath.extend (h : IsPath edges path search) (hnext : search.progressAt next = .unseen)
    (hedge : LeadsOn edges path next) :
    IsPath edges (path ++ [next]) (search.note next .active) := by
  have hnew : next ∉ path := by
    intro hmem
    have := (h.active next).mpr hmem
    rw [hnext] at this
    cases this
  constructor
  · exact h.chain.append (List.isChain_singleton next) (by simpa [LeadsOn] using hedge)
  · simp only [List.nodup_append, List.mem_singleton, List.nodup_singleton, h.nodup, true_and]
    rintro m hm _ rfl rfl
    exact hnew hm
  · intro m
    by_cases hm : m = next
    · subst hm
      simp [progressAt_note_self (lt_size_of_unseen hnext)]
    · simp [progressAt_note_of_ne hm, h.active m, hm]

/-- A node that is done was the end of the path. -/
theorem IsPath.retreat (h : IsPath edges (path ++ [n]) search) :
    IsPath edges path (search.note n .done) := by
  have hnot : n ∉ path := by
    have := h.nodup
    simp only [List.nodup_append, List.mem_singleton] at this
    exact fun hmem => this.2.2 n hmem n rfl rfl
  constructor
  · exact h.chain.left_of_append
  · exact h.nodup.of_append_left
  · intro m
    by_cases hm : m = n
    · subst hm
      simp [progressAt_note_done, hnot]
    · simp [progressAt_note_of_ne hm, h.active m, hm]

/-- An edge to a node on the path closes a cycle. -/
theorem IsPath.isCycle (h : IsPath edges path search) (hnext : search.progressAt next = .active)
    (hedge : LeadsOn edges path next) :
    IsCycle (Edge edges) (path.dropWhile (· != next) ++ [next]) := by
  obtain ⟨before, behind, rfl, hbefore⟩ := List.eq_append_cons_of_mem ((h.active next).mp hnext)
  have hdrop : (before ++ next :: behind).dropWhile (· != next) = next :: behind := by
    rw [List.dropWhile_append_of_pos, List.dropWhile_cons_of_neg]
    · simp
    · intro m hm
      have hne : m ≠ next := by
        rintro rfl
        exact hbefore hm
      simpa using hne
  rw [hdrop]
  refine ⟨next, behind, rfl, h.nodup.of_append_right, ?_⟩
  refine h.chain.right_of_append.append (List.isChain_singleton next) ?_
  simpa [LeadsOn] using hedge

/-- **Only cycles.**  What is noted on the way of a search are cycles, and the search comes back to
the path from which it set out. -/
theorem Visits.isCycle (h : Visits edges path nexts search after) (hpath : IsPath edges path search)
    (hnexts : ∀ next ∈ nexts, LeadsOn edges path next)
    (hcycles : ∀ cycle ∈ search.cycles, IsCycle (Edge edges) cycle) :
    IsPath edges path after ∧ ∀ cycle ∈ after.cycles, IsCycle (Edge edges) cycle := by
  induction h with
  | nil => exact ⟨hpath, hcycles⟩
  | @unseen path next rest search inner after hnext _ _ ih ihRest =>
    have hedge : LeadsOn edges path next := hnexts next List.mem_cons_self
    have hbelow : ∀ m ∈ edges.getD next [], LeadsOn edges (path ++ [next]) m := by
      intro m hm last hlast
      rw [List.getLast?_concat] at hlast
      obtain rfl := Option.some.inj hlast
      exact hm
    obtain ⟨hinner, hfound⟩ := ih (hpath.extend hnext hedge) hbelow hcycles
    exact ihRest hinner.retreat (fun m hm => hnexts m (List.mem_cons_of_mem _ hm)) hfound
  | @active path next rest search after hnext _ ih =>
    have hedge : LeadsOn edges path next := hnexts next List.mem_cons_self
    refine ih ⟨hpath.chain, hpath.nodup, hpath.active⟩
      (fun m hm => hnexts m (List.mem_cons_of_mem _ hm)) ?_
    intro cycle hcycle
    rcases List.mem_append.mp hcycle with hcycle | hcycle
    · exact hcycles cycle hcycle
    · obtain rfl := List.mem_singleton.mp hcycle
      exact hpath.isCycle hnext hedge
  | done _ _ ih => exact ih hpath (fun m hm => hnexts m (List.mem_cons_of_mem _ hm)) hcycles

/-- All cycles that are found are cycles. -/
theorem Searches.isCycle (h : Searches edges nexts search after) (hpath : IsPath edges [] search)
    (hcycles : ∀ cycle ∈ search.cycles, IsCycle (Edge edges) cycle) :
    ∀ cycle ∈ after.cycles, IsCycle (Edge edges) cycle := by
  induction h with
  | nil => exact hcycles
  | visit _ hvisit _ ih =>
    have hfirst : ∀ next, LeadsOn edges [] next := fun next last hlast => by cases hlast
    obtain ⟨hmiddle, hfound⟩ := hvisit.isCycle hpath (fun next _ => hfirst next) hcycles
    exact ih hmiddle hfound
  | skip _ _ ih => exact ih hpath hcycles

/-- At first there is no path. -/
theorem isPath_blank : IsPath edges [] (blank edges.size) := by
  refine ⟨List.isChain_nil, List.nodup_nil, fun m => ?_⟩
  rw [progressAt_blank]
  split <;> simp

end CycleSearch

open CycleSearch

variable {edges : Array (List ℕ)}

/-! ## The whole search -/

/-- The cycles that are reported come from one search of all nodes. -/
theorem searches_cycles (edges : Array (List ℕ)) :
    ∃ after, Searches edges (List.range edges.size) (blank edges.size) after ∧
      after.cycles = cycles edges :=
  ⟨_, searches_foldl (card_unseen_blank edges.size), rfl⟩

/-- Each cycle that is found is one. -/
theorem isCycle_of_mem_cycles {cycle : List ℕ} (h : cycle ∈ cycles edges) :
    IsCycle (Edge edges) cycle := by
  obtain ⟨after, hsearch, hcycles⟩ := searches_cycles edges
  rw [← hcycles] at h
  exact hsearch.isCycle isPath_blank nofun cycle h

/-- A cycle is found if and only if there is one. -/
theorem cycles_ne_nil_iff : cycles edges ≠ [] ↔ ∃ n, Relation.TransGen (Edge edges) n n := by
  constructor
  · intro hne
    obtain ⟨cycle, hcycle⟩ := List.exists_mem_of_ne_nil _ hne
    exact (isCycle_of_mem_cycles hcycle).transGen
  · rintro ⟨n, hn⟩ hnil
    exact (ends_of_cycles_eq_nil hnil n).not_cycle hn

/-! ## Left recursion -/

/-- What is there for each member of a list can be listed. -/
theorem exists_map_eq_map_some {α β : Type} {f : α → Option β} {xs : List α}
    (h : ∀ x ∈ xs, ∃ y, f x = some y) : ∃ ys : List β, xs.map f = ys.map some := by
  induction xs with
  | nil => exact ⟨[], rfl⟩
  | cons x xs ih =>
    obtain ⟨y, hy⟩ := h x List.mem_cons_self
    obtain ⟨ys, hys⟩ := ih fun z hz => h z (List.mem_cons_of_mem _ hz)
    exact ⟨y :: ys, by rw [List.map_cons, List.map_cons, hy, hys]⟩

/-- The shape of the rule of one term may enter the rule of another term before it consumes
input. -/
def LeadsWith (terms : Array Term) (nullable : TermSet) (i j : ℕ) : Prop :=
  ∃ term shape index, terms[i]? = some term ∧ term.shape? = some shape ∧
    index ∈ shape.leftCorners (fun index => terms[index.value]?.any (!·.isTerminal)) nullable ∧
    index.value = j

/-- The table of left corners and the relation agree. -/
theorem edge_leftCornerRules {terms : Array Term} {nullable : TermSet} {i j : ℕ} :
    Edge (leftCornerRules terms nullable) i j ↔ LeadsWith terms nullable i j := by
  rw [Edge, leftCornerRules, Array.getD_eq_getD_getElem?, Array.getElem?_map]
  constructor
  · intro h
    cases hterm : terms[i]? with
    | none => simp [hterm] at h
    | some term =>
      rw [hterm, Option.map_some, Option.getD_some] at h
      cases hshape : term.shape? with
      | none => simp [hshape] at h
      | some shape =>
        rw [hshape] at h
        obtain ⟨index, hindex, hvalue⟩ := List.mem_map.mp h
        exact ⟨term, shape, index, hterm, hshape, hindex, hvalue⟩
  · rintro ⟨term, shape, index, hterm, hshape, hindex, rfl⟩
    rw [hterm, Option.map_some, Option.getD_some, hshape]
    exact List.mem_map.mpr ⟨index, hindex, rfl⟩

/-- A rule that leads to another one is a term. -/
theorem LeadsWith.exists_term {terms : Array Term} {nullable : TermSet} {i j : ℕ}
    (h : LeadsWith terms nullable i j) : ∃ term, terms[i]? = some term := by
  obtain ⟨term, _, _, hterm, _⟩ := h
  exact ⟨term, hterm⟩

/-- **Left recursion.**  The search for rules that are entered again before input is consumed comes
to an end, with one result.  It reports something if and only if there is such a cycle of rules, and
each report spells the names of the terms on a cycle, from one of them back to itself. -/
theorem leftRecursion_reports (terms : Array Term) (nullable : TermSet) :
    let edges := leftCornerRules terms nullable
    let messages := (cycles edges).map (cycleMessage terms)
    (∃ after, Searches edges (List.range terms.size) (blank terms.size) after ∧
      after.cycles = cycles edges ∧
      ∀ other, Searches edges (List.range terms.size) (blank terms.size) other → other = after) ∧
    (messages ≠ [] ↔ ∃ n, Relation.TransGen (LeadsWith terms nullable) n n) ∧
    ∀ message ∈ messages, ∃ (cycle : List ℕ) (cycleTerms : List Term),
      IsCycle (LeadsWith terms nullable) cycle ∧
      cycle.map (terms[·]?) = cycleTerms.map some ∧
      message = report .critical
        ("left recursion: " ++ " -> ".intercalate (cycleTerms.map (·.name))) := by
  intro edges messages
  -- The table of edges stands for the relation, so cycles of one are cycles of the other.
  have hedge : Edge edges = LeadsWith terms nullable :=
    funext₂ fun i j => propext edge_leftCornerRules
  have hsize : edges.size = terms.size := Array.size_map
  refine ⟨?_, ?_, ?_⟩
  · obtain ⟨after, hsearch, hcycles⟩ := searches_cycles edges
    rw [hsize] at hsearch
    exact ⟨after, hsearch, hcycles, fun other hother => hother.unique hsearch⟩
  · rw [← hedge, ← cycles_ne_nil_iff, ne_eq, ne_eq, List.map_eq_nil_iff]
  · intro message hmessage
    obtain ⟨cycle, hcycle, rfl⟩ := List.mem_map.mp hmessage
    have hfound : IsCycle (LeadsWith terms nullable) cycle := hedge ▸ isCycle_of_mem_cycles hcycle
    -- All nodes of a cycle lead on to others, so they are terms.
    obtain ⟨cycleTerms, hterms⟩ := exists_map_eq_map_some fun m hm =>
      (hfound.exists_rel hm).elim fun _ hleads => hleads.exists_term
    refine ⟨cycle, cycleTerms, hfound, hterms, ?_⟩
    have hnames : cycle.map (fun n => (terms[n]?.map (·.name)).getD "") =
        cycleTerms.map (·.name) := by
      have := congrArg (List.map fun term? : Option Term => (term?.map (·.name)).getD "") hterms
      simpa [List.map_map, Function.comp_def] using this
    rw [cycleMessage, hnames]

end Diagnosis

end TypedGrammar
