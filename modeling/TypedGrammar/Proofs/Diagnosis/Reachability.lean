import Mathlib.Logic.Relation
import TypedGrammar.Proofs.Diagnosis.Shadowing
import TypedGrammar.Proofs.OrderedChoice.Operators

/-!
# Unreachable rules

A rule refers to every term anywhere in its shape.  The terms to which references lead from the root
are found step by step; a search with a list of terms that are still to be visited finds the same
terms, on every language and in one way.  The diagnosis warns of exactly the rules that are not
among them, and these are never entered when a text is parsed.
-/

namespace TypedGrammar

/-! ## References -/

namespace Shape

/-- A term occurs anywhere in a shape. -/
inductive Mentions (index : TermIndex) : Shape → Prop
  | term : Mentions index (.term index)
  | sequence {items item} : item ∈ items → Mentions index item → Mentions index (.sequence items)
  | choice {alternatives alternative} :
      alternative ∈ alternatives → Mentions index alternative →
      Mentions index (.choice alternatives)
  | repeated {item bounds} : Mentions index item → Mentions index (.repeated item bounds)
  | item {item delimiter bounds} :
      Mentions index item → Mentions index (.separated item delimiter bounds)
  | delimiter {item delimiter bounds} :
      Mentions index delimiter → Mentions index (.separated item delimiter bounds)

/-- The references of a shape are the terms that occur in it. -/
theorem mentions_iff {index : TermIndex} {shape : Shape} :
    shape.Mentions index ↔ index ∈ shape.references := by
  rw [mem_references]
  constructor
  · intro h
    induction h with
    | term => exact self_mem_parts _
    | sequence hmem _ ih => exact parts_trans (mem_parts_of_sequence hmem) ih
    | choice hmem _ ih => exact parts_trans (mem_parts_of_choice hmem) ih
    | repeated _ ih | item _ ih =>
      exact parts_trans (mem_parts_of_repetition rfl).1 ih
    | delimiter _ ih =>
      rw [parts]
      exact List.mem_cons_of_mem _ (List.mem_append_right _ ih)
  · intro h
    induction shape with
    | empty | hint => cases List.mem_singleton.mp h
    | term found =>
      cases List.mem_singleton.mp h
      exact .term
    | sequence items ih =>
      rw [parts, List.mem_cons] at h
      rcases h with h | h
      · cases h
      · obtain ⟨item, hmem, hpart⟩ := mem_partsOfAll.mp h
        exact .sequence hmem (ih item hmem hpart)
    | choice alternatives ih =>
      rw [parts, List.mem_cons] at h
      rcases h with h | h
      · cases h
      · obtain ⟨alternative, hmem, hpart⟩ := mem_partsOfAll.mp h
        exact .choice hmem (ih alternative hmem hpart)
    | repeated item bounds ih =>
      rw [parts, List.mem_cons] at h
      rcases h with h | h
      · cases h
      · exact .repeated (ih h)
    | separated item delimiter bounds ihItem ihDelimiter =>
      rw [parts, List.mem_cons, List.mem_append] at h
      rcases h with h | h | h
      · cases h
      · exact .item (ihItem h)
      · exact .delimiter (ihDelimiter h)

end Shape

namespace Language

/-- The rule of one term refers to another term. -/
def Refers (language : Language) (i j : TermIndex) : Prop :=
  ∃ term shape, language.Defines i term shape ∧ shape.Mentions j

/-- References lead from the root to a term. -/
def IsReachable (language : Language) (index : TermIndex) : Prop :=
  Relation.ReflTransGen language.Refers language.root index

/-- The terms to which a term refers, in reading order. -/
def referencesOf (language : Language) (index : TermIndex) : List TermIndex :=
  match (language.term? index).bind Term.shape? with
  | some shape => shape.references
  | none => []

variable {language : Language} {i j : TermIndex}

/-- A rule with a shape is defined by it. -/
theorem defines_of_shape? {term : Term} {shape : Shape} (hterm : language.term? i = some term)
    (hshape : term.shape? = some shape) : language.Defines i term shape := by
  refine ⟨hterm, ?_⟩
  unfold Term.shape? at hshape
  split at hshape
  · next hkind => rw [hkind, hshape]
  · cases hshape

/-- A term refers to those that its rule names. -/
theorem refers_iff : language.Refers i j ↔ j ∈ language.referencesOf i := by
  unfold referencesOf
  constructor
  · rintro ⟨term, shape, hdef, hmentions⟩
    rw [hdef.1, Option.bind_some, Term.shape?_of_kind hdef.2]
    exact Shape.mentions_iff.mp hmentions
  · intro h
    split at h
    · next shape hfound =>
      obtain ⟨term, hterm, hshape⟩ := Option.bind_eq_some_iff.mp hfound
      exact ⟨term, shape, defines_of_shape? hterm hshape, Shape.mentions_iff.mpr h⟩
    · cases h

/-! ## The search with a list of pending terms -/

/-- **The search.**  Pending terms are visited one after the other, the last one that was added
first.  A term that was not reached before is reached now, and all its references are pending. -/
inductive Explores (language : Language) :
    List TermIndex → Finset TermIndex → Finset TermIndex → Prop
  | done {reached} : Explores language [] reached reached
  | again {next pending reached after} :
      next ∈ reached → Explores language pending reached after →
      Explores language (next :: pending) reached after
  | visit {next pending reached after} :
      next ∉ reached →
      Explores language ((language.referencesOf next).reverse ++ pending) (insert next reached)
        after →
      Explores language (next :: pending) reached after

section Search

variable {pending : List TermIndex} {reached after other : Finset TermIndex}

/-- The search has one result. -/
theorem Explores.unique (h : language.Explores pending reached after)
    (h' : language.Explores pending reached other) : after = other := by
  induction h with
  | done => cases h'; rfl
  | again hmem _ ih =>
    cases h' with
    | again _ h' => exact ih h'
    | visit hnew => exact absurd hmem hnew
  | visit hnew _ ih =>
    cases h' with
    | again hmem => exact absurd hmem hnew
    | visit _ h' => exact ih h'

/-- There are only so many terms to reach. -/
theorem card_le_termLimit (reached : Finset TermIndex) : reached.card ≤ termLimit := by
  have hinj : Set.InjOn TermIndex.value (reached : Set TermIndex) := fun a _ b _ h =>
    (TermIndex.mk.injEq ..).mpr h
  calc reached.card = (reached.image TermIndex.value).card :=
        (Finset.card_image_of_injOn hinj).symm
    _ ≤ (Finset.range termLimit).card := Finset.card_le_card fun n hn => by
        obtain ⟨index, _, rfl⟩ := Finset.mem_image.mp hn
        exact Finset.mem_range.mpr index.value_lt
    _ = termLimit := Finset.card_range termLimit

/-- The search comes to an end: each visit reaches one more term, and between two visits fewer terms
become pending. -/
theorem exists_explores (language : Language) (pending : List TermIndex)
    (reached : Finset TermIndex) : ∃ after, language.Explores pending reached after := by
  -- The outer induction is on how many terms may still be reached, the inner one on the list.
  induction hn : termLimit - reached.card using Nat.strongRecOn generalizing pending reached with
  | ind n ih =>
    induction pending with
    | nil => exact ⟨reached, .done⟩
    | cons next pending ihPending =>
      by_cases hnext : next ∈ reached
      · obtain ⟨after, h⟩ := ihPending
        exact ⟨after, .again hnext h⟩
      · have hcard : (insert next reached).card = reached.card + 1 :=
          Finset.card_insert_of_notMem hnext
        have hlimit := card_le_termLimit (insert next reached)
        obtain ⟨after, h⟩ := ih (termLimit - (insert next reached).card) (by omega)
          ((language.referencesOf next).reverse ++ pending) (insert next reached) rfl
        exact ⟨after, .visit hnext h⟩

/-- The references of all terms that were reached have been reached, or are pending. -/
def IsClosed (language : Language) (pending : List TermIndex) (reached : Finset TermIndex) : Prop :=
  ∀ i ∈ reached, ∀ j, language.Refers i j → j ∈ reached ∨ j ∈ pending

/-- What is reached in the end includes what was reached or pending, and all references of it. -/
theorem Explores.complete (h : language.Explores pending reached after)
    (hclosed : language.IsClosed pending reached) :
    reached ⊆ after ∧ (∀ i ∈ pending, i ∈ after) ∧ language.IsClosed [] after := by
  induction h with
  | done => exact ⟨Finset.Subset.refl _, nofun, hclosed⟩
  | @again next pending reached after hmem _ ih =>
    -- The term that is taken from the list was reached before, so nothing is lost with it.
    have hclosed' : language.IsClosed pending reached := by
      intro i hi j hij
      rcases hclosed i hi j hij with h | h
      · exact Or.inl h
      · rcases List.mem_cons.mp h with rfl | h
        · exact Or.inl hmem
        · exact Or.inr h
    obtain ⟨hsub, hpending, hend⟩ := ih hclosed'
    exact ⟨hsub, List.forall_mem_cons.mpr ⟨hsub hmem, hpending⟩, hend⟩
  | @visit next pending reached after hnew _ ih =>
    have hclosed' : language.IsClosed ((language.referencesOf next).reverse ++ pending)
        (insert next reached) := by
      intro i hi j hij
      rcases Finset.mem_insert.mp hi with rfl | hi
      · have hmem := List.mem_reverse.mpr (refers_iff.mp hij)
        exact Or.inr (List.mem_append_left _ hmem)
      · rcases hclosed i hi j hij with h | h
        · exact Or.inl (Finset.mem_insert_of_mem h)
        · rcases List.mem_cons.mp h with rfl | h
          · exact Or.inl (Finset.mem_insert_self _ _)
          · exact Or.inr (List.mem_append_right _ h)
    obtain ⟨hsub, hpending, hend⟩ := ih hclosed'
    refine ⟨fun i hi => hsub (Finset.mem_insert_of_mem hi), ?_, hend⟩
    exact List.forall_mem_cons.mpr ⟨hsub (Finset.mem_insert_self _ _),
      fun i hi => hpending i (List.mem_append_right _ hi)⟩

/-- Only what references lead to is reached. -/
theorem Explores.sound (h : language.Explores pending reached after)
    (hreached : ∀ i ∈ reached, language.IsReachable i)
    (hpending : ∀ i ∈ pending, language.IsReachable i) : ∀ i ∈ after, language.IsReachable i := by
  induction h with
  | done => exact hreached
  | again _ _ ih => exact ih hreached fun i hi => hpending i (List.mem_cons_of_mem _ hi)
  | visit _ _ ih =>
    have hnext := hpending _ List.mem_cons_self
    refine ih (Finset.forall_mem_insert _ _ _ |>.mpr ⟨hnext, hreached⟩) fun i hi => ?_
    rcases List.mem_append.mp hi with hi | hi
    · exact hnext.tail (refers_iff.mpr (List.mem_reverse.mp hi))
    · exact hpending i (List.mem_cons_of_mem _ hi)

/-- **The search from the root.**  It reaches exactly the terms to which references lead. -/
theorem Explores.mem_iff (h : language.Explores [language.root] ∅ after) :
    i ∈ after ↔ language.IsReachable i := by
  obtain ⟨_, hroot, hclosed⟩ := h.complete fun i hi => absurd hi (Finset.notMem_empty i)
  constructor
  · refine h.sound (fun i hi => absurd hi (Finset.notMem_empty i)) (fun i hi => ?_) i
    obtain rfl := List.mem_singleton.mp hi
    exact .refl
  · intro hpath
    induction hpath with
    | refl => exact hroot _ List.mem_cons_self
    | tail _ hrefers ih => exact (hclosed _ ih _ hrefers).resolve_right List.not_mem_nil

end Search

end Language

/-! ## The search step by step -/

namespace Diagnosis

/-- A set has become another one by adding the terms with a property. -/
structure Adds (P : ℕ → Prop) (before after : TermSet) : Prop where
  size : after.size = before.size
  has : ∀ n, after.getD n false = true ↔
    before.getD n false = true ∨ P n ∧ n < before.size

section Steps

variable {terms : Array Term} {set before middle after : TermSet} {P Q : ℕ → Prop} {α : Type}

/-- Sets of terms grow by the same numbers, however these are described. -/
theorem Adds.imp (h : Adds P before after) (hPQ : ∀ n, P n ↔ Q n) : Adds Q before after where
  size := h.size
  has n := by rw [h.has, hPQ]

/-- A set grows by nothing. -/
theorem adds_nothing (set : TermSet) : Adds (fun _ => False) set set where
  size := rfl
  has n := by simp

/-- What is added first and what is added then are added together. -/
theorem Adds.trans (h : Adds P before middle) (h' : Adds Q middle after) :
    Adds (fun n => P n ∨ Q n) before after where
  size := h'.size.trans h.size
  has n := by rw [h'.has, h.has, h.size, or_assoc, ← or_and_right]

/-- One number is added. -/
theorem adds_setIfInBounds (m : ℕ) : Adds (· = m) set (set.setIfInBounds m true) where
  size := Array.size_setIfInBounds
  has n := by
    simp only [Array.getD_eq_getD_getElem?, Array.getElem?_setIfInBounds]
    by_cases hm : m = n
    · subst hm
      by_cases hlt : m < set.size <;> simp [hlt]
    · simp [hm, Ne.symm hm]

/-- What each member of a list adds is added by the whole list. -/
theorem adds_foldl {f : TermSet → α → TermSet} {P : α → ℕ → Prop} {xs : List α}
    (h : ∀ x ∈ xs, ∀ set, Adds (P x) set (f set x)) (set : TermSet) :
    Adds (fun n => ∃ x ∈ xs, P x n) set (xs.foldl f set) := by
  induction xs generalizing set with
  | nil => exact (adds_nothing set).imp fun n => by simp
  | cons x xs ih =>
    have hfirst := h x List.mem_cons_self set
    have hrest := ih (fun y hy => h y (List.mem_cons_of_mem x hy)) (f set x)
    exact (hfirst.trans hrest).imp fun n => by simp

/-- The rule of the first term refers to the second one. -/
def RefersTo (terms : Array Term) (m n : ℕ) : Prop :=
  ∃ shape index, (terms[m]?).bind Term.shape? = some shape ∧ index ∈ shape.references ∧
    index.value = n

/-- A step adds the terms to which the terms of a set refer. -/
theorem adds_reachStep (terms : Array Term) (set : TermSet) :
    Adds (fun n => ∃ m ∈ List.range terms.size, set.getD m false = true ∧ RefersTo terms m n) set
      (reachStep terms set) := by
  refine adds_foldl (fun m _ reached => ?_) set
  by_cases hm : set.getD m false = true
  · rw [if_pos hm]
    cases hshape : (terms[m]?).bind Term.shape? with
    | none => exact (adds_nothing reached).imp fun n => by simp [RefersTo, hshape]
    | some shape =>
      have hadd : ∀ i ∈ shape.references, ∀ set : TermSet,
          Adds (· = i.value) set (set.setIfInBounds i.value true) :=
        fun i _ _ => adds_setIfInBounds i.value
      refine (adds_foldl hadd reached).imp fun n => ?_
      simp [RefersTo, hshape, hm, eq_comm]
  · rw [if_neg hm]
    exact (adds_nothing reached).imp fun n => by simp [hm]

/-- No more steps are needed than there are terms. -/
theorem reachStep_reachableTerms (terms : Array Term) (root : TermIndex) :
    (reachableTerms terms root).size = terms.size ∧
      reachStep terms (reachableTerms terms root) = reachableTerms terms root := by
  have hsize : ∀ {set : TermSet}, set.size = terms.size →
      (reachStep terms set).size = terms.size := fun h => (adds_reachStep terms _).size.trans h
  have hfirst : ((Array.replicate terms.size false).setIfInBounds root.value true).size =
      terms.size := by
    rw [Array.size_setIfInBounds, Array.size_replicate]
  have hgrows : ∀ {set : TermSet}, set.size = terms.size → set.Within (reachStep terms set) :=
    fun _ n hn => ((adds_reachStep terms _).has n).mpr (Or.inl hn)
  exact ⟨TermSet.iterate_keeps (P := fun set => set.size = terms.size) hsize hfirst _,
    TermSet.iterate_fixed id hsize hgrows hfirst TermSet.card_missing_le⟩

end Steps

end Diagnosis

namespace Language

open Diagnosis

variable {language : Language} {i : TermIndex} {n : ℕ}

/-- The table of references and the rules agree. -/
theorem refersTo_iff : RefersTo language.terms i.value n ↔ ∃ j, j.value = n ∧ language.Refers i j := by
  constructor
  · rintro ⟨shape, j, hfound, hmem, rfl⟩
    refine ⟨j, rfl, refers_iff.mpr ?_⟩
    rw [referencesOf, term?, hfound]
    exact hmem
  · rintro ⟨j, rfl, term, shape, hdef, hmentions⟩
    refine ⟨shape, j, ?_, Shape.mentions_iff.mp hmentions, rfl⟩
    rw [← term?, hdef.1, Option.bind_some, Term.shape?_of_kind hdef.2]

/-- References lead from the root to all terms of a set. -/
def ReachesAll (language : Language) (set : TermSet) : Prop :=
  ∀ n, set.getD n false = true → ∃ index, index.value = n ∧ language.IsReachable index

/-- A step stays within what is reached. -/
theorem ReachesAll.reachStep {set : TermSet} (h : language.ReachesAll set) :
    language.ReachesAll (reachStep language.terms set) := by
  intro n hn
  rcases ((adds_reachStep language.terms set).has n).mp hn with hn | ⟨⟨m, _, hm, hrefers⟩, _⟩
  · exact h n hn
  · obtain ⟨i, rfl, hi⟩ := h m hm
    obtain ⟨j, rfl, hij⟩ := refersTo_iff.mp hrefers
    exact ⟨j, rfl, hi.tail hij⟩

/-- Only terms to which references lead are reached by the steps. -/
theorem reachesAll_reachableTerms (language : Language) :
    language.ReachesAll (reachableTerms language.terms language.root) := by
  refine TermSet.iterate_keeps (P := language.ReachesAll) ReachesAll.reachStep (fun n hn => ?_) _
  rcases ((adds_setIfInBounds language.root.value).has n).mp hn with hn | ⟨rfl, _⟩
  · rw [Array.getD_eq_getD_getElem?, Array.getElem?_replicate] at hn
    split at hn <;> cases hn
  · exact ⟨language.root, rfl, .refl⟩

/-- All terms to which references lead from the root are reached by the steps. -/
theorem reachableTerms_of_isReachable
    (hi : i.value < language.terms.size) (h : language.IsReachable i) :
    (reachableTerms language.terms language.root).getD i.value false = true := by
  obtain ⟨hsize, hfixed⟩ := reachStep_reachableTerms language.terms language.root
  -- A step adds nothing more to the set, so what it would add is there.
  have hstep := adds_reachStep language.terms (reachableTerms language.terms language.root)
  rw [hfixed] at hstep
  induction h with
  | refl =>
    have hkeeps : ∀ {set : TermSet}, set.getD language.root.value false = true →
        (reachStep language.terms set).getD language.root.value false = true :=
      fun hset => ((adds_reachStep language.terms _).has _).mpr (Or.inl hset)
    refine TermSet.iterate_keeps (P := fun set => set.getD language.root.value false = true)
      hkeeps ?_ _
    refine ((adds_setIfInBounds language.root.value).has _).mpr (Or.inr ⟨rfl, ?_⟩)
    rwa [Array.size_replicate]
  | @tail j i _ hrefers ih =>
    obtain ⟨term, shape, hdef, _⟩ := id hrefers
    have hj : j.value < language.terms.size := (Array.getElem?_eq_some_iff.mp hdef.1).1
    refine (hstep.has i.value).mpr (Or.inr ⟨⟨j.value, List.mem_range.mpr hj, ih hj, ?_⟩, ?_⟩)
    · exact refersTo_iff.mpr ⟨i, rfl, hrefers⟩
    · rwa [hsize]

end Language

/-! ## What is entered -/

/-- A term occurs in what is to be evaluated. -/
def Task.Mentions (index : TermIndex) : Task → Prop
  | .term found => found = index
  | .shape whole => whole.Mentions index
  | .all members => ∃ member ∈ members, member.Mentions index
  | .first alternative others => ∃ tried ∈ alternative :: others, tried.Mentions index
  | .items item delimiter _ | .pairs item delimiter =>
    item.Mentions index ∨ delimiter.Mentions index

namespace Language

section Entering

variable {language : Language} {room : ℕ∞} {task task' goal : Task} {start start' place : Cursor}
  {opened : ℕ} {i j : TermIndex}

/-- What is tried mentions only terms that were mentioned before. -/
theorem Tries.mentions (h : language.Tries room task start task' start')
    (hmentions : task'.Mentions i) : task.Mentions i := by
  cases h with
  | reference =>
    obtain rfl := hmentions
    exact Shape.Mentions.term
  | sequence =>
    obtain ⟨item, hmem, hitem⟩ := hmentions
    exact .sequence hmem hitem
  | choice =>
    obtain ⟨alternative, hmem, halternative⟩ := hmentions
    exact .choice hmem halternative
  | repeated =>
    rcases hmentions with hitem | hdelimiter
    · exact .repeated hitem
    · cases hdelimiter
  | separated =>
    rcases hmentions with hitem | hdelimiter
    · exact .item hitem
    · exact .delimiter hdelimiter
  | allHead => exact ⟨_, List.mem_cons_self, hmentions⟩
  | allTail | firstTail =>
    obtain ⟨shape, hmem, hshape⟩ := hmentions
    exact ⟨shape, List.mem_cons_of_mem _ hmem, hshape⟩
  | firstHead => exact ⟨_, List.mem_cons_self, hmentions⟩
  | item => exact Or.inl hmentions
  | pairs | nextPair => exact hmentions
  | trailing => exact Or.inr hmentions
  | pair =>
    obtain ⟨shape, hmem, hshape⟩ := hmentions
    simp only [List.mem_cons, List.not_mem_nil, or_false] at hmem
    rcases hmem with rfl | rfl
    · exact Or.inr hshape
    · exact Or.inl hshape

/-- References lead to every term that is mentioned by what is attempted. -/
theorem Attempts.exists_mentions (h : language.Attempts room task start opened goal place)
    (hmentions : goal.Mentions j) :
    ∃ i, task.Mentions i ∧ Relation.ReflTransGen language.Refers i j := by
  induction h with
  | here => exact ⟨j, hmentions, .refl⟩
  | inside htry _ ih =>
    obtain ⟨i, hi, hpath⟩ := ih hmentions
    exact ⟨i, htry.mentions hi, hpath⟩
  | opens hdef _ _ ih =>
    obtain ⟨i, hi, hpath⟩ := ih hmentions
    exact ⟨_, rfl, hpath.head ⟨_, _, hdef, hi⟩⟩

/-- Only terms to which references lead are entered from the root. -/
theorem Attempts.isReachable
    (h : language.Attempts room (.term language.root) start opened (.term j) place) :
    language.IsReachable j := by
  obtain ⟨i, rfl, hpath⟩ := h.exists_mentions rfl
  exact hpath

end Entering

end Language

/-! ## What is matched -/

namespace Shape

open Matcher TypedGrammar.Language

variable {term term' : TermIndex → Matcher (List Tree)} {shape : Shape} {shapes : List Shape}

/-- A row of shapes depends only on what its shapes match. -/
theorem matchAll_congr (h : ∀ s ∈ shapes, s.matcher term = s.matcher term') :
    matchAll term shapes = matchAll term' shapes := by
  induction shapes with
  | nil => rfl
  | cons s rest ih =>
    rw [matchAll_cons, matchAll_cons, h s List.mem_cons_self,
      ih fun t ht => h t (List.mem_cons_of_mem s ht)]

/-- A choice depends only on what its shapes match. -/
theorem matchFirst_congr (h : ∀ s ∈ shapes, s.matcher term = s.matcher term') :
    matchFirst term shapes = matchFirst term' shapes := by
  induction shapes with
  | nil => rfl
  | cons s rest ih =>
    have hrest := ih fun t ht => h t (List.mem_cons_of_mem s ht)
    cases rest with
    | nil => exact h s List.mem_cons_self
    | cons next rest =>
      rw [matchFirst_cons_cons, matchFirst_cons_cons, h s List.mem_cons_self, hrest]

/-- What a shape matches is determined by what the terms match that occur in it. -/
theorem matcher_congr (h : ∀ index, shape.Mentions index → term index = term' index) :
    shape.matcher term = shape.matcher term' := by
  induction shape with
  | empty | hint => rfl
  | term index => exact h index .term
  | sequence items ih =>
    exact matchAll_congr fun item hmem => ih item hmem fun index hindex =>
      h index (.sequence hmem hindex)
  | choice alternatives ih =>
    exact matchFirst_congr fun alternative hmem => ih alternative hmem fun index hindex =>
      h index (.choice hmem hindex)
  | repeated item bounds ih =>
    rw [matcher, matcher, ih fun index hindex => h index (.repeated hindex)]
  | separated item delimiter bounds ihItem ihDelimiter =>
    rw [matcher, matcher, ihItem fun index hindex => h index (.item hindex),
      ihDelimiter fun index hindex => h index (.delimiter hindex)]

end Shape

namespace Language

open Diagnosis Matcher

section Matching

variable {language other : Language} {i : TermIndex} (hlexicon : other.lexicon = language.lexicon)
  (hterms : ∀ index, language.IsReachable index → other.term? index = language.term? index)
include hterms

/-- What a reachable term matches is determined by the reachable terms. -/
theorem matchTerm_congr {lexicon : Lexicon} (room : ℕ) (hi : language.IsReachable i) :
    other.matchTerm lexicon room i = language.matchTerm lexicon room i := by
  induction room generalizing i with
  | zero => rw [matchTerm, matchTerm, hterms i hi]
  | succ room ih =>
    rw [matchTerm, matchTerm, hterms i hi]
    cases hterm : language.term? i with
    | none => rfl
    | some term =>
      simp only
      cases tokenText? lexicon term.kind with
      | some token => rfl
      | none =>
        cases hshape : term.shape? with
        | none => rfl
        | some shape =>
          -- The terms of the shape are reachable as well, and are matched with less room.
          have hsame : shape.matcher (other.matchTerm lexicon room) =
              shape.matcher (language.matchTerm lexicon room) :=
            Shape.matcher_congr fun j hj =>
              ih (hi.tail ⟨term, shape, defines_of_shape? hterm hshape, hj⟩)
          simp only [hsame]

include hlexicon in
/-- **Only reachable terms matter.**  How a text is parsed is determined by the reachable terms. -/
theorem parse?_congr (hroot : other.root = language.root) (text : String) :
    other.parse? text = language.parse? text := by
  have hsame : other.matchDocument = language.matchDocument := by
    unfold matchDocument
    simp only [hlexicon, hroot, matchTerm_congr hterms nestingLimit .refl]
  rw [parse?, parse?, hsame]

end Matching

end Language

/-! ## Warnings -/

namespace Diagnosis

/-- The message about a rule to which no references lead from the root. -/
def unreachableMessage (name root : String) : Diagnostic :=
  report .warning s!"rule `{name}` is unreachable from `{root}`"

variable {language : Language} {nullable : TermSet} {owner : String} {message : Diagnostic}

/-- A message about a shadowed alternative is no other message. -/
theorem shadowMessage_ne_unreachableMessage {always : Shape} {name root : String} :
    shadowMessage language owner always ≠ unreachableMessage name root := by
  intro h
  -- The two texts do not begin with the same letter.
  have htext := congrArg (fun message => message.message.toList.head?) h
  simp only [shadowMessage, unreachableMessage, report, String.toList_append] at htext
  cases htext

/-- No message about a part of a shape is one about an unreachable rule. -/
theorem partMessage?_ne_unreachableMessage {part : Shape} {name root : String}
    (h : partMessage? language nullable owner part = some message) :
    message ≠ unreachableMessage name root := by
  rintro rfl
  by_cases hchoice : ∃ alternatives, part = .choice alternatives
  · obtain ⟨alternatives, rfl⟩ := hchoice
    obtain ⟨_, always, _, _, _, _, _, hmessage⟩ := partMessage?_choice_iff.mp h
    exact shadowMessage_ne_unreachableMessage hmessage.symm
  · exact partMessage?_severity h (fun alternatives hpart => hchoice ⟨alternatives, hpart⟩) rfl

/-- What the diagnosis says apart from unreachable rules. -/
def otherMessages (language : Language) : List Diagnostic :=
  language.terms.toList.filterMap termMessage?
    ++ language.comments.flatMap commentMessages
    ++ language.terms.toList.flatMap (ruleMessages language language.nullable)
    ++ (Diagnosis.cycles language.leftCorners).map (cycleMessage language.terms)

/-- None of the other messages warns of an unreachable rule. -/
theorem ne_unreachableMessage_of_mem {name root : String}
    (h : message ∈ otherMessages language) : message ≠ unreachableMessage name root := by
  simp only [otherMessages, List.mem_append, List.mem_filterMap, List.mem_flatMap, List.mem_map,
    Array.mem_toList_iff, or_assoc] at h
  rcases h with ⟨term, _, h⟩ | ⟨comment, _, h⟩ | ⟨term, _, h⟩ | ⟨cycle, _, rfl⟩
  · exact fun hsame => termMessage?_severity h (hsame ▸ rfl)
  · exact fun hsame => commentMessages_severity h (hsame ▸ rfl)
  · rw [ruleMessages] at h
    split at h
    · obtain ⟨part, _, hpart⟩ := List.mem_filterMap.mp h
      exact partMessage?_ne_unreachableMessage hpart
    · cases h
  · intro hsame
    have hseverity := congrArg Diagnostic.severity hsame
    cases hseverity

/-- A rule that is not in a set, with its number. -/
def ruleOutside? (terms : Array Term) (reached : TermSet) (n : ℕ) : Option (ℕ × Term) :=
  (terms[n]?).bind fun term =>
    if !term.isTerminal && !reached.getD n false then some (n, term) else none

/-- The rules that are not in a set, with their numbers. -/
def rulesOutside (terms : Array Term) (reached : TermSet) : List (ℕ × Term) :=
  (List.range terms.size).filterMap (ruleOutside? terms reached)

section Outside

variable {terms : Array Term} {reached : TermSet} {n : ℕ} {found : ℕ × Term}

/-- A rule is outside if it is there, is no terminal, and is not reached. -/
theorem ruleOutside?_eq_some :
    ruleOutside? terms reached n = some found ↔
      n = found.1 ∧ terms[n]? = some found.2 ∧ found.2.isTerminal = false ∧
        reached.getD n false = false := by
  obtain ⟨m, term⟩ := found
  rw [ruleOutside?, Option.bind_eq_some_iff]
  constructor
  · rintro ⟨term', hterm, h⟩
    split at h
    · next hrule =>
      cases h
      rw [Bool.and_eq_true, Bool.not_eq_true', Bool.not_eq_true'] at hrule
      exact ⟨rfl, hterm, hrule.1, hrule.2⟩
    · cases h
  · rintro ⟨rfl, hterm, hrule, hreached⟩
    refine ⟨term, hterm, if_pos ?_⟩
    rw [hrule, hreached]
    rfl

/-- The rules outside are those that are not reached. -/
theorem mem_rulesOutside :
    found ∈ rulesOutside terms reached ↔
      terms[found.1]? = some found.2 ∧ found.2.isTerminal = false ∧
        reached.getD found.1 false = false := by
  simp only [rulesOutside, List.mem_filterMap, List.mem_range, ruleOutside?_eq_some]
  constructor
  · rintro ⟨n, _, rfl, h⟩
    exact h
  · exact fun h => ⟨found.1, (Array.getElem?_eq_some_iff.mp h.1).1, rfl, h⟩

/-- The rules come in the order of their numbers, each once. -/
theorem pairwise_rulesOutside (terms : Array Term) (reached : TermSet) :
    ((rulesOutside terms reached).map Prod.fst).Pairwise (· < ·) := by
  rw [List.pairwise_map, rulesOutside, List.pairwise_filterMap]
  refine List.pairwise_lt_range.imp fun {m n} hlt found hfound found' hfound' => ?_
  rw [← (ruleOutside?_eq_some.mp hfound).1, ← (ruleOutside?_eq_some.mp hfound').1]
  exact hlt

/-- The warnings stand in the order of the terms. -/
theorem map_rulesOutside (language : Language) (reached : TermSet) :
    (rulesOutside language.terms reached).map
        (fun found => unreachableMessage found.2.name language.rootName) =
      (List.range language.terms.size).filterMap (reachMessage? language reached) := by
  rw [rulesOutside, List.map_filterMap]
  refine List.filterMap_congr fun n _ => ?_
  rw [ruleOutside?, reachMessage?]
  cases language.terms[n]? with
  | none => rfl
  | some term =>
    simp only [Option.bind_some]
    split <;> rfl

end Outside

end Diagnosis

namespace Language

open Diagnosis

/-- What the diagnosis says about the rules to which no references lead from the root. -/
structure ReportsUnreachable (language : Language) (root : Term) : Prop where
  /-- The search with a list of pending terms ends in one way, with the reachable terms. -/
  searches : ∃ reached, language.Explores [language.root] ∅ reached ∧
    (∀ other, language.Explores [language.root] ∅ other → other = reached) ∧
    ∀ index, index ∈ reached ↔ language.IsReachable index
  /-- There is one message about each rule that is not reachable, in the order of the terms, and
  such a rule is never entered from the root. -/
  warns : ∃ (others : List Diagnostic) (found : List (ℕ × Term)),
    language.diagnose = others ++ found.map (fun rule => unreachableMessage rule.2.name root.name) ∧
    (∀ message ∈ others, ∀ name, message ≠ unreachableMessage name root.name) ∧
    (found.map Prod.fst).Pairwise (· < ·) ∧
    (∀ n term, (n, term) ∈ found ↔ language.terms[n]? = some term ∧ term.isTerminal = false ∧
      ¬ ∃ index, index.value = n ∧ language.IsReachable index) ∧
    ∀ rule ∈ found, ∀ room (text : String) opened index place,
      language.Attempts room (.term language.root) (.start text.toList) opened (.term index) place →
        index.value ≠ rule.1
  /-- What else the terms may be that are not reachable, each text is parsed in the same way. -/
  parses : ∀ other : Language, other.root = language.root → other.lexicon = language.lexicon →
    (∀ index, language.IsReachable index → other.term? index = language.term? index) →
    ∀ text, other.parse? text = language.parse? text

/-- **Unreachable rules.**  The diagnosis warns of each rule to which no references lead from the
root, once and in the order of the terms, and no such rule is ever entered. -/
theorem reportsUnreachable (language : Language) {root : Term}
    (hroot : language.term? language.root = some root) : language.ReportsUnreachable root where
  searches := by
    obtain ⟨reached, h⟩ := language.exists_explores [language.root] ∅
    exact ⟨reached, h, fun other hother => hother.unique h, fun index => h.mem_iff⟩
  warns := by
    let reached := reachableTerms language.terms language.root
    have hreached : ∀ {n term}, language.terms[n]? = some term → (reached.getD n false = false ↔
        ¬ ∃ index, index.value = n ∧ language.IsReachable index) := by
      intro n term hterm
      rw [← Bool.not_eq_true, not_iff_not]
      refine ⟨language.reachesAll_reachableTerms n, ?_⟩
      rintro ⟨index, rfl, hindex⟩
      exact reachableTerms_of_isReachable (Array.getElem?_eq_some_iff.mp hterm).1 hindex
    have hfound : ∀ n term, (n, term) ∈ rulesOutside language.terms reached ↔
        language.terms[n]? = some term ∧ term.isTerminal = false ∧
          ¬ ∃ index, index.value = n ∧ language.IsReachable index := by
      intro n term
      rw [mem_rulesOutside]
      exact and_congr_right fun hterm => and_congr_right fun _ => hreached hterm
    have hname : language.rootName = root.name := by rw [rootName, hroot]
    refine ⟨otherMessages language, rulesOutside language.terms reached, ?_,
      fun message hmessage name => ne_unreachableMessage_of_mem hmessage,
      pairwise_rulesOutside _ _, hfound, ?_⟩
    · rw [← hname, map_rulesOutside]
      rfl
    · rintro ⟨n, term⟩ hmem room text opened index place hattempt rfl
      exact ((hfound _ _).mp hmem).2.2 ⟨index, rfl, hattempt.isReachable⟩
  parses other hsame hlexicon hterms := parse?_congr hlexicon hterms hsame

/-- The language of a rule that refers to a symbol, and of a second rule that nothing refers to. -/
def orphaning : Language :=
  { ofRule (.term firstSymbol) [(firstSymbol, "x")] with
    terms := #[⟨"A", .rule (some (.term firstSymbol)), .none, none⟩, symbolTerm "x",
      ⟨"B", .rule (some (.term ruleIndex)), .none, none⟩] }

example : orphaning.diagnose = [unreachableMessage "B" "A"] := by decide +kernel

theorem reportsUnreachable_orphaning :
    orphaning.term? orphaning.root = some ⟨"A", .rule (some (.term firstSymbol)), .none, none⟩ ∧
      orphaning.ReportsUnreachable ⟨"A", .rule (some (.term firstSymbol)), .none, none⟩ :=
  ⟨rfl, reportsUnreachable orphaning rfl⟩

end Language

end TypedGrammar
