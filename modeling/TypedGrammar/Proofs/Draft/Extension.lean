import TypedGrammar.Proofs.Draft.Laws

/-!
# Extensions of drafts

A draft extends another if it has everything that the other one has: entries at their numbers, the
terms of declarations, and key terms under their names.  An entry that is complete never changes
again, but for the flags of node types, which may be set and cleared afterwards.
-/

namespace TypedGrammar

namespace Entry

variable {old new later : Entry}

/-- The entry belongs to a node type. -/
def IsNodeType (entry : Entry) : Prop :=
  ∃ owner value, entry.maker = some (.declared owner value)

/-- An entry stays as it is; only the flags of a node type may change. -/
def Stays (old new : Entry) : Prop :=
  new = old ∨ old.IsNodeType ∧ ∃ flags, new = { old with flags := flags }

theorem Stays.refl (entry : Entry) : entry.Stays entry :=
  Or.inl rfl

theorem Stays.maker_eq (h : old.Stays new) : new.maker = old.maker := by
  rcases h with rfl | ⟨_, flags, rfl⟩
  · rfl
  · rfl

theorem Stays.kind_eq (h : old.Stays new) : new.kind = old.kind := by
  rcases h with rfl | ⟨_, flags, rfl⟩
  · rfl
  · rfl

/-- The entries of other terms than node types do not change at all. -/
theorem Stays.eq_of_maker (h : old.Stays new) (hmaker : ¬ old.IsNodeType) : new = old := by
  rcases h with rfl | ⟨hnode, _⟩
  · rfl
  · exact absurd hnode hmaker

theorem Stays.isNodeType (h : old.Stays new) (hnode : old.IsNodeType) : new.IsNodeType := by
  unfold IsNodeType
  rw [h.maker_eq]
  exact hnode

theorem Stays.trans (h : old.Stays new) (h' : new.Stays later) : old.Stays later := by
  rcases h with rfl | ⟨hnode, flags, rfl⟩
  · exact h'
  · rcases h' with rfl | ⟨_, flags', rfl⟩
    · exact Or.inr ⟨hnode, flags, rfl⟩
    · exact Or.inr ⟨hnode, flags', rfl⟩

end Entry

namespace Draft

variable {old new later draft : Draft} {entry : Entry} {index : TermIndex}

/-- **Extension.**  Whatever is in the old draft is also in the new one. -/
structure Extends (old new : Draft) : Prop where
  entries : ∀ (n : ℕ) (entry : Entry), old.entries[n]? = some entry →
    ∃ entry', new.entries[n]? = some entry' ∧ entry.Stays entry'
  declared : ∀ typeName index, old.declared.lookup typeName = some index →
    new.declared.lookup typeName = some index
  keys : ∀ name key, old.keyTerms.get? name = some key → new.keyTerms.get? name = some key

/-- A draft in which entries, declarations and key terms are the same. -/
theorem extends_of_eq (hentries : new.entries = old.entries)
    (hdeclared : new.declared = old.declared) (hkeys : new.keyTerms = old.keyTerms) :
    old.Extends new where
  entries n entry h := ⟨entry, by rw [hentries, h], .refl entry⟩
  declared _ _ h := by rw [hdeclared, h]
  keys _ _ h := by rw [hkeys, h]

theorem Extends.refl (draft : Draft) : draft.Extends draft :=
  extends_of_eq rfl rfl rfl

theorem Extends.trans (h : old.Extends new) (h' : new.Extends later) : old.Extends later where
  entries n entry hentry := by
    obtain ⟨entry', hentry', hstays⟩ := h.entries n entry hentry
    obtain ⟨entry'', hentry'', hstays'⟩ := h'.entries n entry' hentry'
    exact ⟨entry'', hentry'', hstays.trans hstays'⟩
  declared typeName index hlookup := h'.declared _ _ (h.declared _ _ hlookup)
  keys name key hkey := h'.keys _ _ (h.keys _ _ hkey)

/-- A draft that is extended has no fewer entries. -/
theorem Extends.size_le (h : old.Extends new) : old.entries.size ≤ new.entries.size := by
  refine size_le_of_entries fun n entry hentry => ?_
  obtain ⟨entry', hentry', _⟩ := h.entries n entry hentry
  exact ⟨entry', hentry'⟩

/-- An entry, a key term and the term of a new declaration may be added. -/
theorem extends_of_push {claims : List (String × String)} {declared : List (String × TermIndex)}
    {keyTerms : KeyTermTable}
    (hdeclared : ∀ typeName index, draft.declared.lookup typeName = some index →
      declared.lookup typeName = some index)
    (hkeys : ∀ name key, draft.keyTerms.get? name = some key → keyTerms.get? name = some key) :
    draft.Extends { draft.pushEntry entry with claims, declared, keyTerms } where
  entries _ entry h := ⟨entry, getElem?_push_of_some h, .refl entry⟩
  declared := hdeclared
  keys := hkeys

/-- An entry that is added extends the draft. -/
theorem extends_pushEntry : draft.Extends (draft.pushEntry entry) :=
  extends_of_push (fun _ _ h => h) fun _ _ h => h

/-- What came into a draft later may still be changed. -/
theorem Extends.modifyTerm (h : old.Extends new) (hindex : old.entries.size ≤ index.value)
    (change : Term → Term) : old.Extends (new.modifyTerm index change) where
  entries n entry hentry := by
    obtain ⟨entry', hentry', hstays⟩ := h.entries n entry hentry
    have hlt : n < old.entries.size := (Array.getElem?_eq_some_iff.mp hentry).1
    refine ⟨entry', ?_, hstays⟩
    rw [Draft.modifyTerm, Array.getElem?_modify, if_neg (by omega), hentry']
  declared := h.declared
  keys := h.keys

/-- The flags of a node type may always be changed. -/
theorem extends_modifyFlags (hentry : draft.entries[index.value]? = some entry)
    (hnode : entry.IsNodeType) (change : Flags → Flags) :
    draft.Extends (draft.modifyTerm index fun term => { term with flags := change term.flags }) where
  entries n old hold := by
    by_cases hn : index.value = n
    · subst hn
      obtain rfl := Option.some.inj (hentry.symm.trans hold)
      refine ⟨{ entry with flags := change entry.flags }, ?_, Or.inr ⟨hnode, _, rfl⟩⟩
      rw [Draft.modifyTerm, Array.getElem?_modify, if_pos rfl, hentry]
      rfl
    · refine ⟨old, ?_, .refl old⟩
      rw [Draft.modifyTerm, Array.getElem?_modify, if_neg hn, hold]
  declared _ _ h := h
  keys _ _ h := h

end Draft

end TypedGrammar
