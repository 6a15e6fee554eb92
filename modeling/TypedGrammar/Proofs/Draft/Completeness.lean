import TypedGrammar.Proofs.Draft.Growth
import TypedGrammar.Proofs.Shape.Parts

/-!
# Complete drafts

A draft is complete if each of its rules has a shape, and no shape refers to a term that is not
there.  A call that succeeds adds nothing that is incomplete, if it is made with shapes that refer
to terms of the draft, and the shape that it returns refers to terms of the draft after it.
-/

namespace TypedGrammar

namespace Shape

variable {size larger : ℕ} {shape other item delimiter : Shape} {shapes : List Shape}
  {index : TermIndex} {bounds : Bounds}

/-! ## References -/

/-- The terms to which the shape refers are among so many first terms. -/
def IsWithin (size : ℕ) (shape : Shape) : Prop :=
  ∀ index ∈ shape.references, index.value < size

/-- A shape is within any larger number of terms as well. -/
theorem IsWithin.mono (h : shape.IsWithin size) (hle : size ≤ larger) : shape.IsWithin larger :=
  fun index hindex => Nat.lt_of_lt_of_le (h index hindex) hle

/-- The empty shape refers to nothing. -/
theorem isWithin_empty : empty.IsWithin size := by
  simp [IsWithin, references, parts, term?]

/-- A hint refers to nothing. -/
theorem isWithin_hint (h : Hint) : (hint h).IsWithin size := by
  simp [IsWithin, references, parts, term?]

/-- A term refers to itself. -/
@[simp] theorem isWithin_term : (term index).IsWithin size ↔ index.value < size := by
  simp [IsWithin, references, parts, term?]

/-- The parts of several shapes refer to the terms to which the shapes refer. -/
theorem forall_partsOfAll_iff :
    (∀ index, term index ∈ partsOfAll shapes → index.value < size) ↔
      ∀ s ∈ shapes, s.IsWithin size := by
  simp only [IsWithin, mem_references, mem_partsOfAll]
  constructor
  · intro h s hs index hindex
    exact h index ⟨s, hs, hindex⟩
  · rintro h index ⟨s, hs, hindex⟩
    exact h s hs index hindex

/-- A sequence refers to what its items refer to. -/
@[simp] theorem isWithin_sequence :
    (sequence shapes).IsWithin size ↔ ∀ s ∈ shapes, s.IsWithin size := by
  rw [← forall_partsOfAll_iff]
  simp only [IsWithin, mem_references, parts, List.mem_cons, reduceCtorEq, false_or]

/-- A choice refers to what its alternatives refer to. -/
@[simp] theorem isWithin_choice :
    (choice shapes).IsWithin size ↔ ∀ s ∈ shapes, s.IsWithin size := by
  rw [← forall_partsOfAll_iff]
  simp only [IsWithin, mem_references, parts, List.mem_cons, reduceCtorEq, false_or]

/-- A repetition refers to what its item refers to. -/
@[simp] theorem isWithin_repeated : (repeated item bounds).IsWithin size ↔ item.IsWithin size := by
  simp only [IsWithin, mem_references, parts, List.mem_cons, reduceCtorEq, false_or]

/-- A repetition with a delimiter refers to what its item and its delimiter refer to. -/
@[simp] theorem isWithin_separated :
    (separated item delimiter bounds).IsWithin size ↔
      item.IsWithin size ∧ delimiter.IsWithin size := by
  simp only [IsWithin, mem_references, parts, List.mem_cons, reduceCtorEq, false_or,
    List.mem_append]
  exact ⟨fun h => ⟨fun index hindex => h index (Or.inl hindex),
    fun index hindex => h index (Or.inr hindex)⟩,
    fun h index hindex => hindex.elim (h.1 index) (h.2 index)⟩

/-- What a shape contributes to a sequence refers to nothing else. -/
theorem forall_items_isWithin : (∀ s ∈ shape.items, s.IsWithin size) ↔ shape.IsWithin size := by
  cases shape with
  | sequence shapes => exact isWithin_sequence.symm
  | empty => simp [items, isWithin_empty]
  | _ => simp [items]

/-- What a shape contributes to a choice refers to nothing else. -/
theorem forall_alternatives_isWithin :
    (∀ s ∈ shape.alternatives, s.IsWithin size) ↔ shape.IsWithin size := by
  cases shape with
  | choice shapes => exact isWithin_choice.symm
  | _ => simp [alternatives]

/-- A sum of shapes refers to what the two refer to. -/
theorem IsWithin.append (h : shape.IsWithin size) (h' : other.IsWithin size) :
    (shape ++ other).IsWithin size := by
  have hitems : ∀ s ∈ shape.items ++ other.items, s.IsWithin size :=
    List.forall_mem_append.mpr ⟨forall_items_isWithin.mpr h, forall_items_isWithin.mpr h'⟩
  show (ofItems (shape.items ++ other.items)).IsWithin size
  unfold ofItems
  split
  · exact isWithin_empty
  · next item heq =>
    rw [heq] at hitems
    exact hitems item List.mem_cons_self
  · exact isWithin_sequence.mpr hitems

/-- A choice between shapes refers to what the two refer to. -/
theorem IsWithin.or (h : shape.IsWithin size) (h' : other.IsWithin size) :
    (shape ||| other).IsWithin size :=
  isWithin_choice.mpr (List.forall_mem_append.mpr
    ⟨forall_alternatives_isWithin.mpr h, forall_alternatives_isWithin.mpr h'⟩)

/-- To be allowed to be empty refers to nothing else. -/
theorem IsWithin.orEmpty (h : shape.IsWithin size) : shape.orEmpty.IsWithin size :=
  h.or isWithin_empty

/-- A repetition, with a delimiter or without one, refers to its parts. -/
theorem IsWithin.repetition (h : item.IsWithin size) {delimiter : Option Shape}
    (h' : ∀ d ∈ delimiter, d.IsWithin size) (bounds : Bounds) :
    (repetition item delimiter bounds).IsWithin size := by
  cases delimiter with
  | none => exact isWithin_repeated.mpr h
  | some d => exact isWithin_separated.mpr ⟨h, h' d rfl⟩

/-- Shapes that are added one by one may be within the same number of terms. -/
theorem IsWithin.foldl_append (h : shape.IsWithin size) (hshapes : ∀ s ∈ shapes, s.IsWithin size) :
    (shapes.foldl (· ++ ·) shape).IsWithin size := by
  induction shapes generalizing shape with
  | nil => exact h
  | cons s rest ih =>
    rw [List.forall_mem_cons] at hshapes
    exact ih (h.append hshapes.1) hshapes.2

/-- So may alternatives that are added one by one. -/
theorem IsWithin.foldl_or (h : shape.IsWithin size) (hshapes : ∀ s ∈ shapes, s.IsWithin size) :
    (shapes.foldl (· ||| ·) shape).IsWithin size := by
  induction shapes generalizing shape with
  | nil => exact h
  | cons s rest ih =>
    rw [List.forall_mem_cons] at hshapes
    exact ih (h.or hshapes.1) hshapes.2

end Shape

/-! ## What is added -/

namespace Draft

variable {old new later draft entered middle : Draft} {entry : Entry} {index : TermIndex}
  {shape : Shape} {n : ℕ}

/-- What the term with a number matches. -/
def kind? (draft : Draft) (n : ℕ) : Option TermKind :=
  (draft.entries[n]?).map fun entry => entry.kind

/-- Beyond the entries there is no term. -/
theorem kind?_eq_none (h : draft.entries.size ≤ n) : draft.kind? n = none := by
  rw [kind?, Array.getElem?_eq_none h]
  rfl

/-- An entry that is added is the last one, and the others are what they were. -/
theorem kind?_push (h : new.entries = old.entries.push entry) :
    new.kind? n = if n = old.entries.size then some entry.kind else old.kind? n := by
  unfold kind?
  rw [h, Array.getElem?_push]
  split <;> rfl

/-- Flags are no matter of what a term matches. -/
theorem kind?_withFlags (change : Flags → Flags) :
    (draft.modifyTerm index fun term => { term with flags := change term.flags }).kind? n =
      draft.kind? n := by
  unfold kind?
  rw [modifyTerm, Array.getElem?_modify]
  split
  · cases draft.entries[n]? <;> rfl
  · rfl

/-- A rule that gets its shape has it, and the other terms are what they were. -/
theorem kind?_withShape (hlt : index.value < draft.entries.size) :
    (draft.modifyTerm index (·.withShape shape)).kind? n =
      if n = index.value then some (.rule (some shape)) else draft.kind? n := by
  unfold kind?
  rw [modifyTerm, Array.getElem?_modify]
  by_cases hn : index.value = n
  · subst hn
    rw [if_pos rfl, if_pos rfl, Array.getElem?_eq_getElem hlt]
    rfl
  · rw [if_neg hn, if_neg (Ne.symm hn)]

/-- **What is added is complete.**  The terms that were there are what they were, and the rules
among those that have come to them have shapes, which refer to terms that are there. -/
structure Completes (old new : Draft) : Prop where
  size_le : old.entries.size ≤ new.entries.size
  kinds : ∀ n < old.entries.size, new.kind? n = old.kind? n
  rules : ∀ (n : ℕ) (shape : Option Shape), old.entries.size ≤ n →
    new.kind? n = some (.rule shape) → ∃ s, shape = some s ∧ s.IsWithin new.entries.size

/-- Nothing is to be complete if no term is added or changed. -/
theorem completes_of_kind?_eq (hsize : new.entries.size = old.entries.size)
    (h : ∀ n, new.kind? n = old.kind? n) : old.Completes new where
  size_le := Nat.le_of_eq hsize.symm
  kinds n _ := h n
  rules n shape hle hkind := by
    rw [h, kind?_eq_none hle] at hkind
    cases hkind

/-- In particular, where the entries are the same. -/
theorem completes_of_eq (h : new.entries = old.entries) : old.Completes new :=
  completes_of_kind?_eq (congrArg Array.size h) fun n => by rw [kind?, kind?, h]

/-- Where nothing happens, nothing is to be complete. -/
theorem Completes.refl (draft : Draft) : draft.Completes draft :=
  completes_of_eq rfl

/-- What is complete stays so while more is added. -/
theorem Completes.trans (h : old.Completes new) (h' : new.Completes later) :
    old.Completes later where
  size_le := Nat.le_trans h.size_le h'.size_le
  kinds n hlt := (h'.kinds n (Nat.lt_of_lt_of_le hlt h.size_le)).trans (h.kinds n hlt)
  rules n shape hle hkind := by
    rcases Nat.lt_or_ge n new.entries.size with hlt | hge
    · rw [h'.kinds n hlt] at hkind
      obtain ⟨s, hs, hwithin⟩ := h.rules n shape hle hkind
      exact ⟨s, hs, hwithin.mono h'.size_le⟩
    · exact h'.rules n shape hge hkind

/-- An entry may be added that is complete. -/
theorem completes_push (h : new.entries = old.entries.push entry)
    (hentry : ∀ shape, entry.kind = .rule shape →
      ∃ s, shape = some s ∧ s.IsWithin old.entries.size) : old.Completes new where
  size_le := by
    rw [h, Array.size_push]
    exact Nat.le_succ _
  kinds n hlt := by rw [kind?_push h, if_neg (Nat.ne_of_lt hlt)]
  rules n shape hle hkind := by
    rw [kind?_push h] at hkind
    split at hkind
    · obtain ⟨s, hs, hwithin⟩ := hentry shape (Option.some.inj hkind)
      refine ⟨s, hs, hwithin.mono ?_⟩
      rw [h, Array.size_push]
      exact Nat.le_succ _
    · rw [kind?_eq_none hle] at hkind
      cases hkind

/-- An entry is there after others were added. -/
theorem Completes.value_lt (h : entered.Completes middle)
    (hentered : entered.entries = draft.entries.push entry)
    (hindex : index.value = draft.entries.size) : index.value < middle.entries.size := by
  have hle := h.size_le
  rw [hentered, Array.size_push, ← hindex] at hle
  exact hle

/-- A rule may be added without a shape, if it gets one after others were added. -/
theorem Completes.withShape (h : entered.Completes middle)
    (hentered : entered.entries = draft.entries.push entry)
    (hindex : index.value = draft.entries.size) (hshape : shape.IsWithin middle.entries.size) :
    draft.Completes (middle.modifyTerm index (·.withShape shape)) := by
  have hsize : entered.entries.size = draft.entries.size + 1 := by
    rw [hentered, Array.size_push]
  have hlt := h.value_lt hentered hindex
  have hsame : (middle.modifyTerm index (·.withShape shape)).entries.size = middle.entries.size :=
    Array.size_modify
  have hkind : ∀ n, (middle.modifyTerm index (·.withShape shape)).kind? n =
      if n = index.value then some (.rule (some shape)) else middle.kind? n :=
    fun n => kind?_withShape hlt
  refine ⟨by omega, fun n hlt => ?_, fun n found hge hfound => ?_⟩
  · rw [hkind, if_neg (by omega), h.kinds n (by omega), kind?_push hentered, if_neg (by omega)]
  · rw [hkind] at hfound
    rw [hsame]
    split at hfound
    · exact ⟨shape, (TermKind.rule.inj (Option.some.inj hfound)).symm, hshape⟩
    · exact h.rules n found (by omega) hfound

/-- A term that is known is there. -/
theorem IsConsistent.isWithin {request : Request} (h : draft.IsConsistent)
    (hknown : draft.known? request = some index) :
    (Shape.term index).IsWithin draft.entries.size :=
  Shape.isWithin_term.mpr (h.value_lt hknown)

end Draft

/-! ## Steps -/

namespace Drafting

open Draft

variable {α β : Type} {draft : Draft} {p : Drafting α} {Q : α → Draft → Prop} {shape : Shape}
  {entry : Entry} {typeName : String}

/-- If the step succeeds, what it adds is complete, and its result has a property. -/
def CompletesWith (draft : Draft) (p : Drafting α) (Q : α → Draft → Prop) : Prop :=
  ∀ a after, p.runOn draft = (.ok a, after) → draft.Completes after ∧ Q a after

/-- The shape refers to terms of the draft. -/
def IsIn (shape : Shape) (draft : Draft) : Prop :=
  shape.IsWithin draft.entries.size

/-- A result that is there already adds nothing. -/
theorem completesWith_pure {a : α} (h : Q a draft) : CompletesWith draft (pure a) Q := by
  intro result after hrun
  obtain ⟨rfl, rfl⟩ := ok_inj hrun
  exact ⟨.refl draft, h⟩

/-- Of two steps, each adds what is complete, and the second may use what the first one
has shown. -/
theorem CompletesWith.bind {f : α → Drafting β} {R : β → Draft → Prop}
    (hp : CompletesWith draft p Q)
    (hf : ∀ a middle, p.runOn draft = (.ok a, middle) → draft.Completes middle → Q a middle →
      CompletesWith middle (f a) R) : CompletesWith draft (p >>= f) R := by
  intro b after hrun
  obtain ⟨a, middle, hfirst, hrest⟩ := bind_ok hrun
  obtain ⟨hcompletes, ha⟩ := hp a middle hfirst
  obtain ⟨hcompletes', hb⟩ := hf a middle hfirst hcompletes ha b after hrest
  exact ⟨hcompletes.trans hcompletes', hb⟩

/-- The result may be mapped. -/
theorem CompletesWith.map {f : α → β} {R : β → Draft → Prop} (hp : CompletesWith draft p Q)
    (hf : ∀ a after, Q a after → R (f a) after) : CompletesWith draft (f <$> p) R := by
  intro b after hrun
  rw [runOn_map] at hrun
  rcases hfirst : p.runOn draft with ⟨e | a, middle⟩
  · rw [hfirst] at hrun
    cases hrun
  · rw [hfirst] at hrun
    obtain ⟨rfl, rfl⟩ := ok_inj hrun
    obtain ⟨hcompletes, ha⟩ := hp a middle hfirst
    exact ⟨hcompletes, hf a middle ha⟩

/-- To look at the draft adds nothing. -/
theorem completesWith_get : CompletesWith draft get fun _ _ => True := by
  intro found after hrun
  obtain ⟨_, rfl⟩ := ok_inj hrun
  exact ⟨.refl draft, trivial⟩

/-- A shape that refers to terms of a draft does so still when terms are added. -/
theorem IsIn.mono {new : Draft} (h : IsIn shape draft) (hcompletes : draft.Completes new) :
    IsIn shape new :=
  Shape.IsWithin.mono h hcompletes.size_le

/-- A key term is found or added, and no rule comes with it. -/
theorem completesWith_key (request : KeyRequest) (hdraft : draft.IsConsistent) :
    CompletesWith draft (key request)
      fun index after => after.IsConsistent ∧ IsIn (.term index) after := by
  intro index after hrun
  have hknown := known_of_key hrun
  have hgrows := follows_key request draft
  rw [hrun] at hgrows
  have hafter := hgrows.consistent hdraft
  refine ⟨?_, hafter, hafter.isWithin hknown⟩
  rw [runOn_key] at hrun
  split at hrun
  · cases hrun
  · obtain ⟨_, rfl⟩ := ok_inj hrun
    exact .refl draft
  · split at hrun
    · obtain ⟨_, rfl⟩ := ok_inj hrun
      exact completes_push rfl nofun
    · cases hrun

/-- A rule that is defined has its shape at once. -/
theorem completesWith_defineRule (name : String) (flags : Flags) (maker : Option Maker)
    (hshape : IsIn shape draft) :
    CompletesWith draft (defineRule name flags maker shape)
      fun index after => IsIn (.term index) after := by
  intro index after hrun
  rw [runOn_defineRule] at hrun
  split at hrun
  · next found hindex =>
    obtain ⟨rfl, rfl⟩ := ok_inj hrun
    refine ⟨completes_push rfl ?_, ?_⟩
    · rintro _ ⟨⟩
      exact ⟨shape, rfl, hshape⟩
    · refine Shape.isWithin_term.mpr ?_
      show _ < (draft.entries.push _).size
      rw [value_of_ofNat? hindex, Array.size_push]
      exact Nat.lt_succ_self _
  · cases hrun

/-- To note a rule adds no term besides it. -/
theorem completesWith_noteRule {request : Request} {note : TermIndex → Draft → Draft}
    (hnotes : Notes request note) (name : String) (flags : Flags) (maker : Option Maker)
    (hshape : IsIn shape draft) :
    CompletesWith draft (noteRule name flags maker shape note) IsIn := by
  refine (completesWith_defineRule name flags maker hshape).bind fun index middle _ _ hindex => ?_
  intro result after hrun
  obtain ⟨rfl, rfl⟩ := ok_inj hrun
  have hentries := hnotes.entries index middle
  refine ⟨completes_of_eq hentries, ?_⟩
  show Shape.IsWithin (note index middle).entries.size _
  rw [hentries]
  exact hindex

/-! ## Composites -/

/-- A group is its shape, or a term that is found or made for it. -/
theorem completesWith_group (hdraft : draft.IsConsistent) (hshape : IsIn shape draft) :
    CompletesWith draft (group shape) IsIn := by
  intro item after hrun
  rw [runOn_group] at hrun
  split at hrun
  · obtain ⟨rfl, rfl⟩ := ok_inj hrun
    exact ⟨.refl draft, hshape⟩
  · split at hrun
    · next index hlookup =>
      obtain ⟨rfl, rfl⟩ := ok_inj hrun
      have hknown : draft.known? (.group shape) = some index := hlookup
      exact ⟨.refl draft, hdraft.isWithin hknown⟩
    · exact completesWith_noteRule (notes_group shape) _ _ _ hshape item after hrun

/-- An optional part is found, or made as a rule with the empty shape as an alternative. -/
theorem completesWith_optional (hdraft : draft.IsConsistent) (hshape : IsIn shape draft) :
    CompletesWith draft (optional shape) IsIn := by
  intro result after hrun
  rw [runOn_optional] at hrun
  split at hrun
  · next index hlookup =>
    obtain ⟨rfl, rfl⟩ := ok_inj hrun
    have hknown : draft.known? (.optional shape) = some index := hlookup
    exact ⟨.refl draft, hdraft.isWithin hknown⟩
  · have hrule : IsIn shape.orEmpty draft := Shape.IsWithin.orEmpty hshape
    exact completesWith_noteRule (notes_optional shape) _ _ _ hrule result after hrun

/-- A list is found, or made as a repetition of its grouped item. -/
theorem completesWith_list (element : ValueType) {delimiter : Option Shape} (bounds : Bounds)
    (hdraft : draft.IsConsistent) (hshape : IsIn shape draft)
    (hdelimiter : ∀ d ∈ delimiter, IsIn d draft) :
    CompletesWith draft (list element shape delimiter bounds) IsIn := by
  intro result after hrun
  rw [runOn_list] at hrun
  split at hrun
  · next index hlookup =>
    obtain ⟨rfl, rfl⟩ := ok_inj hrun
    have hknown : draft.known? (.list ⟨element, shape, delimiter, bounds⟩) = some index := hlookup
    exact ⟨.refl draft, hdraft.isWithin hknown⟩
  · split at hrun
    · cases hrun
    · next item middle hgroup =>
      obtain ⟨hcompletes, hitem⟩ := completesWith_group hdraft hshape item middle hgroup
      have hrule : IsIn (Shape.repetition item delimiter bounds) middle :=
        Shape.IsWithin.repetition hitem (fun d hd => (hdelimiter d hd).mono hcompletes) bounds
      obtain ⟨hcompletes', hresult⟩ :=
        completesWith_noteRule (notes_list _) _ _ _ hrule result after hrun
      exact ⟨hcompletes.trans hcompletes', hresult⟩

/-- Between two key terms stands what is inside, as a group. -/
theorem completesWith_bracesBetween {openIndex closeIndex : TermIndex} {spec : BraceSpec}
    (hdraft : draft.IsConsistent) (hinside : IsIn spec.inside draft)
    (hopen : IsIn (.term openIndex) draft) (hclose : IsIn (.term closeIndex) draft) :
    CompletesWith draft (bracesBetween openIndex closeIndex spec) IsIn := by
  refine (completesWith_group hdraft hinside).bind fun grouped middle _ hmiddle hgrouped => ?_
  refine completesWith_get.bind fun _ last _ hlast _ => ?_
  have hopened := (hopen.mono hmiddle).mono hlast
  have hclosed := (hclose.mono hmiddle).mono hlast
  have hbracketed : IsIn (Shape.term openIndex ++ grouped ++ Shape.term closeIndex) last :=
    Shape.IsWithin.append (Shape.IsWithin.append hopened (hgrouped.mono hlast)) hclosed
  refine completesWith_noteRule (notes_braces spec) _ _ _ ?_
  split
  · exact Shape.IsWithin.or hbracketed ((hinside.mono hmiddle).mono hlast)
  · exact hbracketed

/-- Braces are found, or made after their two key terms. -/
theorem completesWith_braces (opening closing : String) (omissible : Bool)
    (hdraft : draft.IsConsistent) (hshape : IsIn shape draft) :
    CompletesWith draft (braces opening shape closing omissible) IsIn := by
  intro result after hrun
  rw [runOn_braces] at hrun
  split at hrun
  · next index hlookup =>
    obtain ⟨rfl, rfl⟩ := ok_inj hrun
    have hknown : draft.known? (.braces ⟨opening, shape, closing, omissible⟩) = some index := hlookup
    exact ⟨.refl draft, hdraft.isWithin hknown⟩
  · refine CompletesWith.bind (completesWith_key _ hdraft)
      (fun openIndex opened _ hopened ⟨hconsistent, hopen⟩ => ?_) result after hrun
    refine CompletesWith.bind (completesWith_key _ hconsistent)
      fun closeIndex closed _ hclosed ⟨hconsistent', hclose⟩ => ?_
    exact completesWith_bracesBetween hconsistent' ((hshape.mono hopened).mono hclosed)
      (hopen.mono hclosed) hclose

/-! ## Declarations -/

/-- A declaration that is registered has the last entry. -/
theorem entries_of_declare {after : Draft} {index : TermIndex}
    (h : (declare typeName entry).runOn draft = (.ok index, after)) :
    after.entries = draft.entries.push entry ∧ index.value = draft.entries.size := by
  rcases declare_cases typeName entry draft with
    ⟨e, claims, hcase, _⟩ | ⟨found, claims, hfound, hcase, _, _⟩
  · cases hcase.symm.trans h
  · obtain ⟨rfl, rfl⟩ := ok_inj (hcase.symm.trans h)
    exact ⟨rfl, value_of_ofNat? hfound⟩

/-- A type that is registered adds nothing, so only what makes its term is to be complete. -/
theorem completesWith_declaredOr {make : Drafting TermIndex} (hdraft : draft.IsConsistent)
    (hmake : draft.known? (.declared typeName) = none →
      CompletesWith draft make fun index after => IsIn (.term index) after) :
    CompletesWith draft (declaredOr typeName make) fun index after => IsIn (.term index) after := by
  intro index after hrun
  rw [runOn_declaredOr] at hrun
  split at hrun
  · next found hlookup =>
    obtain ⟨rfl, rfl⟩ := ok_inj hrun
    have hknown : draft.known? (.declared typeName) = some found := hlookup
    exact ⟨.refl draft, hdraft.isWithin hknown⟩
  · next hnew => exact hmake hnew index after hrun

/-- A terminal is complete as soon as it is registered. -/
theorem completesWith_declare (typeName : String) (hdraft : draft.IsConsistent)
    (hkind : ∀ shape, entry.kind ≠ .rule shape) :
    CompletesWith draft (declaredOr typeName (declare typeName entry))
      fun index after => IsIn (.term index) after := by
  refine completesWith_declaredOr hdraft fun _ index after hrun => ?_
  obtain ⟨hentries, hindex⟩ := entries_of_declare hrun
  refine ⟨completes_push hentries fun shape hshape => absurd hshape (hkind shape), ?_⟩
  refine Shape.isWithin_term.mpr ?_
  rw [hentries, hindex, Array.size_push]
  exact Nat.lt_succ_self _

/-- Key terms that are requested one after the other are all there in the end. -/
theorem completesWith_mapM_key (requests : List KeyRequest) (hdraft : draft.IsConsistent) :
    CompletesWith draft (requests.mapM key)
      fun keys after => ∀ index ∈ keys, IsIn (.term index) after := by
  induction requests generalizing draft with
  | nil => exact completesWith_pure (by simp)
  | cons request rest ih =>
    rw [List.mapM_cons]
    refine (completesWith_key request hdraft).bind fun index middle _ _ ⟨hmiddle, hindex⟩ => ?_
    refine (ih hmiddle).bind fun keys last _ hlast hkeys => ?_
    exact completesWith_pure (List.forall_mem_cons.mpr ⟨hindex.mono hlast, hkeys⟩)

/-- A choice of terms refers to these terms. -/
theorem isIn_choiceOf {keys : List TermIndex} (h : ∀ index ∈ keys, IsIn (.term index) draft) :
    IsIn (choiceOf keys) draft := by
  cases keys with
  | nil => exact Shape.isWithin_empty
  | cons first rest =>
    rw [List.forall_mem_cons] at h
    have hrest : ∀ s ∈ rest.map Shape.term, s.IsWithin draft.entries.size :=
      List.forall_mem_map.mpr h.2
    have hfold := Shape.IsWithin.foldl_or h.1 hrest
    rw [List.foldl_map] at hfold
    exact hfold

/-- A choice is complete once its key terms are registered. -/
theorem completesWith_choice (type : TypeDeclaration) (hdraft : draft.IsConsistent)
    (hrule : type.entry.kind = .rule none) :
    CompletesWith draft
      (declaredOr type.typeName (declare type.typeName type.entry >>= fillChoice type))
      fun index after => IsIn (.term index) after := by
  refine completesWith_declaredOr hdraft fun hnew index after hrun => ?_
  obtain ⟨found, entered, hdeclare, hfill⟩ := bind_ok hrun
  obtain ⟨hentered, hindex⟩ := entries_of_declare hdeclare
  have hconsistent : entered.IsConsistent := by
    have hgrows := (grows_declare hnew (Entry.hasMaker_of_kind hrule)).1
    rw [hdeclare] at hgrows
    exact hgrows.consistent hdraft
  obtain ⟨keys, middle, hkeys, hrest⟩ := bind_ok hfill
  obtain ⟨hcompletes, hin⟩ :=
    completesWith_mapM_key type.requests hconsistent keys middle hkeys
  obtain ⟨rfl, rfl⟩ := ok_inj hrest
  refine ⟨hcompletes.withShape hentered hindex (isIn_choiceOf hin), Shape.isWithin_term.mpr ?_⟩
  exact Nat.lt_of_lt_of_eq (hcompletes.value_lt hentered hindex) Array.size_modify.symm

end Drafting

namespace Call

/-- The shapes that a call is made with. -/
def shapes : Call → List Shape
  | braces _ inside _ _ => [inside]
  | optional shape => [shape]
  | list _ shape delimiter _ => shape :: delimiter.toList
  | withoutNode shape => [shape]
  | custom _ shape _ => [shape]
  | _ => []

open Drafting in
/-- **Calls that succeed.**  What a call adds is complete if it succeeds, and the shape that it
returns refers to terms of the draft, if the shapes do that it is made with. -/
theorem completesWith (call : Call) {draft : Draft} (hdraft : draft.IsConsistent)
    (hshapes : ∀ s ∈ call.shapes, IsIn s draft) : CompletesWith draft call.run IsIn := by
  cases call with
  | identifier type =>
    exact CompletesWith.map (completesWith_declare _ hdraft nofun) fun _ _ h => h
  | literal type =>
    exact CompletesWith.map (completesWith_declare _ hdraft nofun) fun _ _ h => h
  | constant type =>
    show CompletesWith draft (Shape.term <$> Drafting.constant type) IsIn
    rw [constant_eq]
    exact (completesWith_choice (.constant type) hdraft rfl).map fun _ _ h => h
  | operator type =>
    show CompletesWith draft (Shape.term <$> Drafting.operator type) IsIn
    rw [operator_eq]
    exact (completesWith_choice (.operator type) hdraft rfl).map fun _ _ h => h
  | key request => exact (completesWith_key request hdraft).map fun _ _ h => h.2
  | braces opening inside closing omissible =>
    exact completesWith_braces _ _ _ hdraft (hshapes inside List.mem_cons_self)
  | optional shape => exact completesWith_optional hdraft (hshapes shape List.mem_cons_self)
  | list element shape delimiter bounds =>
    refine completesWith_list _ _ hdraft (hshapes shape List.mem_cons_self) fun d hd => ?_
    exact hshapes d (List.mem_cons_of_mem _ (Option.mem_toList.mpr hd))
  | withoutNode shape =>
    refine completesWith_get.bind fun _ last _ hlast _ => ?_
    have hshape := (hshapes shape List.mem_cons_self).mono hlast
    exact (completesWith_defineRule _ _ _ hshape).map fun _ _ h => h
  | custom name shape maker =>
    have hshape := hshapes shape List.mem_cons_self
    exact (completesWith_defineRule _ _ _ hshape).map fun _ _ h => h

end Call

end TypedGrammar
