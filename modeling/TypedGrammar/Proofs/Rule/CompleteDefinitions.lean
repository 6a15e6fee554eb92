import TypedGrammar.Proofs.Diagnosis.Messages
import TypedGrammar.Proofs.Draft.Completeness
import TypedGrammar.Proofs.Rule.Performances

/-!
# Complete definitions

While the rule of a node type is evaluated, its term waits for a shape, and others refer to it
already.  When the definition of the node type has come to its end without an error, everything that
was registered on the way has a shape, and so has the node type; what is referred to is there.  So
the diagnosis of a grammar that was described without an error being caught finds neither a rule
that is not defined nor a reference to a term that is not there.
-/

namespace TypedGrammar

/-! ## Shapes that are used -/

namespace Script

/-- The script uses only shapes that refer to the first `size` terms, or that it gets from a part of
itself, when there may be more terms. -/
def UsesKnown : Script → ℕ → Prop
  | done shape, size => shape.IsWithin size
  | fail _, _ => True
  | call c, size => ∀ s ∈ c.shapes, s.IsWithin size
  | setFlags _ _ _, _ => True
  | node _, _ => True
  | andThen first next, size => first.UsesKnown size ∧
    ∀ larger shape, size ≤ larger → shape.IsWithin larger → (next shape).UsesKnown larger
  | attempt body handler next, size => body.UsesKnown size ∧
    (∀ larger e, size ≤ larger → (handler e).UsesKnown larger) ∧
      ∀ larger shape, size ≤ larger → shape.IsWithin larger → (next shape).UsesKnown larger

end Script

namespace Rule

mutual

/-- Shapes that are at hand refer to no terms, so all other shapes are those of parts. -/
def UsesReturned : Rule → Prop
  | shape s => s.references = []
  | braces _ inner _ _ | optional inner | withoutNode inner | list _ inner _ | custom _ inner _
  | star inner | plus inner | orEmpty inner | repeated inner _ | attempt inner =>
    inner.UsesReturned
  | listOf _ first second _ | followedBy first second | separated first second _ =>
    first.UsesReturned ∧ second.UsesReturned
  | all items | firstOf items | sequence items | choice items => AllUseReturned items
  | _ => True

/-- All rules of a list use only shapes of their parts. -/
def AllUseReturned : List Rule → Prop
  | [] => True
  | rule :: rest => rule.UsesReturned ∧ AllUseReturned rest

end

mutual

/-- The script of such a rule uses only the shapes that it gets. -/
theorem usesKnown_script : ∀ rule : Rule, rule.UsesReturned → ∀ size, rule.script.UsesKnown size
  | shape s, h, size => by
    intro index hindex
    rw [UsesReturned] at h
    rw [h] at hindex
    cases hindex
  | hint h, _, _ => Shape.isWithin_hint h
  | node _, _, _ | fail _ _, _, _ => trivial
  | identifier _, _, _ | literal _, _, _ | constant _, _, _ | operator _, _, _ | key _, _, _ =>
    fun _ hs => absurd hs List.not_mem_nil
  | braces _ inner _ _, h, size | optional inner, h, size | withoutNode inner, h, size
  | list _ inner _, h, size | custom _ inner _, h, size =>
    ⟨usesKnown_script inner h size, fun _ _ _ hs => List.forall_mem_singleton.mpr hs⟩
  | listOf _ item delimiter _, h, size =>
    -- The shape of the item is still within the terms once the delimiter has added some.
    ⟨usesKnown_script item h.1 size, fun larger s _ hs =>
      ⟨usesKnown_script delimiter h.2 larger, fun largest d hle hd =>
        List.forall_mem_cons.mpr ⟨hs.mono hle, List.forall_mem_singleton.mpr hd⟩⟩⟩
  | followedBy first second, h, size =>
    ⟨usesKnown_script first h.1 size, fun larger s _ hs =>
      ⟨usesKnown_script second h.2 larger, fun largest d hle hd =>
        Shape.IsWithin.append (hs.mono hle) hd⟩⟩
  | separated item delimiter _, h, size =>
    ⟨usesKnown_script item h.1 size, fun larger s _ hs =>
      ⟨usesKnown_script delimiter h.2 larger, fun largest d hle hd =>
        Shape.isWithin_separated.mpr ⟨hs.mono hle, hd⟩⟩⟩
  | star inner, h, size | plus inner, h, size | repeated inner _, h, size =>
    ⟨usesKnown_script inner h size, fun _ _ _ hs => Shape.isWithin_repeated.mpr hs⟩
  | orEmpty inner, h, size =>
    ⟨usesKnown_script inner h size, fun _ _ _ hs => Shape.IsWithin.orEmpty hs⟩
  | attempt inner, h, size =>
    ⟨usesKnown_script inner h size, fun _ _ _ => Shape.isWithin_empty, fun _ _ _ hs => hs⟩
  | all items, h, size => usesKnown_scriptAll items h size _ fun _ _ _ hshapes =>
    Shape.IsWithin.foldl_append Shape.isWithin_empty hshapes
  | firstOf items, h, size => usesKnown_scriptAll items h size _ fun _ shapes _ hshapes => by
    cases shapes with
    | nil => exact Shape.isWithin_empty
    | cons first rest =>
      rw [List.forall_mem_cons] at hshapes
      exact Shape.IsWithin.foldl_or hshapes.1 hshapes.2
  | sequence items, h, size => usesKnown_scriptAll items h size _ fun _ _ _ hshapes =>
    Shape.isWithin_sequence.mpr hshapes
  | choice items, h, size => usesKnown_scriptAll items h size _ fun _ _ _ hshapes =>
    Shape.isWithin_choice.mpr hshapes

theorem usesKnown_scriptAll : ∀ rules : List Rule, AllUseReturned rules →
    ∀ (size : ℕ) (next : List Shape → Script),
      (∀ larger shapes, size ≤ larger → (∀ s ∈ shapes, s.IsWithin larger) →
        (next shapes).UsesKnown larger) → (scriptAll rules next).UsesKnown size
  | [], _, size, _, hnext => hnext size [] (Nat.le_refl size) fun _ hs => absurd hs List.not_mem_nil
  | rule :: rest, h, size, _, hnext =>
    ⟨usesKnown_script rule h.1 size, fun larger s hle hs =>
      usesKnown_scriptAll rest h.2 larger _ fun largest shapes hle' hshapes =>
        hnext largest (s :: shapes) (Nat.le_trans hle hle')
          (List.forall_mem_cons.mpr ⟨hs.mono hle', hshapes⟩)⟩

end

end Rule

/-- The rule that an afterthought evaluates uses only shapes of its parts. -/
def Afterthought.UsesReturned : Afterthought → Prop
  | setFlags _ _ => True
  | evaluate rule => rule.UsesReturned

theorem Afterthought.usesKnown_scriptAll (index : TermIndex) {thoughts : List Afterthought}
    (h : ∀ thought ∈ thoughts, thought.UsesReturned) (size : ℕ) :
    (scriptAll index thoughts).UsesKnown size := by
  induction thoughts generalizing size with
  | nil => exact Shape.isWithin_empty
  | cons thought rest ih =>
    rw [List.forall_mem_cons] at h
    refine ⟨?_, fun larger _ _ _ => ih h.2 larger⟩
    cases thought with
    | setFlags flags on => trivial
    | evaluate rule => exact rule.usesKnown_script h.1 size

/-- The rule of a node type and its afterthoughts use only shapes that they get. -/
structure NodeDeclaration.UsesReturned (type : NodeDeclaration) : Prop where
  rule : type.rule.UsesReturned
  afterthoughts : ∀ thought ∈ type.afterthoughts, thought.UsesReturned

/-! ## Performances without errors -/

namespace Performs

open Drafting Draft

variable {types : Array NodeDeclaration} {script : Script} {draft after : Draft}
  {trace : List Happening} {result : Except Error Shape} {shape : Shape}

/-- **Performances that succeed.**  What a script adds is complete if it succeeds and no error is
caught on the way, and the shape that it ends with refers to terms of the draft. -/
theorem completes (h : Performs types script draft trace result after)
    (hfamily : ∀ type ∈ types, type.UsesReturned) (hdraft : draft.IsConsistent)
    (hscript : script.UsesKnown draft.entries.size) (hquiet : .caught ∉ trace)
    (hok : result = .ok shape) : draft.Completes after ∧ IsIn shape after := by
  induction h generalizing shape with
  | done =>
    obtain rfl := Except.ok.inj hok
    exact ⟨.refl _, hscript⟩
  | call h =>
    subst hok
    exact Call.completesWith _ hdraft hscript shape _ h
  | @setFlags index flags on draft after result h =>
    rw [runOn_setFlags] at h
    split at h
    · obtain ⟨rfl, _⟩ := Prod.mk.inj h
      cases hok
    · obtain ⟨rfl, rfl⟩ := Prod.mk.inj h
      obtain rfl := Except.ok.inj hok
      refine ⟨completes_of_kind?_eq Array.size_modify fun n => ?_, Shape.isWithin_empty⟩
      exact kind?_withFlags fun old => old.assign flags on
  | @found _ type index draft _ hlookup =>
    obtain rfl := Except.ok.inj hok
    have hknown : draft.known? (.declared type.typeName) = some index := hlookup
    exact ⟨.refl _, hdraft.isWithin hknown⟩
  | @defined _ type index stored _ entered middle _ last trace further htype hnew h hrule _ ihRule
      ihAfterthoughts =>
    cases last with
    | error e => cases hok
    | ok _ =>
      obtain rfl := Except.ok.inj hok
      simp only [List.mem_cons, List.mem_append, reduceCtorEq, false_or, not_or] at hquiet
      have htype' := hfamily type (Array.mem_of_getElem? htype)
      have henters := enters_of_declare hdraft hnew h
      obtain ⟨hentries, hindex⟩ := entries_of_declare h
      -- Beside the node type, which still waits for its shape, all that its rule adds is complete.
      obtain ⟨hcompletes, hstored⟩ := ihRule henters.consistent
        (type.rule.usesKnown_script htype'.rule _) hquiet.1 rfl
      have hshaped := hcompletes.withShape hentries hindex hstored
      obtain ⟨hcompletes', _⟩ := ihAfterthoughts (henters.stored hrule.runsTo stored).2
        (Afterthought.usesKnown_scriptAll index htype'.afterthoughts _) hquiet.2 rfl
      refine ⟨hshaped.trans hcompletes', Shape.isWithin_term.mpr ?_⟩
      have hlt := hcompletes.value_lt hentries hindex
      exact Nat.lt_of_lt_of_le hlt (Array.size_modify ▸ hcompletes'.size_le)
  | andThen hbegin _ ihBegin ihRest =>
    rw [List.mem_append, not_or] at hquiet
    obtain ⟨hcompletes, hshape⟩ := ihBegin hdraft hscript.1 hquiet.1 rfl
    have hnext := hscript.2 _ _ hcompletes.size_le hshape
    obtain ⟨hcompletes', hlast⟩ :=
      ihRest (hbegin.runsTo.isConsistent hdraft) hnext hquiet.2 hok
    exact ⟨hcompletes.trans hcompletes', hlast⟩
  | attempt hbegin _ ihBegin ihRest =>
    rw [List.mem_append, not_or] at hquiet
    obtain ⟨hcompletes, hshape⟩ := ihBegin hdraft hscript.1 hquiet.1 rfl
    have hnext := hscript.2.2 _ _ hcompletes.size_le hshape
    obtain ⟨hcompletes', hlast⟩ :=
      ihRest (hbegin.runsTo.isConsistent hdraft) hnext hquiet.2 hok
    exact ⟨hcompletes.trans hcompletes', hlast⟩
  | caught => simp at hquiet
  | fail | unknown | refused | ruleFails | firstFails => cases hok

end Performs

/-! ## Complete languages -/

namespace Draft

variable {draft : Draft} {term : Term}

theorem exists_kind?_of_mem_terms (h : term ∈ draft.terms) : ∃ n, draft.kind? n = some term.kind := by
  obtain ⟨entry, hentry, rfl⟩ := Array.mem_map.mp h
  obtain ⟨n, hn⟩ := Array.mem_iff_getElem?.mp hentry
  exact ⟨n, by rw [kind?, hn, Option.map_some]⟩

/-- What is registered from the beginning on, and is complete, makes a complete language. -/
theorem Completes.isComplete (h : Draft.empty.Completes draft) (name : String) (root : TermIndex)
    (comments : List Comment) : (draft.toLanguage name root comments).IsComplete := by
  have hrules : ∀ term ∈ draft.terms, ∀ shape, term.kind = .rule shape →
      ∃ s, shape = some s ∧ s.IsWithin draft.entries.size := by
    intro term hterm shape hkind
    obtain ⟨n, hn⟩ := exists_kind?_of_mem_terms hterm
    exact h.rules n shape (Nat.zero_le n) (hn.trans (congrArg some hkind))
  constructor
  · intro term hterm hrule
    unfold Term.isTerminal at hrule
    split at hrule
    · next shape hkind =>
      obtain ⟨s, rfl, _⟩ := hrules term hterm shape hkind
      rw [Term.shape?_of_kind hkind]
      rfl
    · cases hrule
  · intro term hterm shape hshape index hindex
    unfold Term.shape? at hshape
    split at hshape
    · next found hkind =>
      obtain ⟨s, hs, hwithin⟩ := hrules term hterm found hkind
      obtain rfl := Option.some.inj (hshape.symm.trans hs)
      have hlt : index.value < draft.terms.size := by
        rw [terms, Array.size_map]
        exact hwithin index hindex
      show (draft.terms[index.value]?).isSome
      rw [Array.getElem?_eq_getElem hlt]
      rfl
    · cases hshape

end Draft

namespace Script

open Drafting

/-- **Recursive definitions.**  However node types refer to each other, what is asked of a new
registry comes to an end, in one way, as does the definition of a single node type for the script
`.node number`; and no bound on the definitions under way matters that is greater than their number.
The rule of each node type is begun once at most, and so are its afterthoughts.  If no other shapes
are used than those that were returned, if no error is caught, and if all ends well, then each rule
has a shape, which refers to terms that are there, and the diagnosis reports neither a rule that is
not defined nor a reference to a term that is not there. -/
theorem exists_performance (types : Array NodeDeclaration) (main : Script) :
    ∃ trace result after, Performs types main .empty trace result after ∧
      (∀ trace' result' after', Performs types main .empty trace' result' after' →
        trace' = trace ∧ result' = result ∧ after' = after) ∧
      (main.run (defineNode types)).runOn .empty = (result, after) ∧
      (∀ depth > types.size,
        (main.run (defineNodeWithin types depth)).runOn .empty = (result, after)) ∧
      (∀ typeName, trace.count (.rule typeName) ≤ 1 ∧ trace.count (.afterthoughts typeName) ≤ 1) ∧
      ((∀ type ∈ types, type.UsesReturned) → main.UsesKnown 0 → .caught ∉ trace →
        ∀ shape, result = .ok shape → ∀ name root comments,
          (after.toLanguage name root comments).IsComplete ∧
            ∀ message ∈ (after.toLanguage name root comments).diagnose, ¬ message.IsDangling) := by
  have hperforms : ∀ depth > types.size, ∃ trace, Performs types main .empty trace
      ((main.run (defineNodeWithin types depth)).runOn .empty).1
      ((main.run (defineNodeWithin types depth)).runOn .empty).2 := fun depth hdepth =>
    runPerforms types depth main .empty Draft.isConsistent_empty
      ((card_undeclared_le types .empty).trans_lt hdepth)
  obtain ⟨trace, hmain⟩ := hperforms (types.size + 1) (Nat.lt_succ_self _)
  refine ⟨trace, _, _, hmain, fun _ _ _ h => h.unique hmain, rfl, fun depth hdepth => ?_,
    fun typeName => ?_, fun hfamily hscript hquiet shape hok name root comments => ?_⟩
  · obtain ⟨trace', hdeep⟩ := hperforms depth hdepth
    obtain ⟨_, hresult, hafter⟩ := hdeep.unique hmain
    exact Prod.ext hresult hafter
  · exact ⟨hmain.count_le_one Draft.isConsistent_empty (.inl rfl),
      hmain.count_le_one Draft.isConsistent_empty (.inr rfl)⟩
  · obtain ⟨hcompletes, _⟩ := hmain.completes hfamily Draft.isConsistent_empty hscript hquiet hok
    have hcomplete := hcompletes.isComplete name root comments
    exact ⟨hcomplete, Language.isComplete_iff.mp hcomplete⟩

/-! ### Blocks of statements -/

namespace Blocks

/-- The term of the block. -/
def block : TermIndex := .ofNat 0

/-- The term of the statement. -/
def statement : TermIndex := .ofNat 1

/-- A node type of the family, of which only the rule and the afterthoughts matter. -/
def type (number : ℕ) (name : String) (rule : Rule) (afterthoughts : List Afterthought) :
    NodeDeclaration where
  typeName := name
  name
  number
  valueType := .unit
  rule
  afterthoughts
  build _ := .ok .null

/-- A block consists of statements, and a statement may be a block.  Once the one or the other has
its shape, both are referred to again. -/
def types : Array NodeDeclaration :=
  #[type 0 "Block" (.star (.node 1)) [.evaluate (.followedBy (.node 0) (.node 1))],
    type 1 "Statement" (.optional (.node 0))
      [.setFlags (.ofList [.transient]) true, .evaluate (.followedBy (.node 1) (.node 0))]]

/-- The draft in which only the block is registered. -/
def begun : Draft :=
  ((Drafting.declare "Block" types[0].pending).runOn .empty).2

/-- The draft in which the block and the statement are registered. -/
def nested : Draft :=
  ((Drafting.declare "Statement" types[1].pending).runOn begun).2

theorem usesReturned : ∀ type ∈ types, type.UsesReturned := by
  intro type htype
  obtain rfl | rfl : type = types[0] ∨ type = types[1] := by simpa [types] using htype
  · exact ⟨trivial, List.forall_mem_singleton.mpr ⟨trivial, trivial⟩⟩
  · exact ⟨trivial, List.forall_mem_cons.mpr
      ⟨trivial, List.forall_mem_singleton.mpr ⟨trivial, trivial⟩⟩⟩

/-- The statement is defined while the rule of the block is evaluated. -/
theorem performs_block : ∃ after, Performs types (.node 0) .empty
    [.rule "Block", .rule "Statement", .afterthoughts "Statement", .afterthoughts "Block"]
    (.ok (.term block)) after := by
  have hinside := @Performs.andThen types (.node 0) (fun s => .call (.optional s)) _ nested _ _ _ _ _
    (.found rfl rfl) (.call rfl)
  have hstatement := @Performs.defined types 1 _ statement _ begun _ _ _ _ _ _ rfl rfl rfl hinside
    (.andThen (.setFlags rfl)
      (.andThen (.andThen (.found rfl rfl) (.andThen (.found rfl rfl) .done)) .done))
  have hblock := @Performs.defined types 0 _ block _ .empty _ _ _ _ _ _ rfl rfl rfl
    (.andThen hstatement .done)
    (.andThen (.andThen (.found rfl rfl) (.andThen (.found rfl rfl) .done)) .done)
  exact ⟨_, hblock⟩

end Blocks

open Blocks in
theorem exists_performance_blocks :
    (∀ type ∈ types, type.UsesReturned) ∧ ∃ after,
      Performs types (.node 0) .empty
        [.rule "Block", .rule "Statement", .afterthoughts "Statement", .afterthoughts "Block"]
        (.ok (.term block)) after ∧
      ((node 0).run (Drafting.defineNode types)).runOn .empty = (.ok (.term block), after) ∧
      (after.toLanguage "Blocks" block []).IsComplete ∧
      ∀ message ∈ (after.toLanguage "Blocks" block []).diagnose, ¬ message.IsDangling := by
  obtain ⟨_, hperforms⟩ := performs_block
  obtain ⟨trace, result, after, hmain, hunique, hrun, _, _, hcomplete⟩ :=
    exists_performance types (.node 0)
  obtain ⟨rfl, rfl, rfl⟩ := hunique _ _ _ hperforms
  obtain ⟨hlanguage, hmessages⟩ :=
    hcomplete usesReturned trivial (by decide) _ rfl "Blocks" block []
  exact ⟨usesReturned, _, hmain, hrun, hlanguage, hmessages⟩

end Script

end TypedGrammar
