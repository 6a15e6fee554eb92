import Mathlib.Data.List.Rotate
import TypedGrammar.Proofs.Diagnosis.Messages
import TypedGrammar.Proofs.Draft.KeyTermCopies
import TypedGrammar.Proofs.Grammar.KeyChoices
import TypedGrammar.Proofs.Rule.Reordering

/-!
# The order of declared entries

A grammar may be described with the entries of its constants and operators in another order.  If
each word still stands before the same texts with which it clashes, then every declaration matches
the same spans as before, and yields the same nodes.  If it does not, then a shorter or a longer
text may be matched.
-/

namespace TypedGrammar

open Drafting

/-! ## Declarations -/

namespace TypeDeclaration

variable {order : Reordering} {type : TypeDeclaration}

/-- The declaration is a choice between key terms. -/
def IsChoice : TypeDeclaration → Prop
  | constant _ => True
  | operator _ => True
  | _ => False

/-- The texts that are declared, in their order. -/
def texts (type : TypeDeclaration) : List String :=
  type.requests.map (·.text)

/-- The declaration with its entries in the other order. -/
def reordered (order : Reordering) : TypeDeclaration → TypeDeclaration
  | node type => node (type.reordered order)
  | constant type => constant (type.reordered order)
  | operator type => operator (type.reordered order)
  | other => other

/-- A declaration keeps its type in another order. -/
theorem typeName_reordered (type : TypeDeclaration) :
    (type.reordered order).typeName = type.typeName := by
  cases type <;> rfl

/-- A declaration has the same entry in another order. -/
theorem entry_reordered (type : TypeDeclaration) : (type.reordered order).entry = type.entry := by
  cases type <;> rfl

/-- Another order makes the same requests. -/
theorem perm_requests (type : TypeDeclaration) :
    type.requests.Perm (type.reordered order).requests := by
  cases type with
  | constant type => exact (order.constants_perm type).map _
  | operator type => exact (order.operators_perm type).map _
  | _ => exact .refl _

/-- Another order declares the same texts. -/
theorem perm_texts (type : TypeDeclaration) : type.texts.Perm (type.reordered order).texts :=
  (perm_requests type).map _

/-- A choice is a choice in any order. -/
theorem IsChoice.reordered (h : type.IsChoice) : (type.reordered order).IsChoice := by
  cases type <;> exact h

/-- The rule of a choice waits for its shape when the choice is declared. -/
theorem IsChoice.kind_eq (h : type.IsChoice) : type.entry.kind = .rule none := by
  cases type <;> first | rfl | exact h.elim

/-- A choice is no node type, whatever becomes of its rule. -/
theorem IsChoice.not_isNodeType (h : type.IsChoice) (kind : TermKind) :
    ¬ ({ type.entry with kind := kind } : Entry).IsNodeType := by
  rintro ⟨owner, value, hmaker⟩
  cases type <;> first | exact h.elim | cases hmaker

/-- The nodes of constants do not depend on the names of rules, and operators have no nodes. -/
theorem IsChoice.ignoresNames (h : type.IsChoice) (maker : Maker)
    (hmaker : type.entry.maker = some maker) : maker.IgnoresNames := by
  cases type with
  | constant type =>
    obtain rfl := Option.some.inj hmaker
    exact Maker.ignoresNames_constant type.type
  | operator type => cases hmaker
  | _ => exact h.elim

/-- The shape of such a declaration is a choice between its key terms. -/
theorem IsChoice.choiceOf (h : type.IsChoice) {draft : Draft} {shape : Shape}
    (hfits : draft.Fits shape type) :
    ∃ keys, List.Forall₂ draft.Registers type.requests keys ∧ shape = Drafting.choiceOf keys := by
  cases type with
  | constant type => exact hfits
  | operator type => exact hfits
  | _ => exact h.elim

end TypeDeclaration

namespace Rule

variable {order : Reordering}

mutual

/-- The rule names the declarations in the other order. -/
theorem declarations_reordered : ∀ rule : Rule,
    (rule.reordered order).declarations = rule.declarations.map (·.reordered order)
  | shape _ | hint _ | node _ | identifier _ | literal _ | constant _ | operator _ | key _
  | fail _ _ => rfl
  | braces _ inside _ _ => declarations_reordered inside
  | optional inner | withoutNode inner | custom _ inner _ | star inner | plus inner | orEmpty inner
  | attempt inner | list _ inner _ | repeated inner _ => declarations_reordered inner
  | listOf _ first second _ | followedBy first second | separated first second _ =>
    (congrArg₂ (· ++ ·) (declarations_reordered first) (declarations_reordered second)).trans
      List.map_append.symm
  | all items | firstOf items | sequence items | choice items => declarations_reorderedAll items

/-- The rules of a list name their declarations in the other order. -/
theorem declarations_reorderedAll : ∀ rules : List Rule,
    declarationsOfAll (reorderedAll order rules) =
      (declarationsOfAll rules).map (·.reordered order)
  | [] => rfl
  | rule :: rest =>
    (congrArg₂ (· ++ ·) (declarations_reordered rule) (declarations_reorderedAll rest)).trans
      List.map_append.symm

end

end Rule

/-- An afterthought names its declarations in the other order. -/
theorem Afterthought.declarations_reordered {order : Reordering} (thought : Afterthought) :
    (thought.reordered order).declarations = thought.declarations.map (·.reordered order) := by
  cases thought with
  | setFlags flags on => rfl
  | evaluate rule => exact Rule.declarations_reordered rule

/-- A node type names its declarations in the other order. -/
theorem NodeDeclaration.declarations_reordered {order : Reordering} (type : NodeDeclaration) :
    (type.reordered order).declarations = type.declarations.map (·.reordered order) := by
  rw [declarations, declarations, List.map_cons, List.map_append, List.map_flatMap]
  show _ :: ((type.rule.reordered order).declarations ++
    (type.afterthoughts.map (·.reordered order)).flatMap Afterthought.declarations) = _
  rw [Rule.declarations_reordered, List.flatMap_map]
  simp only [Afterthought.declarations_reordered]
  rfl

namespace GrammarDescription

variable {description : GrammarDescription} {built : BuiltGrammar} {order : Reordering}

/-- The description with the entries of declarations in the other order. -/
def reordered (order : Reordering) (description : GrammarDescription) : GrammarDescription :=
  { description with types := description.types.map (·.reordered order) }

/-- No rule refers to terms by number. -/
def IsSelfContained (description : GrammarDescription) : Prop :=
  ∀ type ∈ description.types, type.IsSelfContained

/-- The number of the term as which a declaration is registered in a description. -/
def indexOf? (description : GrammarDescription) (typeName : String) : Option TermIndex :=
  ((defineNode description.types description.root).runOn .empty).2.declared.lookup typeName

/-- A description names its declarations in the other order. -/
theorem declarations_reordered :
    (description.reordered order).declarations =
      description.declarations.map (·.reordered order) := by
  rw [declarations, declarations, List.map_flatMap]
  show ((description.types.map (·.reordered order)).toList).flatMap _ = _
  rw [Array.toList_map, List.flatMap_map]
  simp only [NodeDeclaration.declarations_reordered]

/-- Declarations are told apart in any order of entries. -/
theorem IsCoherent.reordered (h : description.IsCoherent) :
    (description.reordered order).IsCoherent := by
  intro a ha b hb hname
  rw [declarations_reordered, List.mem_map] at ha hb
  obtain ⟨a, ha, rfl⟩ := ha
  obtain ⟨b, hb, rfl⟩ := hb
  rw [TypeDeclaration.typeName_reordered, TypeDeclaration.typeName_reordered] at hname
  rw [h a ha b hb hname]

end GrammarDescription

/-! ## Key terms of a draft -/

/-- What is recorded under the name of a request. -/
def KeyTermTable.recorded (table : KeyTermTable) (request : KeyRequest) : KeyRequest :=
  ((table.get? request.name).map KeyTerm.toKeyRequest).getD request

namespace Draft

variable {draft a b : Draft} {told : Set TypeDeclaration} {type : TypeDeclaration}
  {requests : List KeyRequest} {indices : List TermIndex} {index root root' : TermIndex}
  {R : TermIndex → TermIndex → Prop} {name text : String} {comments : List Comment}

/-- Requests that are registered are served by records. -/
theorem exists_records (h : List.Forall₂ draft.Registers requests indices) :
    ∃ keys : List KeyTerm, keys.map KeyTerm.term = indices ∧
      List.Forall₂ (fun request key => draft.keyTerms.get? request.name = some key ∧
        key.toKeyRequest.Serves request) requests keys := by
  induction h with
  | nil => exact ⟨[], rfl, .nil⟩
  | cons hfirst _ ih =>
    obtain ⟨key, hkey, hserves, rfl⟩ := hfirst
    obtain ⟨keys, rfl, hkeys⟩ := ih
    exact ⟨key :: keys, rfl, .cons ⟨hkey, hserves⟩ hkeys⟩

/-- **The choice of a declaration.**  In a sound draft in which it does not wait for its shape, a
declaration is a choice between the key terms that are recorded under the declared names. -/
theorem Sound.exists_chooses (hsound : draft.Sound told) (hmem : type ∈ told)
    (hchoice : type.IsChoice) (hlookup : draft.declared.lookup type.typeName = some index)
    (hpending : ¬ draft.IsPending index) (htexts : "" ∉ type.texts) (name : String)
    (root : TermIndex) (comments : List Comment) :
    ∃ keys : List KeyTerm, (draft.complete name root comments).Chooses index type.entry keys ∧
      keys.map KeyTerm.toKeyRequest = type.requests.map draft.keyTerms.recorded ∧
        keys.map (·.text) = type.texts := by
  obtain ⟨kind, entry, hentry, hstays, hkind⟩ := hsound.stands type hmem index hlookup
  obtain rfl := hstays.eq_of_maker (hchoice.not_isNodeType kind)
  rcases hkind with rfl | ⟨_, shape, rfl, hfits⟩
  · exact absurd ⟨_, hentry, hchoice.kind_eq⟩ hpending
  · obtain ⟨indices, hindices, rfl⟩ := hchoice.choiceOf hfits
    obtain ⟨keys, rfl, hkeys⟩ := exists_records hindices
    have hrequests : List.Forall₂ Eq (keys.map KeyTerm.toKeyRequest)
        (type.requests.map draft.keyTerms.recorded) := by
      rw [List.forall₂_map_left_iff, List.forall₂_map_right_iff]
      refine hkeys.flip.imp fun key request hkey => ?_
      rw [KeyTermTable.recorded, hkey.1]
      rfl
    have hsame : List.Forall₂ Eq (keys.map (·.text)) type.texts := by
      rw [TypeDeclaration.texts, List.forall₂_map_left_iff, List.forall₂_map_right_iff]
      exact hkeys.flip.imp fun _ _ hkey => hkey.2.text
    rw [List.forall₂_eq_eq_eq] at hrequests hsame
    refine ⟨keys, ⟨⟨term?_of_entry hentry, makers_of_entry hentry⟩, fun key hkey => ?_,
      fun key hkey => ?_⟩, hrequests, hsame⟩
    · obtain ⟨request, _, hget, _⟩ := exists_of_forall₂_right hkeys hkey
      have hstands := hsound.keys _ _ hget
      exact ⟨term?_of_entry hstands, makers_of_entry hstands⟩
    · obtain ⟨request, _, hget, _⟩ := exists_of_forall₂_right hkeys hkey
      have hempty : key.text ≠ "" := fun hempty =>
        htexts (hsame ▸ hempty ▸ List.mem_map_of_mem hkey)
      exact ⟨hempty, fun hword => Language.mem_symbols.mpr
        ⟨⟨key, KeyTermTable.mem_of_get? hget, rfl⟩, hempty, hword⟩⟩

/-- In renamed drafts the same is recorded under each name. -/
theorem Renames.recorded_eq (h : Renames R a b) : a.keyTerms.recorded = b.keyTerms.recorded := by
  funext request
  have hkeys := h.keyTerms request.name
  unfold KeyTermTable.recorded
  generalize a.keyTerms.get? request.name = found, b.keyTerms.get? request.name = found' at hkeys
  cases hkeys with
  | none => rfl
  | some hkey => exact hkey.request

/-- Renamed drafts have the same symbols, if each record is found under its name. -/
theorem Renames.mem_symbols (h : Renames R a b)
    (hfound : ∀ key ∈ a.keyTerms.records, a.keyTerms.get? key.name = some key)
    (htext : text ∈ (a.complete name root comments).language.symbols) :
    text ∈ (b.complete name root' comments).language.symbols := by
  obtain ⟨⟨key, hkey, rfl⟩, hsymbol⟩ := Language.mem_symbols.mp htext
  have hkeys := h.keyTerms key.name
  rw [hfound key hkey] at hkeys
  generalize hother : b.keyTerms.get? key.name = found' at hkeys
  cases hkeys with
  | some hlike =>
    refine Language.mem_symbols.mpr ⟨⟨_, KeyTermTable.mem_of_get? hother, ?_⟩, hsymbol⟩
    exact congrArg KeyRequest.text hlike.request.symm

end Draft

/-! ## Grammars -/

namespace GrammarDescription

open Draft

variable {description : GrammarDescription} {built : BuiltGrammar} {order : Reordering}

/-- In the draft of a language that has nothing critical, no declaration is left without a shape. -/
theorem not_isBroken {draft : Draft} {name : String} {root : TermIndex} {comments : List Comment}
    (h : (draft.complete name root comments).language.IsUncritical) : ¬ draft.IsBroken := by
  rintro ⟨n, entry, hentry, hkind, _⟩
  have hterm : entry.toTerm ∈ (draft.complete name root comments).language.terms :=
    Array.mem_map_of_mem (Array.mem_of_getElem? hentry)
  have hcomplete := Language.isComplete_iff.mpr fun message hmessage hdangling => by
    rcases hdangling with ⟨_, rfl⟩ | ⟨_, _, rfl⟩ <;> exact h _ hmessage rfl
  have hshaped := hcomplete.shaped entry.toTerm hterm (Term.isTerminal_of_kind hkind)
  rw [Term.shape?_of_kind hkind] at hshaped
  cases hshaped

/-- **Compiling in another order.**  If the entries stand in another order, a description is
compiled from a renamed draft. -/
theorem exists_renames (hself : description.IsSelfContained) {draft : Draft} {i : TermIndex}
    (hrun : (defineNode description.types description.root).runOn .empty = (.ok i, draft))
    (hbroken : ¬ draft.IsBroken) (order : Reordering) :
    ∃ j draft' R, (defineNode (description.reordered order).types description.root).runOn .empty =
      (.ok j, draft') ∧ Draft.Renames R draft draft' := by
  have hruns := inStep_defineNodeWithin order hself (description.types.size + 1)
    description.root _ (le_refl _) .empty .empty renames_empty
  have hsize : (description.types.map (·.reordered order)).size = description.types.size :=
    Array.size_map
  unfold defineNode at hrun
  show ∃ j draft' R, (defineNodeWithin (description.types.map (·.reordered order))
    ((description.types.map (·.reordered order)).size + 1) description.root).runOn .empty = _ ∧ _
  rw [hrun] at hruns
  rw [hsize]
  generalize (defineNodeWithin (description.types.map (·.reordered order))
    (description.types.size + 1) description.root).runOn .empty = run at hruns ⊢
  cases hruns with
  | broken hbroken' => exact absurd hbroken' hbroken
  | ok R _ hrenames _ => exact ⟨_, _, R, rfl, hrenames⟩

/-- What is recorded in the draft of a description is found under its name. -/
theorem found_of_runOn {number : ℕ} {types : Array NodeDeclaration} {draft : Draft} {i : TermIndex}
    (hrun : (defineNode types number).runOn .empty = (.ok i, draft)) :
    ∀ key ∈ draft.keyTerms.records, draft.keyTerms.get? key.name = some key := by
  obtain ⟨events, hevents⟩ := exists_run_of_defineNode hrun
  exact (Session.Run.tracksKeys hevents).found

/-- The draft of a coherent description is sound. -/
theorem sound_of_runOn (hcoherent : description.IsCoherent) {draft : Draft} {i : TermIndex}
    (hrun : (defineNode description.types description.root).runOn .empty = (.ok i, draft)) :
    draft.Sound {d | d ∈ description.declarations} := by
  have hsound := (respects_defineNodeWithin hcoherent.tellsFamily (description.types.size + 1)
    description.root .empty).sound (sound_empty _)
  unfold defineNode at hrun
  rwa [hrun] at hsound

end GrammarDescription

/-- In a draft that is not broken, no declaration of a choice waits for its shape. -/
theorem Draft.Sound.not_isPending {draft : Draft} {told : Set TypeDeclaration}
    {type : TypeDeclaration} {index : TermIndex} (hsound : draft.Sound told) (hmem : type ∈ told)
    (hchoice : type.IsChoice) (hlookup : draft.declared.lookup type.typeName = some index)
    (hbroken : ¬ draft.IsBroken) : ¬ draft.IsPending index := by
  rintro ⟨entry, hentry, hkind⟩
  obtain ⟨kind, entry', hentry', hstays, _⟩ := hsound.stands type hmem index hlookup
  obtain rfl := Option.some.inj (hentry.symm.trans hentry')
  obtain rfl := hstays.eq_of_maker (hchoice.not_isNodeType kind)
  exact hbroken ⟨_, _, hentry, hkind, hchoice.not_isNodeType kind⟩

/-- **Declarations of renamed drafts.**  A declaration whose entries stand in another order in the
second draft is a choice between the same key terms in both. -/
theorem Draft.Renames.exists_chooseSame {a b : Draft} {R : TermIndex → TermIndex → Prop}
    {told told' : Set TypeDeclaration} {order : Reordering} {type : TypeDeclaration}
    {i : TermIndex} (h : Draft.Renames R a b) (hsound : a.Sound told) (hsound' : b.Sound told')
    (hmem : type ∈ told) (hmem' : type.reordered order ∈ told') (hbroken : ¬ a.IsBroken)
    (hfound : ∀ key ∈ a.keyTerms.records, a.keyTerms.get? key.name = some key)
    (hfound' : ∀ key ∈ b.keyTerms.records, b.keyTerms.get? key.name = some key)
    (hchoice : type.IsChoice) (hempty : "" ∉ type.texts) (hnodup : type.texts.Nodup)
    (hi : a.declared.lookup type.typeName = some i) (name : String) (root root' : TermIndex)
    (comments : List Comment) :
    ∃ j keys keys', b.declared.lookup type.typeName = some j ∧
      (a.complete name root comments).ChooseSame (b.complete name root' comments) i j type.entry
        keys keys' ∧
      keys.map (·.text) = type.texts ∧ keys'.map (·.text) = (type.reordered order).texts := by
  have hlookups := h.lookup_declared type.typeName
  rw [hi] at hlookups
  generalize hj : b.declared.lookup type.typeName = found at hlookups
  cases hlookups with
  | @some _ j hij =>
    have hpending := hsound.not_isPending hmem hchoice hi hbroken
    have hempty' : "" ∉ (type.reordered order).texts := mt type.perm_texts.mem_iff.mpr hempty
    obtain ⟨keys, hchooses, hkeys, htexts⟩ :=
      hsound.exists_chooses hmem hchoice hi hpending hempty name root comments
    obtain ⟨keys', hchooses', hkeys', htexts'⟩ :=
      hsound'.exists_chooses hmem' hchoice.reordered
        (by rwa [TypeDeclaration.typeName_reordered]) (mt (h.pending i j hij).mpr hpending) hempty'
        name root' comments
    rw [TypeDeclaration.entry_reordered] at hchooses'
    refine ⟨j, keys, keys', rfl, ?_, htexts, htexts'⟩
    exact {
      left := hchooses
      right := hchooses'
      name := rfl
      comments := rfl
      symbols := fun text => ⟨h.mem_symbols hfound, h.symm.mem_symbols hfound'⟩
      ignoresNames := hchoice.ignoresNames
      perm := by
        rw [hkeys, hkeys', ← h.recorded_eq]
        exact type.perm_requests.map _
      nodup := htexts ▸ hnodup }

namespace Grammar

open BuiltGrammar

variable {description : GrammarDescription} {grammar : Grammar} {built : BuiltGrammar}
  {threshold : Severity}

/-- **The order of entries.**  Let a grammar be built in which rules do not refer to terms by
number.  With the entries of constants and operators in any other order it is compiled as well.  A
declaration of different texts that are not empty reads alike in both grammars if each of its words
stands before the same of its other texts that begin with just this word; and unless one of the
texts begins with white space or a comment, it reads alike in no other order. -/
theorem readsAlike_reordered (hcoherent : description.IsCoherent)
    (hself : description.IsSelfContained)
    (hbuild : (Grammar.mk description none).build threshold = (.ok true, grammar))
    (hbuilt : grammar.built = some built) (order : Reordering) :
    ∃ built', (description.reordered order).compile = .ok built' ∧
      ∀ type ∈ description.declarations, type.IsChoice → "" ∉ type.texts → type.texts.Nodup →
        ∀ i, description.indexOf? type.typeName = some i →
          ∃ j, (description.reordered order).indexOf? type.typeName = some j ∧
            (KeepsClashes type.texts (type.reordered order).texts → ReadsAlike built built' i j) ∧
            ((∀ text ∈ type.texts,
                Skips description.comments (.start text.toList) (.start text.toList)) →
              ReadsAlike built built' i j →
                KeepsClashes type.texts (type.reordered order).texts) := by
  obtain ⟨built', hcompile, huncritical, rfl⟩ := build_ok hbuild
  obtain rfl := Option.some.inj hbuilt
  obtain ⟨_, root, draft, _, hrun, rfl⟩ := GrammarDescription.compile_ok hcompile
  have hbroken := GrammarDescription.not_isBroken huncritical
  obtain ⟨root', draft', R, hrun', hrenames⟩ :=
    GrammarDescription.exists_renames hself hrun hbroken order
  have hsound := GrammarDescription.sound_of_runOn hcoherent hrun
  have hsound' : draft'.Sound {d | d ∈ (description.reordered order).declarations} :=
    GrammarDescription.sound_of_runOn hcoherent.reordered hrun'
  -- The other grammar is completed from the renamed draft.
  refine ⟨draft'.complete description.name root' description.comments, ?_, ?_⟩
  · unfold GrammarDescription.compile
    rw [show (description.reordered order).root = description.root from rfl, hrun']
    rfl
  · intro type hmem hchoice hempty hnodup i hi
    rw [GrammarDescription.indexOf?, hrun] at hi
    have hmem' : type.reordered order ∈ (description.reordered order).declarations := by
      rw [GrammarDescription.declarations_reordered]
      exact List.mem_map_of_mem hmem
    obtain ⟨j, keys, keys', hj, hsame, htexts, htexts'⟩ := hrenames.exists_chooseSame hsound hsound'
      hmem hmem' hbroken (GrammarDescription.found_of_runOn hrun)
      (GrammarDescription.found_of_runOn hrun') hchoice hempty hnodup hi description.name root root'
      description.comments
    have hindex : (description.reordered order).indexOf? type.typeName = some j := by
      rw [GrammarDescription.indexOf?, show (description.reordered order).root = description.root
        from rfl, hrun']
      exact hj
    rw [← htexts, ← htexts']
    exact ⟨j, hindex, hsame.readsAlike, fun hskips hreads => hsame.keepsClashes hreads hskips⟩

end Grammar

/-! ## Texts that clash

A grammar of three constants, of which one is a word that clashes with another one.  In an order in
which the word still comes first the constants read alike; in the opposite order they do not. -/

/-- Each list of entries is put into another order, where their names are different. -/
def Reordering.ofLists (f : {α : Type} → List α → List α)
    (hf : ∀ {α : Type} (entries : List α), entries.Perm (f entries)) : Reordering where
  constants type :=
    if (type.constants.map (·.name)).Nodup then f type.constants else type.constants
  operators type :=
    if (type.operators.map (·.name)).Nodup then f type.operators else type.operators
  constants_perm type := by
    split
    · exact hf type.constants
    · exact .refl _
  operators_perm type := by
    split
    · exact hf type.operators
    · exact .refl _
  constants_names type h := by
    by_contra hnames
    exact h (if_neg hnames)
  operators_names type h := by
    by_contra hnames
    exact h (if_neg hnames)

/-- The first entry is put at the end. -/
def Reordering.rotated : Reordering :=
  .ofLists (·.rotate 1) fun entries => (entries.rotate_perm 1).symm

/-- The last entry is put first, and so on. -/
def Reordering.reversed : Reordering :=
  .ofLists List.reverse fun entries => entries.reverse_perm.symm

namespace ClashingTexts

/-- Texts as constants, which stand for themselves. -/
def constants (texts : List String) : ConstantDeclaration where
  typeName := "Texts"
  name := "Texts"
  type := .text
  constants := texts.map fun text => ⟨text, .text text, text⟩
  keywords := false
  transient := false

/-- The node type of one constant. -/
def node (texts : List String) : NodeDeclaration where
  typeName := "A"
  name := "A"
  number := 0
  valueType := .unit
  rule := .constant (constants texts)
  afterthoughts := []
  build _ := .ok .null

/-- The grammar of a constant. -/
def description (texts : List String) : GrammarDescription where
  name := "Texts"
  types := #[node texts]
  root := 0
  comments := []

/-- The root is the first term. -/
def rootIndex : TermIndex :=
  .ofNat 0

/-- The constants follow the root, and their texts follow them. -/
def constantsIndex : TermIndex :=
  .ofNat 1

/-- The key term of a text. -/
def key (text : String) (number : ℕ) : KeyTerm where
  name := text
  text := text
  value := .text text
  flags := .none
  precedence := none
  term := .ofNat number

variable (x y z : String)

/-- The draft once the three texts are registered. -/
def draft : Draft where
  entries := #[
    { (node []).pending with kind := .rule (some (.term constantsIndex)) },
    { name := "Texts"
      kind := .rule (some (.choice [.term (.ofNat 2), .term (.ofNat 3), .term (.ofNat 4)]))
      maker := some (.constant .text) },
    (key x 2).entry, (key y 3).entry, (key z 4).entry]
  keyTerms := ((KeyTermTable.empty.push (key x 2)).push (key y 3)).push (key z 4)
  declared := [("Texts", constantsIndex), ("A", rootIndex)]
  claims := [("Texts", "Texts"), ("A", "A")]
  optionals := []
  groups := []
  lists := []
  braces := []

/-- Three different texts are registered in their order. -/
theorem runOn_defineNode (hxy : x ≠ y) (hxz : x ≠ z) (hyz : y ≠ z) :
    (defineNode (description [x, y, z]).types (description [x, y, z]).root).runOn .empty =
      (.ok rootIndex, draft x y z) := by
  simp [defineNode, defineNodeWithin, description, declare, claim, node, constants,
    Draft.empty, Draft.pushEntry, Draft.modifyTerm, Term.withShape, TermIndex.ofNat?, termLimit,
    NodeDeclaration.pending, KeyRequest.entry, Rule.eval, constant, choiceOf, Except.map,
    List.lookup_cons, List.lookup_nil, KeyTermTable.lookup, KeyTermTable.get?_push, hxy, hxz, hyz]
  exact ⟨rfl, rfl⟩

/-- The grammar of three texts. -/
def built : BuiltGrammar :=
  (draft x y z).complete "Texts" rootIndex []

/-- It is compiled if the texts are different. -/
theorem compile_eq (hxy : x ≠ y) (hxz : x ≠ z) (hyz : y ≠ z) :
    (description [x, y, z]).compile = .ok (built x y z) := by
  rw [GrammarDescription.compile, runOn_defineNode x y z hxy hxz hyz]
  rfl

/-- The text with a hyphen is the only symbol. -/
theorem lexicon_eq
    (htexts : ([x, y, z].filter fun text => !text.isEmpty && !Text.isWord text).eraseDups =
      ["a-b"]) : (built x y z).language.lexicon = ⟨["a-b"], [], []⟩ :=
  Language.lexicon_of_texts htexts (List.pairwise_singleton _ _) (by with_unfolding_all rfl) rfl

/-- The texts in the order in which they are declared. -/
def texts : List String :=
  ["b", "a", "a-b"]

theorem build_eq : (Grammar.mk (description texts) none).build .critical =
    (.ok true, ⟨description texts, some (built "b" "a" "a-b")⟩) :=
  Grammar.build_of_compile (compile_eq _ _ _ (by decide) (by decide) (by decide))
    (by decide +kernel)

/-- From the last entry to the first, the symbol stands before the word. -/
theorem description_reversed :
    (description texts).reordered .reversed = description ["a-b", "a", "b"] := by
  with_unfolding_all rfl

/-- There is only one declaration, so none are confused. -/
theorem isCoherent : (description texts).IsCoherent :=
  List.inj_on_of_nodup_map (by decide)

/-- The rules do not refer to terms by number. -/
theorem isSelfContained : (description texts).IsSelfContained := by
  intro type htype
  obtain rfl : type = node texts := by simpa [description] using htype
  exact ⟨trivial, fun _ hmem => absurd hmem List.not_mem_nil⟩

/-- The trees of a constant. -/
def trees (number : ℕ) (text : String) : List Tree :=
  [.node (.term constantsIndex) [.token (.term (.ofNat number)) text]]

/-- Where a text begins. -/
def start : Cursor :=
  .start "a-b".toList

/-- Behind the word. -/
def behindWord : Cursor :=
  ⟨1, ['-', 'b'], 2, rfl⟩

/-- The word comes first. -/
theorem takes_word :
    ((built "b" "a" "a-b").language.taskMatcher nestingLimit (.term constantsIndex)).Takes start
      (trees 3 "a") behindWord := by
  show ∃ _, _
  rw [Language.taskMatcher, lexicon_eq "b" "a" "a-b" (by decide +kernel)]
  apply Exists.intro
  with_unfolding_all rfl

/-- The symbol comes first, and it is longer. -/
theorem takes_symbol :
    ((built "a-b" "a" "b").language.taskMatcher nestingLimit (.term constantsIndex)).Takes start
      (trees 2 "a-b") ⟨3, [], 0, rfl⟩ := by
  show ∃ _, _
  rw [Language.taskMatcher, lexicon_eq "a-b" "a" "b" (by decide +kernel)]
  apply Exists.intro
  with_unfolding_all rfl

/-- The constants are registered as the term behind the root. -/
theorem indexOf?_eq : (description texts).indexOf? "Texts" = some constantsIndex := by
  rw [GrammarDescription.indexOf?, texts,
    runOn_defineNode _ _ _ (by decide) (by decide) (by decide)]
  rfl

/-- The constants read alike once the first of them is put at the end. -/
theorem readsAlike_rotated :
    (description texts).IsCoherent ∧ (description texts).IsSelfContained ∧
      (Grammar.mk (description texts) none).build .critical =
        (.ok true, ⟨description texts, some (built "b" "a" "a-b")⟩) ∧
      ∃ built', ((description texts).reordered .rotated).compile = .ok built' ∧
        ∃ j, ((description texts).reordered .rotated).indexOf? "Texts" = some j ∧
          (built "b" "a" "a-b").ReadsAlike built' constantsIndex j := by
  obtain ⟨built', hcompile, hreads⟩ :=
    Grammar.readsAlike_reordered isCoherent isSelfContained build_eq rfl .rotated
  obtain ⟨j, hj, halike, _⟩ := hreads (.constant (constants texts))
    (List.mem_cons_of_mem _ List.mem_cons_self) trivial (by decide) (by decide) _ indexOf?_eq
  have htexts : ((TypeDeclaration.constant (constants texts)).reordered .rotated).texts =
      ["a", "a-b", "b"] := by
    with_unfolding_all rfl
  refine ⟨isCoherent, isSelfContained, build_eq, built', hcompile, j, hj, halike ?_⟩
  rw [htexts]
  decide +kernel

/-- **The order of entries may matter.**  In the opposite order the longer text comes before the
word with which it clashes, and is matched where the word was matched before. -/
theorem not_readsAlike_reversed :
    (description texts).IsCoherent ∧ (description texts).IsSelfContained ∧
      (constants texts).constants.map (·.text) = texts ∧
      (constants texts).constants.map (·.name) = texts ∧ texts.Nodup ∧ "" ∉ texts ∧
      (Grammar.mk (description texts) none).build .critical =
        (.ok true, ⟨description texts, some (built "b" "a" "a-b")⟩) ∧
      (Grammar.mk ((description texts).reordered .reversed) none).build .critical =
        (.ok true, ⟨(description texts).reordered .reversed, some (built "a-b" "a" "b")⟩) ∧
      (description texts).indexOf? "Texts" = some constantsIndex ∧
      ((description texts).reordered .reversed).indexOf? "Texts" = some constantsIndex ∧
      ¬ (built "b" "a" "a-b").ReadsAlike (built "a-b" "a" "b") constantsIndex constantsIndex := by
  refine ⟨isCoherent, isSelfContained, by decide, by decide, by decide, by decide, build_eq, ?_,
    indexOf?_eq, ?_, fun hreads => ?_⟩
  · rw [description_reversed]
    exact Grammar.build_of_compile (compile_eq _ _ _ (by decide) (by decide) (by decide))
      (by decide +kernel)
  · rw [description_reversed, GrammarDescription.indexOf?,
      runOn_defineNode _ _ _ (by decide) (by decide) (by decide)]
    rfl
  · -- The longer text would have to be matched in the first grammar as well.
    obtain ⟨trees, htrees⟩ := (hreads.spans _ _ _).mpr ⟨_, takes_symbol⟩
    have hstop := congrArg Cursor.index (htrees.unique takes_word).2
    exact absurd hstop (by decide)

end ClashingTexts

end TypedGrammar
