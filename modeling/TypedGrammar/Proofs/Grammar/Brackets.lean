import TypedGrammar.Proofs.Grammar.Positions
import TypedGrammar.Proofs.Node.Layers

/-!
# Brackets

What stands between two symbols is one part, while the same shape without the symbols is as many
parts as it matches.  So the nested node of a brace is made in two ways.  They lead to the same
node, but for where it is located, as a sequence that is made of the parts at once, and one that is
made of the parts first and then unwrapped, have the same layers.
-/

namespace TypedGrammar

namespace Node

variable {node : Node} {nodes : List Node} {location elsewhere : Location}

/-- The node, located elsewhere; the nodes below it stay where they are. -/
def relocate (location : Location) : Node → Node
  | sequence _ children => sequence location children
  | absent _ => absent location
  | present _ inner => present location inner
  | brace _ opening closing nested => brace location opening closing nested
  | identifier _ symbol => identifier location symbol
  | key _ value name text flags precedence => key location value name text flags precedence
  | constant _ value => constant location value
  | literal _ value raw => literal location value raw
  | list _ element children => list location element children
  | declared _ owner value children => declared location owner value children

@[simp] theorem relocate_location (node : Node) : node.relocate node.location = node := by
  cases node <;> rfl

@[simp] theorem payload?_relocate (location : Location) (node : Node) :
    (node.relocate location).payload? = node.payload? := by
  cases node <;> rfl

@[simp] theorem payloadType_relocate (location : Location) (node : Node) :
    (node.relocate location).payloadType = node.payloadType := by
  cases node <;> rfl

/-- What is left of a sequence does not depend on where the sequence is, but for its location. -/
theorem exists_soleOrSelf_ofSequence (location elsewhere : Location) (nodes : List Node) :
    ∃ l, (ofSequence elsewhere nodes).soleOrSelf =
      (ofSequence location nodes).soleOrSelf.relocate l := by
  unfold ofSequence
  match towerTopOf nodes with
  | [only] => exact ⟨only.location, only.relocate_location.symm⟩
  | [] | _ :: _ :: _ => exact ⟨elsewhere, rfl⟩

/-- To make a sequence of a single node, and then to unwrap it, is to unwrap the node. -/
theorem exists_soleOrSelf_singleton (h : node.IsTidy) (elsewhere : Location) :
    ∃ l, (ofSequence elsewhere [node]).soleOrSelf = node.soleOrSelf.relocate l := by
  cases node with
  | sequence location children =>
    have htower := towerTopOf_of_isTidy h
    have hself : Node.sequence location children = ofSequence location children := by
      rw [ofSequence, htower]
    have hsole : ofSequence elsewhere [.sequence location children] =
        ofSequence elsewhere children := by
      rw [ofSequence, ofSequence, towerTopOf, towerTop]
    rw [hsole, hself]
    exact exists_soleOrSelf_ofSequence location elsewhere children
  | _ =>
    rw [ofSequence, towerTopOf, towerTop]
    · exact ⟨_, (relocate_location _).symm⟩
    · intro _ _ hsequence
      cases hsequence

end Node

namespace Reading

variable {reading : Reading} {tree : Tree} {trees : List Tree} {depth offset : ℕ} {node : Node}
  {parts : List Part} {part : Part}

/-- **Nodes that are read are made.** -/
theorem isMade_of_node (h : reading.node depth offset tree = .ok (some node)) : node.IsMade := by
  induction tree generalizing depth offset node with
  | token kind text =>
    obtain ⟨occurrence, hands, hmake⟩ := exists_hands_of_node h
    cases hands with
    | token => exact .make _ _ hmake fun n hn => absurd hn List.not_mem_nil
  | node kind children ih =>
    obtain ⟨occurrence, hands, hmake⟩ := exists_hands_of_node h
    cases hands with
    | @rule _ _ _ parts _ _ _ hparts =>
      refine .make _ _ hmake fun n hn => ?_
      obtain ⟨part, hpart, hnode⟩ := Occurrence.mem_nodes.mp hn
      obtain ⟨place, hplace, _, hread⟩ := exists_of_forall₂_right (forall₂_of_parts hparts) hpart
      obtain ⟨⟨front, rest, rfl, _⟩, _⟩ := Tree.mem_placedParts_iff.mp hplace
      rw [hnode] at hread
      exact ih place.2 (List.mem_append_right _ List.mem_cons_self) hread

end Reading

/-! ## Transparency -/

namespace Occurrence

variable {occurrence : Occurrence} {opening middle closing : Part}

/-- An occurrence of three parts, of which the first opens and the last closes a brace. -/
theorem toBrace_of_symbols (hparts : occurrence.parts = [opening, middle, closing])
    (hopen : opening.term.flags.has .openBrace = true)
    (hclose : closing.term.flags.has .closeBrace = true) :
    occurrence.toBrace = .brace occurrence.location opening.term.text? closing.term.text?
      (middle.node.getD (Node.ofSequence occurrence.location [])).soleOrSelf := by
  unfold toBrace
  rw [hparts]
  simp only [hopen, hclose, Bool.and_self, if_true]

/-- An occurrence that no symbol opens. -/
theorem toBrace_of_plain
    (hplain : ∀ part ∈ occurrence.parts, part.term.flags.has .openBrace = false) :
    occurrence.toBrace =
      .brace occurrence.location none none occurrence.toSequence.soleOrSelf := by
  unfold toBrace
  split
  · next first second third hparts =>
    have hfirst := hplain first (by simp [hparts])
    rw [hfirst, Bool.false_and, if_neg Bool.false_ne_true]
  · rfl

/-- **Brackets are transparent.**  Let an inside have parts that are made and none of which is a
symbol of a brace, and let it be grouped as a single part: as the only part that it has, or as one
part with the sequence of all its parts.  Then the brace around the group and the brace of the
inside alone have the same nested node, but for where it is located.  So they hold the same, or
both nothing, and declare the same type; the first one reports its two symbols, the second one
none. -/
theorem brackets_transparent {bracketed bare : Occurrence} {opening group closing : Part}
    {openText closeText : String} (hbracketed : bracketed.parts = [opening, group, closing])
    (hopen : opening.term.flags.has .openBrace = true)
    (hclose : closing.term.flags.has .closeBrace = true)
    (hopenText : opening.term.text? = some openText)
    (hcloseText : closing.term.text? = some closeText)
    (hplain : ∀ part ∈ bare.parts,
      part.term.flags.has .openBrace = false ∧ part.term.flags.has .closeBrace = false)
    (hmade : ∀ part ∈ bare.parts, ∀ node, part.node = some node → node.IsMade)
    (hgroup : bare.parts = [group] ∨
      ∃ inside : Occurrence, inside.parts = bare.parts ∧ group.node = some inside.toSequence) :
    ∃ nested nested' l,
      bracketed.toBrace = .brace bracketed.location (some openText) (some closeText) nested ∧
      bare.toBrace = .brace bare.location none none nested' ∧
      nested' = nested.relocate l ∧
      bracketed.toBrace.hasValue = bare.toBrace.hasValue ∧
      bracketed.toBrace.payload? = bare.toBrace.payload? ∧
      bracketed.toBrace.payloadType = bare.toBrace.payloadType := by
  have hbrace := toBrace_of_symbols hbracketed hopen hclose
  have hsequence := toBrace_of_plain fun part hpart => (hplain part hpart).1
  rw [hopenText, hcloseText] at hbrace
  have hsame : ∃ l, bare.toSequence.soleOrSelf =
      (group.node.getD (Node.ofSequence bracketed.location [])).soleOrSelf.relocate l := by
    rcases hgroup with hsingle | ⟨inside, hinside, hnode⟩
    · -- The group is the only part of the inside, with a node of any kind or with none.
      cases hnode : group.node with
      | none =>
        have hnodes : bare.nodes = [] := by simp [nodes, hsingle, hnode]
        rw [toSequence, hnodes]
        exact Node.exists_soleOrSelf_ofSequence _ _ []
      | some node =>
        have hnodes : bare.nodes = [node] := by simp [nodes, hsingle, hnode]
        have htidy := (hmade group (by simp [hsingle]) node hnode).isTidy
        rw [toSequence, hnodes]
        exact Node.exists_soleOrSelf_singleton htidy bare.location
    · have hnodes : inside.nodes = bare.nodes := congrArg (List.filterMap Part.node) hinside
      rw [hnode, Option.getD_some, toSequence, toSequence, hnodes]
      exact Node.exists_soleOrSelf_ofSequence _ _ bare.nodes
  obtain ⟨l, hl⟩ := hsame
  have hpayload : bracketed.toBrace.payload? = bare.toBrace.payload? := by
    rw [hbrace, hsequence, hl, Node.payload?, Node.payload?, Node.payload?_relocate]
  refine ⟨_, _, l, hbrace, hsequence, hl, congrArg Option.isSome hpayload, hpayload, ?_⟩
  rw [hbrace, hsequence, hl, Node.payloadType, Node.payloadType, Node.payloadType_relocate]

/-! ### Two words

Two words between parentheses, grouped as one part, and the same words alone. -/

/-- A place in a text of one line. -/
def column (n : ℕ) : Location :=
  ⟨0, n, n, "text"⟩

/-- The part of a symbol. -/
def symbolPart (text : String) (flags : Flags) : Part :=
  ⟨{ name := text, kind := .key text, flags },
    some (.key (column 0) (.text text) text text flags none)⟩

/-- The part of a word that begins at a place. -/
def wordPart (location : Location) (word : String) : Part :=
  ⟨{ name := "word", kind := .identifier .any }, some (.identifier location word)⟩

/-- The words alone. -/
def bareWords : Occurrence where
  term := { name := "words", kind := .rule none }
  location := column 1
  token := none
  parts := [wordPart (column 1) "a", wordPart (column 3) "b"]

/-- The words as one part. -/
def groupedWords : Part :=
  ⟨bareWords.term, some bareWords.toSequence⟩

/-- The words between parentheses. -/
def bracketedWords : Occurrence where
  term := { name := "(words)", kind := .rule none }
  location := column 0
  token := none
  parts := [symbolPart "(" (.ofList [.openBrace]), groupedWords,
    symbolPart ")" (.ofList [.closeBrace])]

theorem isMade_identifier (location : Location) (symbol : String) :
    (Node.identifier location symbol).IsMade :=
  .make (.word symbol) ⟨{ name := symbol, kind := .identifier .any }, location, none, []⟩ rfl
    fun _ hn => absurd hn List.not_mem_nil

/-- Either brace holds the two words. -/
theorem brackets_transparent_twoWords :
    ∃ nested nested' l,
      bracketedWords.toBrace = .brace (column 0) (some "(") (some ")") nested ∧
      bareWords.toBrace = .brace (column 1) none none nested' ∧ nested' = nested.relocate l ∧
      bracketedWords.toBrace.hasValue = bareWords.toBrace.hasValue ∧
      bracketedWords.toBrace.payload? = bareWords.toBrace.payload? ∧
      bracketedWords.toBrace.payloadType = bareWords.toBrace.payloadType := by
  have hmade : ∀ part ∈ bareWords.parts, ∀ node, part.node = some node → node.IsMade := by
    simp only [bareWords, List.forall_mem_cons]
    refine ⟨?_, ?_, fun _ h => absurd h List.not_mem_nil⟩
    · rintro node ⟨⟩
      exact isMade_identifier _ _
    · rintro node ⟨⟩
      exact isMade_identifier _ _
  exact brackets_transparent rfl (by decide) (by decide) rfl rfl (by decide) hmade
    (Or.inr ⟨bareWords, rfl, rfl⟩)

end Occurrence

end TypedGrammar
