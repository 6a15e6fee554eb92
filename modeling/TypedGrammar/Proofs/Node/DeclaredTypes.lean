import Mathlib.Data.List.Basic
import TypedGrammar.Diagnostic
import TypedGrammar.Node.ListReader
import TypedGrammar.Rule.Basic

/-!
# Declared types

A node says of which type the thing is that it holds.  Nodes of most kinds have the type of the
declaration that they are made by; optionals and braces pass on the type and the value of what is
inside them, through any number of layers.  So the type that is said and the value that is there
can only agree if they do so at the bottom, and a node that holds nothing says the unit type.
-/

namespace TypedGrammar

/-! ## Reading the values of a list

What a node holds has the type that the node declares.  Read one after the other, the values of a
list are those of its nodes that hold something of the element type, in their order. -/

namespace Node

/-- What a node holds is of the type that the node declares. -/
theorem type_of_payload? {node : Node} {payload : Payload} (h : node.payload? = some payload) :
    payload.type = node.payloadType := by
  induction node using payload?.induct with
  | case2 location => cases h
  | case3 location inner ih => exact ih h
  | case4 location opening closing nested ih => exact ih h
  | _ =>
    rw [← Option.some.inj h]
    rfl

/-- A node of a type gives what it holds as of this type. -/
theorem payloadOf?_eq {node : Node} {type : ValueType} (htype : node.payloadType = type) :
    node.payloadOf? type = node.payload? := by
  unfold payloadOf?
  cases hpayload : node.payload? with
  | none => rfl
  | some payload =>
    have hsame : payload.type = type := (type_of_payload? hpayload).trans htype
    simp [hsame]

end Node

namespace ListReader

variable {element : ValueType} {nodes : List Node}

/-- The first value that is looked for is the first of all values. -/
theorem nextFrom_cases (element : ValueType) (nodes : List Node) :
    (nextFrom element nodes = none ∧ (ListReader.mk element nodes).toList = []) ∨
      ∃ payload rest, nextFrom element nodes = some (payload, rest) ∧
        (ListReader.mk element nodes).toList = payload :: (ListReader.mk element rest).toList := by
  induction nodes with
  | nil => exact Or.inl ⟨rfl, rfl⟩
  | cons node others ih =>
    unfold toList at ih ⊢
    rw [nextFrom]
    cases hpayload : node.payloadOf? element with
    | some payload =>
      exact Or.inr ⟨payload, others, rfl, List.filterMap_cons_some hpayload⟩
    | none =>
      rw [List.filterMap_cons_none hpayload]
      exact ih

/-- To read so many values is to take the first ones of all, and to leave the others. -/
theorem take_eq (reader : ListReader) (count : ℕ) :
    (reader.take count).1 = reader.toList.take count ∧
      (reader.take count).2.toList = reader.toList.drop count := by
  induction count generalizing reader with
  | zero => exact ⟨rfl, rfl⟩
  | succ count ih =>
    obtain ⟨element, nodes⟩ := reader
    rw [take]
    rcases nextFrom_cases element nodes with ⟨hnext, hall⟩ | ⟨payload, rest, hnext, hall⟩
    · rw [hnext, hall]
      exact ⟨rfl, rfl⟩
    · obtain ⟨htaken, hleft⟩ := ih ⟨element, rest⟩
      rw [hnext, hall, List.take_succ_cons, List.drop_succ_cons]
      exact ⟨congrArg (payload :: ·) htaken, hleft⟩

/-- If all nodes are of the element type and hold something, then the values are what they hold. -/
theorem map_some_toList (h : ∀ node ∈ nodes, node.payloadType = element ∧ node.hasValue = true) :
    (ListReader.mk element nodes).toList.map some = nodes.map Node.payload? := by
  unfold toList
  induction nodes with
  | nil => rfl
  | cons node rest ih =>
    obtain ⟨htype, hvalue⟩ := h node List.mem_cons_self
    obtain ⟨payload, hpayload⟩ := Option.isSome_iff_exists.mp hvalue
    have hof : node.payloadOf? element = some payload := (Node.payloadOf?_eq htype).trans hpayload
    rw [List.filterMap_cons_some hof, List.map_cons, List.map_cons, hpayload,
      ih fun n hn => h n (List.mem_cons_of_mem _ hn)]

end ListReader

/-! ## Values of declared types -/

/-- What is read from the text of a literal as a type has that type. -/
theorem ValueType.type_of_readText {type : ValueType} {text : String} {v : Value}
    (h : type.readText text = some v) : v.type = type := by
  cases type with
  | int64 =>
    obtain ⟨n, _, rfl⟩ := Option.map_eq_some_iff.mp h
    rfl
  | float64 =>
    obtain ⟨x, _, rfl⟩ := Option.map_eq_some_iff.mp h
    rfl
  | text =>
    rw [← Option.some.inj h]
    rfl
  | int32 => cases h
  | bool => cases h
  | char => cases h
  | unit => cases h
  | data => cases h
  | nodes => cases h

/-- The value of a token has the type of its declaration. -/
theorem LiteralDeclaration.type_of_read {declaration : LiteralDeclaration} {raw : String}
    {v : Value} (h : declaration.read raw = some v) : v.type = declaration.type := by
  unfold read Conversion.read at h
  cases hconversion : declaration.conversion with
  | parse =>
    rw [hconversion] at h
    exact ValueType.type_of_readText h
  | unquote quote =>
    rw [hconversion] at h
    obtain ⟨text, _, htext⟩ := Option.bind_eq_some_iff.mp h
    exact ValueType.type_of_readText htext
  | reject =>
    rw [hconversion] at h
    cases h

/-- The value of an occurrence has the type of its declaration. -/
theorem NodeDeclaration.type_of_value {declaration : NodeDeclaration} {contents : Contents}
    {v : Value} (h : declaration.value contents = .ok v) : v.type = declaration.valueType := by
  unfold value at h
  cases hbuild : declaration.build contents with
  | error e =>
    rw [hbuild] at h
    cases h
  | ok d =>
    rw [hbuild, ok_bind] at h
    split at h
    · next found hread =>
      rw [← Except.ok.inj h]
      exact ValueType.type_of_read hread
    · cases h

/-! ### Typed access -/

namespace Node

variable {node : Node} {type : ValueType}

/-- Only an absent optional holds nothing, so a node that holds nothing declares the unit type. -/
theorem payloadType_of_payload?_eq_none (h : node.payload? = none) : node.payloadType = .unit := by
  -- The layers around the absent optional have its type.
  induction node using payload?.induct with
  | case2 location => rfl
  | case3 location inner ih => exact ih h
  | case4 location opening closing nested ih => exact ih h
  | _ => cases h

theorem payload_of_payload?_eq_none (h : node.payload? = none) :
    ∃ message, node.payload = .error (.invalidState message) := by
  unfold payload
  rw [h]
  exact ⟨_, rfl⟩

/-- A node that holds nothing cannot be read as any type. -/
theorem payloadAs_of_payload?_eq_none (type : ValueType) (h : node.payload? = none) :
    ∃ message, node.payloadAs type = .error (.invalidState message) := by
  obtain ⟨message, hmessage⟩ := payload_of_payload?_eq_none h
  refine ⟨message, ?_⟩
  unfold payloadAs
  rw [hmessage]
  rfl

/-- Whatever a node holds is compared by the type that the node declares. -/
theorem payloadAs_of_payload? {payload : Payload} (h : node.payload? = some payload) :
    node.payloadAs type =
      if node.payloadType = type then .ok payload
      else .error (.typeMismatch type.name node.payloadType.name) := by
  have hpayload : node.payload = .ok payload := by
    unfold Node.payload
    rw [h]
  unfold payloadAs
  rw [hpayload, ← type_of_payload? h]
  rfl

/-- A value that is read as a type has that type. -/
theorem type_of_valueAs {v : Value} (h : node.valueAs type = .ok v) : v.type = type := by
  obtain ⟨payload, hpayload, hvalue⟩ := bind_eq_ok h
  cases hnode : node.payload? with
  | none =>
    obtain ⟨message, hmessage⟩ := payloadAs_of_payload?_eq_none type hnode
    rw [hmessage] at hpayload
    cases hpayload
  | some held =>
    rw [payloadAs_of_payload? hnode] at hpayload
    split at hpayload
    · next htype =>
      obtain rfl := Except.ok.inj hpayload
      have hheld : held.type = type := (type_of_payload? hnode).trans htype
      cases held with
      | value found =>
        rw [← Except.ok.inj hvalue]
        exact hheld
      | nodes children => cases hvalue
    · cases hpayload

end Node

/-! ### Makers -/

namespace Maker

variable {maker : Maker} {type : ValueType} {occurrence : Occurrence} {node : Node}

/-- **Types of makers.**  The makers whose nodes hold something of a type of their own, whatever is
below them: sequences and lists hold nodes, all others what their declaration says. -/
inductive Declares : Maker → ValueType → Prop
  | sequence : Declares .sequence .nodes
  | list (element : ValueType) : Declares (.list element) .nodes
  | key (value : Value) (precedence : Option Precedence) : Declares (.key value precedence) value.type
  | constant (type : ValueType) : Declares (.constant type) type
  | identifier (symbol : Occurrence → Except Error String) : Declares (.identifier symbol) .text
  | literal (declaration : LiteralDeclaration) : Declares declaration.maker declaration.type
  | declared (declaration : NodeDeclaration) :
      Declares (.declared declaration.identity declaration.value) declaration.valueType

/-- What is made by a declaration holds something of its type. -/
theorem Declares.holds (h : maker.Declares type) (hmake : maker.make occurrence = .ok node) :
    ∃ payload, node.payload? = some payload ∧ payload.type = type ∧ node.payloadType = type := by
  cases h with
  | sequence =>
    rw [← Except.ok.inj hmake]
    exact ⟨_, rfl, rfl, rfl⟩
  | list element =>
    rw [← Except.ok.inj hmake]
    exact ⟨_, rfl, rfl, rfl⟩
  | key value precedence =>
    rw [← Except.ok.inj hmake]
    exact ⟨_, rfl, rfl, rfl⟩
  | constant =>
    rw [make] at hmake
    split at hmake
    · next first rest _ =>
      obtain ⟨v, hv, rfl⟩ := map_eq_ok hmake
      exact ⟨.value v, rfl, Node.type_of_valueAs hv, Node.type_of_valueAs hv⟩
    · cases hmake
  | identifier symbol =>
    obtain ⟨s, _, rfl⟩ := map_eq_ok hmake
    exact ⟨_, rfl, rfl, rfl⟩
  | literal declaration =>
    obtain ⟨⟨v, raw⟩, hread, rfl⟩ := map_eq_ok hmake
    -- The type of a literal is checked when it is read.
    have htype : v.type = declaration.type := by
      simp only at hread
      split at hread
      · next found hfound =>
        obtain ⟨rfl, _⟩ := Prod.mk.inj (Except.ok.inj hread)
        exact LiteralDeclaration.type_of_read hfound
      · cases hread
    exact ⟨.value v, rfl, htype, htype⟩
  | declared declaration =>
    obtain ⟨v, hv, rfl⟩ := map_eq_ok hmake
    have htype : v.type = declaration.valueType := NodeDeclaration.type_of_value hv
    exact ⟨.value v, rfl, htype, htype⟩

end Maker

namespace Node

/-- **Declared types.**  What a node holds has the type that the node declares, which is the unit
type if it holds nothing; a node that was made by a declaration holds something of the type of that
declaration.  So a node is read as a type exactly if it holds something and declares this type; if
it holds nothing the state is invalid, and otherwise the types do not match. -/
theorem payloadAs_cases (node : Node) :
    (∀ payload, node.payload? = some payload → payload.type = node.payloadType) ∧
      (node.payload? = none → node.payloadType = .unit) ∧
      (∀ maker occurrence type, Maker.Declares maker type → maker.make occurrence = .ok node →
        ∃ payload, node.payload? = some payload ∧ payload.type = type ∧ node.payloadType = type) ∧
      ∀ type,
        (∀ payload, node.payloadAs type = .ok payload ↔
          node.payload? = some payload ∧ node.payloadType = type) ∧
        ((∃ message, node.payloadAs type = .error (.invalidState message)) ↔
          node.payload? = none) ∧
        (node.payloadAs type = .error (.typeMismatch type.name node.payloadType.name) ↔
          node.hasValue = true ∧ node.payloadType ≠ type) := by
  refine ⟨fun _ => type_of_payload?, payloadType_of_payload?_eq_none,
    fun _ _ _ => Maker.Declares.holds, fun type => ?_⟩
  cases hpayload : node.payload? with
  | none =>
    obtain ⟨message, hmessage⟩ := payloadAs_of_payload?_eq_none type hpayload
    rw [hmessage]
    simp [hasValue, hpayload]
  | some held =>
    rw [payloadAs_of_payload? hpayload]
    by_cases htype : node.payloadType = type
    · rw [if_pos htype]
      simp [hasValue, hpayload, htype]
    · rw [if_neg htype]
      simp [hasValue, hpayload, htype]

end Node

end TypedGrammar
