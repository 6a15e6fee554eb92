import TypedGrammar.Draft.Basic

/-!
# Building rules

The steps by which terms are registered and shapes are made from them. A step that fails keeps what
was registered before it failed.
-/

namespace TypedGrammar

/-- A step on a draft that may fail; the draft outlives the failure. -/
abbrev Drafting := ExceptT Error (StateM Draft)

namespace Drafting

/-! ## Entries -/

/-- The error about an index that no term has. -/
def notRegistered (index : TermIndex) : Error :=
  .invalidState s!"term {index.value} is not registered"

/-- Adds an entry, unless all numbers of terms are taken. -/
def push (entry : Entry) : Drafting TermIndex := do
  let count := (← get).entries.size
  match TermIndex.ofNat? count with
  | some index =>
    modify (·.pushEntry entry)
    return index
  | none => throw (.rule entry.name s!"grammar exceeds {termLimit} terms")

/-- Gives a rule its shape. -/
def setShape (index : TermIndex) (shape : Shape) : Drafting Unit :=
  modify (·.modifyTerm index (·.withShape shape))

/-- Adds a rule with its shape. -/
def defineRule (name : String) (flags : Flags) (maker : Option Maker) (shape : Shape) :
    Drafting TermIndex := do
  let index ← push { name, kind := .rule none, flags, maker }
  setShape index shape
  return index

/-- Sets or clears flags of a term. -/
def setFlags (index : TermIndex) (flags : Flags) (on : Bool) : Drafting Unit := do
  if ((← get).term? index).isNone then throw (notRegistered index)
  modify (·.modifyTerm index fun term => { term with flags := term.flags.assign flags on })

/-- The term of an index. -/
def termAt (index : TermIndex) : Drafting Term := do
  match (← get).term? index with
  | some term => return term
  | none => throw (notRegistered index)

/-! ## Declarations -/

/-- The term of a declaration that is registered. -/
def declared? (typeName : String) : Drafting (Option TermIndex) := do
  return (← get).declared.lookup typeName

/-- Reserves a name for a declaration; another declaration may not have it. -/
def claim (typeName name : String) : Drafting Unit := do
  match (← get).claims.lookup name with
  | some owner =>
    if owner != typeName then
      throw (.registrationConflict name s!"type `{owner}`" s!"type `{typeName}`")
  | none => modify fun draft => { draft with claims := (name, typeName) :: draft.claims }

/-- Adds the entry of a declaration. -/
def declare (typeName : String) (entry : Entry) : Drafting TermIndex := do
  claim typeName entry.name
  let index ← push entry
  modify fun draft => { draft with declared := (typeName, index) :: draft.declared }
  return index

/-! ## Key terms -/

/-- The term of a key term, registered at the first request for its name. -/
def key (request : KeyRequest) : Drafting TermIndex := do
  match ← MonadExcept.ofExcept ((← get).keyTerms.lookup request) with
  | some index => return index
  | none =>
    let index ← push {
      name := request.name
      kind := .key request.text
      flags := request.flags
      precedence := request.precedence
      maker := some (.key request.value request.precedence) }
    modify fun draft =>
      { draft with keyTerms := draft.keyTerms.push { request with term := index } }
    return index

/-- A key term named after its text, which is also its value. -/
def textKey (text : String) (flags : Flags) : Drafting TermIndex :=
  key ⟨text, text, .text text, flags, none⟩

/-! ## Composites -/

/-- A single term for a shape: the shape itself if it is one, or else a rule made for it. -/
def group (shape : Shape) : Drafting Shape := do
  if shape.term?.isSome then return shape
  match (← get).groups.lookup shape with
  | some index => return .term index
  | none =>
    let name := (← get).label shape
    let index ← defineRule name .none none shape
    modify fun draft => { draft with groups := (shape, index) :: draft.groups }
    return .term index

/-- A brace: a shape between two symbols, or also alone if the symbols are omissible. -/
def braces (opening : String) (inside : Shape) (closing : String) (omissible : Bool) :
    Drafting Shape := do
  let spec : BraceSpec := ⟨opening, inside, closing, omissible⟩
  match (← get).braces.lookup spec with
  | some index => return .term index
  | none =>
    let openIndex ← textKey opening (.ofList [.openBrace])
    let closeIndex ← textKey closing (.ofList [.closeBrace])
    let grouped ← group inside
    let bracketed := Shape.term openIndex ++ grouped ++ Shape.term closeIndex
    let name := opening ++ (← get).label inside ++ closing
    let shape := if omissible then bracketed ||| inside else bracketed
    let index ← defineRule name .none (some .brace) shape
    modify fun draft => { draft with braces := (spec, index) :: draft.braces }
    return .term index

/-- An optional part: one rule for each shape. -/
def optional (shape : Shape) : Drafting Shape := do
  match (← get).optionals.lookup shape with
  | some index => return .term index
  | none =>
    let name := (← get).label shape ++ "?"
    let index ← defineRule name .none (some .optional) shape.orEmpty
    modify fun draft => { draft with optionals := (shape, index) :: draft.optionals }
    return .term index

/-- A list of elements of one type. Elements of several terms are grouped, so that each
repetition is one node. -/
def list (element : ValueType) (shape : Shape) (delimiter : Option Shape) (bounds : Bounds) :
    Drafting Shape := do
  let spec : ListSpec := ⟨element, shape, delimiter, bounds⟩
  match (← get).lists.lookup spec with
  | some index => return .term index
  | none =>
    let item ← group shape
    let name := (← get).label item ++ Shape.countSign bounds
    let index ← defineRule name (.ofList [.list]) (some (.list element))
      (Shape.repetition item delimiter bounds)
    modify fun draft => { draft with lists := (spec, index) :: draft.lists }
    return .term index

/-- A shape that is matched without making nodes. -/
def withoutNode (shape : Shape) : Drafting Shape := do
  let name := "~" ++ (← get).label shape
  return .term (← defineRule name (.ofList [.noNode]) none shape)

/-- A shape with a maker of its own. -/
def custom (name : String) (shape : Shape) (maker : Maker) : Drafting Shape := do
  return .term (← defineRule name .none (some maker) shape)

end Drafting

end TypedGrammar
