import TypedGrammar.Term.Attributes

/-!
# Shapes of rules

A shape says what a rule matches in terms of other terms. Shapes are put together with `++`, one
after the other, and `|||`, the first that matches; both splice nested sequences and choices, so
that only terms have nodes of their own.
-/

namespace TypedGrammar

/-- Advice for resolving conflicts. Ordered choice needs none, so hints are shown in the rule table
and have no other effect on what is matched. -/
inductive Hint
  | preferShift
  | preferReduce
  | precedence (p : Precedence)
  | shiftIf (symbol : String) (before : List String)
  | reduceIf (symbol : String) (before : List String)
  deriving DecidableEq, Repr

/-- How often the item of a repetition may occur, and whether a delimiter may follow the last. -/
structure Bounds where
  allowEmpty : Bool
  allowTrailing : Bool
  deriving DecidableEq, Repr

/-- What a rule matches. -/
inductive Shape
  /-- Matches without consuming input. -/
  | empty
  | term (index : TermIndex)
  | sequence (items : List Shape)
  /-- Alternatives, tried in order. -/
  | choice (alternatives : List Shape)
  | repeated (item : Shape) (bounds : Bounds)
  /-- A repetition with a delimiter between the items. -/
  | separated (item delimiter : Shape) (bounds : Bounds)
  | hint (h : Hint)

namespace Shape

/-! ## Equality -/

mutual

/-- Whether two shapes are the same. -/
def same : Shape → Shape → Bool
  | .empty, .empty => true
  | .term i, .term j => i = j
  | .sequence as, .sequence bs => sameList as bs
  | .choice as, .choice bs => sameList as bs
  | .repeated a m, .repeated b n => same a b && m = n
  | .separated a c m, .separated b d n => same a b && same c d && m = n
  | .hint g, .hint h => g = h
  | _, _ => false

/-- Whether two lists of shapes are the same. -/
def sameList : List Shape → List Shape → Bool
  | [], [] => true
  | a :: as, b :: bs => same a b && sameList as bs
  | _, _ => false

end

mutual

theorem same_iff_eq : ∀ a b : Shape, same a b = true ↔ a = b
  | .empty, b => by cases b <;> simp [same]
  | .term i, b => by cases b <;> simp [same]
  | .sequence as, b => by
    cases b <;> simp [same]
    exact sameList_iff_eq as _
  | .choice as, b => by
    cases b <;> simp [same]
    exact sameList_iff_eq as _
  | .repeated a m, b => by
    cases b <;> simp [same]
    simp [same_iff_eq a]
  | .separated a c m, b => by
    cases b <;> simp [same]
    simp [same_iff_eq a, same_iff_eq c, and_assoc]
  | .hint g, b => by cases b <;> simp [same]

theorem sameList_iff_eq : ∀ as bs : List Shape, sameList as bs = true ↔ as = bs
  | [], bs => by cases bs <;> simp [sameList]
  | a :: as, bs => by
    cases bs <;> simp [sameList]
    simp [same_iff_eq a, sameList_iff_eq as]

end

instance : DecidableEq Shape := fun a b => decidable_of_iff _ (same_iff_eq a b)

/-! ## Operators -/

/-- The items that a shape contributes to a sequence. -/
def items : Shape → List Shape
  | sequence items => items
  | empty => []
  | other => [other]

/-- The shape that matches the items one after the other; a single item stands for itself. -/
def ofItems : List Shape → Shape
  | [] => empty
  | [item] => item
  | items => sequence items

/-- One shape after the other. -/
def append (a b : Shape) : Shape :=
  ofItems (a.items ++ b.items)

instance : Append Shape := ⟨append⟩

/-- The alternatives that a shape contributes to a choice. -/
def alternatives : Shape → List Shape
  | choice alternatives => alternatives
  | other => [other]

/-- The first of two shapes that matches. -/
def or (a b : Shape) : Shape :=
  choice (a.alternatives ++ b.alternatives)

instance : OrOp Shape := ⟨or⟩

/-- Any number of repetitions, spliced into the parent. -/
def star (item : Shape) : Shape :=
  repeated item ⟨true, false⟩

/-- One or more repetitions, spliced into the parent. -/
def plus (item : Shape) : Shape :=
  repeated item ⟨false, false⟩

/-- The shape, or nothing where it does not match. -/
def orEmpty (shape : Shape) : Shape :=
  shape ||| empty

/-- A repetition with or without a delimiter. -/
def repetition (item : Shape) (delimiter : Option Shape) (bounds : Bounds) : Shape :=
  match delimiter with
  | some d => separated item d bounds
  | none => repeated item bounds

/-- The term that a shape consists of, if it is a single one. -/
def term? : Shape → Option TermIndex
  | term index => some index
  | _ => none

/-! ## Parts -/

mutual

/-- The shape and all its parts, each before its own parts and in reading order. -/
def parts : Shape → List Shape
  | sequence items => sequence items :: partsOfAll items
  | choice alternatives => choice alternatives :: partsOfAll alternatives
  | repeated item bounds => repeated item bounds :: item.parts
  | separated item delimiter bounds =>
    separated item delimiter bounds :: (item.parts ++ delimiter.parts)
  | other => [other]

/-- The parts of each shape of a list. -/
def partsOfAll : List Shape → List Shape
  | [] => []
  | shape :: rest => shape.parts ++ partsOfAll rest

end

/-- The terms to which a shape refers, in reading order. -/
def references (shape : Shape) : List TermIndex :=
  shape.parts.filterMap term?

end Shape

end TypedGrammar
