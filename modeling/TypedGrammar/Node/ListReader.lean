import TypedGrammar.Node.Basic

/-!
# The values of a list

The element values of a list node, read one after the other without touching the list.
-/

namespace TypedGrammar

/-- The elements of a list of type `element` that are still to be read. -/
structure ListReader where
  element : ValueType
  remaining : List Node

namespace ListReader

/-- The first value among nodes that has the element type, and the nodes after it. -/
def nextFrom (element : ValueType) : List Node → Option (Payload × List Node)
  | [] => none
  | node :: rest =>
    match node.payloadOf? element with
    | some p => some (p, rest)
    | none => nextFrom element rest

/-- The values that are still to be read. -/
def toList (reader : ListReader) : List Payload :=
  reader.remaining.filterMap (Node.payloadOf? reader.element)

/-- Reads up to `count` values; the second part is what is left. Looking for a value that is not
there uses up all nodes. -/
def take (reader : ListReader) : Nat → List Payload × ListReader
  | 0 => ([], reader)
  | count + 1 =>
    match nextFrom reader.element reader.remaining with
    | none => ([], { reader with remaining := [] })
    | some (p, rest) =>
      let (more, left) := take { reader with remaining := rest } count
      (p :: more, left)

/-- The most values that can be left: one for each remaining node. -/
def upperBound (reader : ListReader) : Nat :=
  reader.remaining.length

end ListReader

end TypedGrammar
