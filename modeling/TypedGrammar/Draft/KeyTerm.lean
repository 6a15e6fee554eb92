import Std.Data.HashMap
import TypedGrammar.Diagnostic
import TypedGrammar.Term.Basic
import TypedGrammar.Value

/-!
# Key terms

Keywords, punctuation, operators and the symbols of braces are registered by name: all rules that
use one name share one term, and must agree on everything about it.
-/

namespace TypedGrammar

/-- What is asked for when a key term is registered. -/
structure KeyRequest where
  name : String
  text : String
  value : Value
  flags : Flags
  precedence : Option Precedence

namespace KeyRequest

/-- Whether two requests under one name ask for the same key term. -/
def agrees (a b : KeyRequest) : Bool :=
  a.text = b.text && a.flags = b.flags && a.precedence = b.precedence && a.value.equal b.value

/-- Everything about a key term but its name. -/
def attributes (request : KeyRequest) : String :=
  s!"text {Text.quoted request.text}, value {request.value.display} ({request.value.type.name}), "
    ++ s!"flags {request.flags.display}"
    ++ (match request.precedence with
      | some p => s!", precedence {p.display}"
      | none => "")

end KeyRequest

/-- A registered key term and the term that stands for it. -/
structure KeyTerm extends KeyRequest where
  term : TermIndex

/-- The key terms of a grammar in the order of their registration, with an index by name that
finds the first one of each name. -/
structure KeyTermTable where
  records : Array KeyTerm
  index : Std.HashMap String KeyTerm
  index_eq : ∀ name, index[name]? = records.find? (·.name = name)

namespace KeyTermTable

/-- The table without key terms. -/
def empty : KeyTermTable where
  records := #[]
  index := ∅
  index_eq := by simp

/-- The key term of a name. -/
def get? (table : KeyTermTable) (name : String) : Option KeyTerm :=
  table.index[name]?

theorem get?_eq_find? (table : KeyTermTable) (name : String) :
    table.get? name = table.records.find? (·.name = name) :=
  table.index_eq name

/-- The table with one more key term at its end. -/
def push (table : KeyTermTable) (key : KeyTerm) : KeyTermTable where
  records := table.records.push key
  index := table.index.insertIfNew key.name key
  index_eq := by
    intro name
    rw [Std.HashMap.getElem?_insertIfNew, Array.find?_push, ← table.index_eq name]
    by_cases h : key.name = name
    · subst h
      simp only [beq_self_eq_true, true_and, Std.HashMap.mem_iff_isSome_getElem?]
      cases table.index[key.name]? <;> simp
    · simp [h]

/-- The term of a name that is registered already. A request that disagrees with the registration
is a conflict. -/
def lookup (table : KeyTermTable) (request : KeyRequest) : Except Error (Option TermIndex) :=
  match table.get? request.name with
  | none => .ok none
  | some existing =>
    if existing.agrees request then .ok (some existing.term)
    else .error (.registrationConflict existing.name existing.attributes request.attributes)

/-- The texts that cannot be identifiers. -/
def reservedWords (table : KeyTermTable) : List String :=
  (table.records.toList.filter (·.flags.has .reserved)).map (·.text)

end KeyTermTable

end TypedGrammar
