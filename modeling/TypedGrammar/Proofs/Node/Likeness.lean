import Mathlib.Data.List.Forall2
import TypedGrammar.Node.Maker

/-!
# Likeness of occurrences

What the rules of a grammar are called, and how their shapes are written, is of no account to the
nodes of a text.  Two occurrences resemble each other if nothing but this tells them apart, and a
maker ignores names if it makes the same node of them.
-/

namespace TypedGrammar

/-- Two terms resemble each other if they are the same, or rules with the same flags. -/
inductive Term.Resembles : Term → Term → Prop
  | refl (term : Term) : Term.Resembles term term
  | rule {a b : Term} : a.isTerminal = false → b.isTerminal = false → a.flags = b.flags →
      Term.Resembles a b

namespace Term

variable {a b : Term}

/-- Terms that resemble each other have the same flags. -/
theorem Resembles.flags_eq (h : a.Resembles b) : a.flags = b.flags := by
  cases h with
  | refl => rfl
  | rule _ _ hflags => exact hflags

/-- Rules with the same flags resemble each other, whatever their shapes are. -/
theorem resembles_of_kind {s t : Option Shape} (ha : a.kind = .rule s) (hb : b.kind = .rule t)
    (hflags : a.flags = b.flags) : a.Resembles b :=
  .rule (isTerminal_of_kind ha) (isTerminal_of_kind hb) hflags

/-- A rule has no text. -/
theorem text?_of_not_isTerminal (h : a.isTerminal = false) : a.text? = none := by
  unfold isTerminal at h
  unfold text?
  split at h
  · next hkind => rw [hkind]
  · cases h

/-- Only key terms have texts, and key terms resemble themselves alone. -/
theorem Resembles.text?_eq (h : a.Resembles b) : a.text? = b.text? := by
  cases h with
  | refl => rfl
  | rule ha hb _ => rw [text?_of_not_isTerminal ha, text?_of_not_isTerminal hb]

end Term

/-- Two parts with the same node, of terms that resemble each other. -/
structure Part.Resembles (a b : Part) : Prop where
  term : a.term.Resembles b.term
  node : a.node = b.node

/-- Two occurrences at one place, with parts that resemble each other. -/
structure Occurrence.Resembles (a b : Occurrence) : Prop where
  term : a.term.Resembles b.term
  location : a.location = b.location
  token : a.token = b.token
  parts : List.Forall₂ Part.Resembles a.parts b.parts

namespace Occurrence

variable {a b : Occurrence}

/-- Parts that resemble each other have the same nodes. -/
theorem nodes_eq_of_forall₂ {as bs : List Part} (h : List.Forall₂ Part.Resembles as bs) :
    as.filterMap (·.node) = bs.filterMap (·.node) := by
  induction h with
  | nil => rfl
  | cons hpart _ ih => rw [List.filterMap_cons, List.filterMap_cons, hpart.node, ih]

/-- Occurrences that resemble each other have the same nodes. -/
theorem Resembles.nodes_eq (h : a.Resembles b) : a.nodes = b.nodes :=
  nodes_eq_of_forall₂ h.parts

/-- Occurrences that resemble each other make the same sequence. -/
theorem Resembles.toSequence_eq (h : a.Resembles b) : a.toSequence = b.toSequence := by
  rw [toSequence, toSequence, h.location, h.nodes_eq]

/-- Occurrences that resemble each other make the same list. -/
theorem Resembles.toList_eq (h : a.Resembles b) (element : ValueType) :
    a.toList element = b.toList element := by
  rw [toList, toList, h.location, h.nodes_eq]

/-- An optional part depends on the number of its parts. -/
theorem Resembles.toOptional_eq (h : a.Resembles b) : a.toOptional = b.toOptional := by
  have hsequence := h.toSequence_eq
  have hparts := h.parts
  unfold toOptional
  rw [h.location]
  generalize a.parts = as, b.parts = bs at hparts
  cases hparts with
  | nil => rfl
  | cons hfirst hrest =>
    cases hrest with
    | nil =>
      simp only
      rw [hfirst.node]
    | cons hsecond hrest =>
      simp only
      rw [hsequence]

/-- A brace depends on the flags and texts of its first and last part. -/
theorem Resembles.toBrace_eq (h : a.Resembles b) : a.toBrace = b.toBrace := by
  have hsequence := h.toSequence_eq
  have hparts := h.parts
  unfold toBrace
  rw [h.location, hsequence]
  generalize a.parts = as, b.parts = bs at hparts
  cases hparts with
  | nil => rfl
  | cons hopening hrest =>
    cases hrest with
    | nil => rfl
    | cons hmiddle hrest =>
      cases hrest with
      | nil => rfl
      | cons hclosing hrest =>
        cases hrest with
        | nil =>
          simp only
          rw [hopening.term.flags_eq, hopening.term.text?_eq, hmiddle.node,
            hclosing.term.flags_eq, hclosing.term.text?_eq]
        | cons _ _ => rfl

end Occurrence

namespace Maker

/-- A maker makes the same node of occurrences that resemble each other. -/
def IgnoresNames (maker : Maker) : Prop :=
  ∀ a b : Occurrence, a.Resembles b → maker.make a = maker.make b

theorem ignoresNames_sequence : sequence.IgnoresNames :=
  fun _ _ h => congrArg Except.ok h.toSequence_eq

theorem ignoresNames_optional : optional.IgnoresNames :=
  fun _ _ h => congrArg Except.ok h.toOptional_eq

theorem ignoresNames_brace : brace.IgnoresNames :=
  fun _ _ h => congrArg Except.ok h.toBrace_eq

theorem ignoresNames_list (element : ValueType) : (list element).IgnoresNames :=
  fun _ _ h => congrArg Except.ok (h.toList_eq element)

/-- Nodes of constants do not depend on the names of rules. -/
theorem ignoresNames_constant (type : ValueType) : (constant type).IgnoresNames := by
  intro a b h
  unfold make
  rw [h.nodes_eq, h.location]

/-- Declared nodes do not depend on the names of rules. -/
theorem ignoresNames_declared (owner : DeclaredNode) (value : Contents → Except Error Value) :
    (declared owner value).IgnoresNames := by
  intro a b h
  unfold make
  rw [h.nodes_eq, h.location]

end Maker

end TypedGrammar
