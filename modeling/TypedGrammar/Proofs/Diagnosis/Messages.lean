import TypedGrammar.Proofs.Diagnosis.Nullable

/-!
# Messages of the diagnosis

What a language is like about which the diagnosis has nothing critical to say, and which of its
messages are about references that lead nowhere.
-/

namespace TypedGrammar

/-! ## Critical messages

What the rules of a language are like about which the diagnosis has nothing critical to say: no
repetition has an item and a delimiter that are both called nullable, and the search for cycles
among left corners has found none. -/

namespace Language

variable {language : Language}

/-- The diagnosis has no critical message. -/
def IsUncritical (language : Language) : Prop :=
  ∀ message ∈ language.diagnose, message.severity ≠ .critical

instance (language : Language) : Decidable language.IsUncritical :=
  inferInstanceAs (Decidable (∀ message ∈ language.diagnose, message.severity ≠ .critical))

/-- Messages about the parts of rules are messages about the language. -/
theorem mem_diagnose_of_part {index : TermIndex} {term : Term} {shape part : Shape}
    {message : Diagnostic} (hdef : language.Defines index term shape) (hpart : part ∈ shape.parts)
    (hmessage : Diagnosis.partMessage? language language.nullable term.name part = some message) :
    message ∈ language.diagnose := by
  have hrule : message ∈ Diagnosis.ruleMessages language language.nullable term := by
    rw [Diagnosis.ruleMessages, Term.shape?, hdef.2]
    exact List.mem_filterMap.mpr ⟨part, hpart, hmessage⟩
  have hterm : term ∈ language.terms.toList :=
    Array.mem_toList_iff.mpr (Array.mem_of_getElem? hdef.1)
  unfold diagnose
  refine List.mem_append_left _ (List.mem_append_left _ (List.mem_append_right _ ?_))
  exact List.mem_flatMap.mpr ⟨term, hterm, hrule⟩

/-- A repetition whose item and delimiter are nullable is reported. -/
theorem IsUncritical.not_nullable (h : language.IsUncritical) {part item delimiter : Shape}
    (hpart : language.HasPart part) (hrepetition : part.repetition? = some (item, delimiter))
    (hitem : item.isNullable language.nullable = true) :
    delimiter.isNullable language.nullable = false := by
  by_contra hdelimiter
  rw [Bool.not_eq_false] at hdelimiter
  rcases hpart with rfl | ⟨index, term, shape, hdef, hmem⟩
  · cases hrepetition
  · have hmessage : ∃ message,
        Diagnosis.partMessage? language language.nullable term.name part = some message ∧
          message.severity = .critical := by
      cases part with
      | repeated item' bounds =>
        injection hrepetition with hrepetition
        injection hrepetition with hsame _
        subst hsame
        exact ⟨_, if_pos hitem, rfl⟩
      | separated item' delimiter' bounds =>
        injection hrepetition with hrepetition
        injection hrepetition with hsame hsame'
        subst hsame hsame'
        exact ⟨_, if_pos (by rw [hitem, hdelimiter, Bool.and_self]), rfl⟩
      | _ => cases hrepetition
    obtain ⟨message, hmessage, hcritical⟩ := hmessage
    exact h message (mem_diagnose_of_part hdef hmem hmessage) hcritical

/-- For each term the rules that the diagnosis sees it begin with. -/
def leftCorners (language : Language) : Array (List ℕ) :=
  Diagnosis.leftCornerRules language.terms language.nullable

/-- A cycle that is found is reported. -/
theorem IsUncritical.cycles_eq_nil (h : language.IsUncritical) :
    Diagnosis.cycles language.leftCorners = [] := by
  by_contra hne
  obtain ⟨cycle, hcycle⟩ := List.exists_mem_of_ne_nil _ hne
  refine h (Diagnosis.cycleMessage language.terms cycle) ?_ rfl
  unfold diagnose
  exact List.mem_append_left _ (List.mem_append_right _ (List.mem_map.mpr ⟨cycle, hcycle, rfl⟩))

end Language

/-! ## Dangling references

A language is complete if each of its rules has a shape, and each term to which a shape refers is
there.  Two messages of the diagnosis are about this, and a language is complete if and only if the
diagnosis has neither. -/

/-- Each rule has a shape, and what its shape refers to is there. -/
structure Language.IsComplete (language : Language) : Prop where
  shaped : ∀ term ∈ language.terms, term.isTerminal = false → term.shape?.isSome
  closed : ∀ term ∈ language.terms, ∀ shape, term.shape? = some shape →
    ∀ index ∈ shape.references, (language.term? index).isSome

namespace Diagnosis

/-- The message about a rule without a shape. -/
def undefinedMessage (name : String) : Diagnostic :=
  report .critical s!"rule `{name}` is referenced but never defined"

/-- The message about a reference to a term that is not there. -/
def unknownMessage (owner : String) (index : TermIndex) : Diagnostic :=
  report .critical s!"rule `{owner}` refers to unknown term {index.display}"

end Diagnosis

/-- The message is about a rule without a shape, or about a reference to a term that is
not there. -/
def Diagnostic.IsDangling (message : Diagnostic) : Prop :=
  (∃ name, message = Diagnosis.undefinedMessage name) ∨
    ∃ owner index, message = Diagnosis.unknownMessage owner index

namespace Diagnosis

variable {language : Language} {nullable : TermSet} {term : Term} {comment : Comment}
  {owner : String} {part : Shape} {message : Diagnostic} {severity : Severity} {text : String}

/-! ### Other messages -/

/-- Only critical messages tell of rules without shapes. -/
theorem not_isDangling_of_severity (h : severity ≠ .critical) :
    ¬ (report severity text).IsDangling := by
  rintro (⟨name, hsame⟩ | ⟨owner, index, hsame⟩)
  · exact h (congrArg Diagnostic.severity hsame)
  · exact h (congrArg Diagnostic.severity hsame)

/-- The two messages begin with the word `rule`, and no other critical message begins as it does. -/
theorem not_isDangling_of_take (h : text.toList.take 2 ≠ ['r', 'u']) :
    ¬ (report severity text).IsDangling := by
  rintro (⟨name, hsame⟩ | ⟨owner, index, hsame⟩)
  · obtain rfl : text = _ := congrArg Diagnostic.message hsame
    refine h ?_
    simp only [undefinedMessage, report, String.toList_append]
    rfl
  · obtain rfl : text = _ := congrArg Diagnostic.message hsame
    refine h ?_
    simp only [unknownMessage, report, String.toList_append]
    rfl

/-- A message about a term is an error, unless the term is a rule without a shape. -/
theorem termMessage?_cases (h : termMessage? term = some message) :
    (∃ text, message = report .error text) ∨
      term.kind = .rule none := by
  unfold termMessage? at h
  split at h
  · split at h
    · exact .inl ⟨_, (Option.some.inj h).symm⟩
    · split at h
      · exact .inl ⟨_, (Option.some.inj h).symm⟩
      · cases h
  · next hkind => exact .inr hkind
  · cases h

/-- Messages about comments tell of no rule without a shape. -/
theorem commentMessages_not_isDangling (h : message ∈ commentMessages comment) :
    ¬ message.IsDangling := by
  unfold commentMessages at h
  rcases List.mem_append.mp h with h | h
  · split at h
    · obtain rfl := List.mem_singleton.mp h
      refine not_isDangling_of_take ?_
      simp only [String.toList_append]
      exact nofun
    · cases h
  · split at h
    · obtain rfl := List.mem_singleton.mp h
      exact not_isDangling_of_severity nofun
    · cases h

/-- Messages about repetitions tell of no rule without a shape. -/
theorem endless_not_isDangling {shown : String} :
    ¬ (report .critical (s!"repeated element {shown} in `{owner}` "
      ++ "can match empty input")).IsDangling := by
  refine not_isDangling_of_take ?_
  simp only [String.toList_append]
  exact nofun

/-- A message about a part is dangling only if the part refers to a term that is not there. -/
theorem partMessage?_cases (h : partMessage? language nullable owner part = some message) :
    ¬ message.IsDangling ∨ ∃ index, part = .term index ∧ language.term? index = none := by
  unfold partMessage? at h
  simp only at h
  split at h
  · next index =>
    split at h
    · next hnone => exact .inr ⟨index, rfl, Option.isNone_iff_eq_none.mp hnone⟩
    · cases h
  · split at h
    · exact .inl (Option.some.inj h ▸ endless_not_isDangling)
    · cases h
  · split at h
    · exact .inl (Option.some.inj h ▸ endless_not_isDangling)
    · cases h
  · split at h
    · exact .inl (Option.some.inj h ▸ not_isDangling_of_severity nofun)
    · cases h
  · cases h

/-- Messages about cycles tell of no rule without a shape. -/
theorem cycleMessage_not_isDangling (terms : Array Term) (cycle : List ℕ) :
    ¬ (cycleMessage terms cycle).IsDangling := by
  refine not_isDangling_of_take ?_
  simp only [String.toList_append]
  exact nofun

/-- Messages about unreachable rules tell of no rule without a shape. -/
theorem reachMessage?_not_isDangling {reached : TermSet} {n : ℕ}
    (h : reachMessage? language reached n = some message) : ¬ message.IsDangling := by
  unfold reachMessage? at h
  split at h
  · split at h
    · exact Option.some.inj h ▸ not_isDangling_of_severity nofun
    · cases h
  · cases h

end Diagnosis

namespace Language

open Diagnosis

variable {language : Language} {message : Diagnostic}

/-- The messages are about terms, comments, rules, cycles and unreachable rules, and about nothing
else. -/
theorem mem_diagnose_iff : message ∈ language.diagnose ↔
    (∃ term ∈ language.terms, termMessage? term = some message) ∨
      (∃ comment ∈ language.comments, message ∈ commentMessages comment) ∨
      (∃ term ∈ language.terms, message ∈ ruleMessages language language.nullable term) ∨
      (∃ cycle ∈ Diagnosis.cycles language.leftCorners,
        cycleMessage language.terms cycle = message) ∨
      ∃ n < language.terms.size, reachMessage? language
        (reachableTerms language.terms language.root) n = some message := by
  unfold diagnose leftCorners nullable
  simp only [List.mem_append, List.mem_filterMap, List.mem_flatMap, List.mem_map,
    Array.mem_toList_iff, List.mem_range, or_assoc]

/-- In a complete language no message tells of a rule without a shape. -/
theorem IsComplete.not_isDangling (h : language.IsComplete) (hmessage : message ∈ language.diagnose) :
    ¬ message.IsDangling := by
  rcases mem_diagnose_iff.mp hmessage with ⟨term, hterm, hmessage⟩ | ⟨comment, _, hmessage⟩ |
    ⟨term, hterm, hmessage⟩ | ⟨cycle, _, rfl⟩ | ⟨n, _, hmessage⟩
  · rcases termMessage?_cases hmessage with ⟨text, rfl⟩ | hkind
    · exact not_isDangling_of_severity nofun
    · have hshaped := h.shaped term hterm (Term.isTerminal_of_kind hkind)
      rw [Term.shape?_of_kind hkind] at hshaped
      cases hshaped
  · exact commentMessages_not_isDangling hmessage
  · unfold ruleMessages at hmessage
    split at hmessage
    · next shape hshape =>
      obtain ⟨part, hpart, hmessage⟩ := List.mem_filterMap.mp hmessage
      rcases partMessage?_cases hmessage with hother | ⟨index, rfl, hnone⟩
      · exact hother
      · have hsome := h.closed term hterm shape hshape index (Shape.mem_references.mpr hpart)
        rw [hnone] at hsome
        cases hsome
    · cases hmessage
  · exact cycleMessage_not_isDangling _ cycle
  · exact reachMessage?_not_isDangling hmessage

/-- **Dangling references.**  A language is complete if and only if the diagnosis reports neither a
rule without a shape nor a reference to a term that is not there. -/
theorem isComplete_iff :
    language.IsComplete ↔ ∀ message ∈ language.diagnose, ¬ message.IsDangling := by
  refine ⟨fun h message => h.not_isDangling, fun h => ⟨?_, ?_⟩⟩
  · intro term hterm hrule
    by_contra hshape
    rw [Option.not_isSome_iff_eq_none] at hshape
    have hkind : term.kind = .rule none := by
      unfold Term.isTerminal at hrule
      split at hrule
      · next shape hkind => rw [hkind, ← hshape, Term.shape?_of_kind hkind]
      · cases hrule
    refine h (undefinedMessage term.name) ?_ (.inl ⟨_, rfl⟩)
    refine mem_diagnose_iff.mpr (.inl ⟨term, hterm, ?_⟩)
    rw [termMessage?, hkind]
    rfl
  · intro term hterm shape hshape index hindex
    by_contra hnone
    rw [Option.not_isSome_iff_eq_none] at hnone
    refine h (unknownMessage term.name index) ?_ (.inr ⟨_, _, rfl⟩)
    refine mem_diagnose_iff.mpr (.inr (.inr (.inl ⟨term, hterm, ?_⟩)))
    rw [ruleMessages, hshape]
    refine List.mem_filterMap.mpr ⟨_, Shape.mem_references.mp hindex, ?_⟩
    rw [partMessage?, hnone]
    rfl

end Language

end TypedGrammar
