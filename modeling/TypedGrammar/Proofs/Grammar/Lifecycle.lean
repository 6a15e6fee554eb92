import TypedGrammar.Proofs.Grammar.Building

/-!
# The life of a grammar

A grammar is built, and texts are parsed or shown, in any order and with any thresholds.  A build
that is refused leaves the grammar as it was, so up to the first build that succeeds all operations
fail as they would fail at once; from then on the grammar never changes again.
-/

namespace TypedGrammar

/-- What a grammar is asked to do. -/
inductive Operation
  | build (threshold : Severity)
  | parse (text source : String) (threshold : Severity)
  | tree (text : String)

/-- What a grammar answers. -/
inductive Answer
  | built (result : Except Error Bool)
  | parsed (result : Except Error Node)
  | shown (result : Except Error String)

/-- A build that fails, or a use that comes too early. -/
def Answer.IsRefusal : Answer → Prop
  | built result => ∃ e, result = .error e
  | parsed result => ∃ message, result = .error (.invalidState message)
  | shown result => ∃ message, result = .error (.invalidState message)

namespace Grammar

variable {grammar : Grammar} {description : GrammarDescription} {built : BuiltGrammar}
  {threshold : Severity}

/-- The grammar of a description before any build. -/
def unbuilt (description : GrammarDescription) : Grammar :=
  ⟨description, none⟩

/-- The answer to an operation. -/
def answer (grammar : Grammar) : Operation → Answer
  | .build threshold => .built (grammar.build threshold).1
  | .parse text source threshold => .parsed (grammar.parse text source threshold)
  | .tree text => .shown (grammar.treeText text)

/-- The grammar after an operation. -/
def after (grammar : Grammar) : Operation → Grammar
  | .build threshold => (grammar.build threshold).2
  | .parse _ _ _ => grammar
  | .tree _ => grammar

/-- The answers to operations that follow each other, and the grammar after the last one. -/
def performAll (grammar : Grammar) : List Operation → List Answer × Grammar
  | [] => ([], grammar)
  | operation :: rest =>
    let (answers, last) := (grammar.after operation).performAll rest
    (grammar.answer operation :: answers, last)

theorem performAll_cons (grammar : Grammar) (operation : Operation) (rest : List Operation) :
    grammar.performAll (operation :: rest) =
      (grammar.answer operation :: ((grammar.after operation).performAll rest).1,
        ((grammar.after operation).performAll rest).2) :=
  rfl

theorem performAll_append (grammar : Grammar) (first second : List Operation) :
    grammar.performAll (first ++ second) =
      ((grammar.performAll first).1 ++ ((grammar.performAll first).2.performAll second).1,
        ((grammar.performAll first).2.performAll second).2) := by
  induction first generalizing grammar with
  | nil => rfl
  | cons operation rest ih =>
    rw [List.cons_append, performAll_cons, ih, performAll_cons]
    rfl

/-- Operations that leave the grammar as it is do not depend on each other. -/
theorem performAll_of_after_eq {operations : List Operation}
    (h : ∀ operation ∈ operations, grammar.after operation = grammar) :
    grammar.performAll operations = (operations.map grammar.answer, grammar) := by
  induction operations with
  | nil => rfl
  | cons operation rest ih =>
    obtain ⟨hfirst, hrest⟩ := List.forall_mem_cons.mp h
    rw [performAll_cons, hfirst, ih hrest]
    rfl

/-! ## Builds -/

/-- A grammar that is built stays as it is. -/
theorem build_of_isBuilt (h : grammar.isBuilt = true) (threshold : Severity) :
    grammar.build threshold = (.ok false, grammar) := by
  unfold build
  rw [if_pos h]

theorem after_of_isBuilt (h : grammar.isBuilt = true) (operation : Operation) :
    grammar.after operation = grammar := by
  cases operation with
  | build threshold => rw [after, build_of_isBuilt h]
  | parse text source threshold => rfl
  | tree text => rfl

/-- What cannot be described is never built. -/
theorem build_of_compile_error {e : Error} (h : description.compile = .error e)
    (threshold : Severity) :
    (unbuilt description).build threshold = (.error e, unbuilt description) := by
  unfold build
  rw [if_neg (by simp [isBuilt, unbuilt])]
  unfold unbuilt
  simp only
  rw [h]

/-- What can be described is built unless a message about its language reaches the threshold. -/
theorem build_of_compile_ok (h : description.compile = .ok built) (threshold : Severity) :
    (unbuilt description).build threshold =
      if Diagnostic.anyReaches threshold built.language.diagnose then
        (.error (.grammarBuild description.name built.language.diagnose built.language.ruleTable),
          unbuilt description)
      else (.ok true, ⟨description, some built⟩) := by
  unfold build
  rw [if_neg (by simp [isBuilt, unbuilt])]
  unfold unbuilt
  simp only
  rw [h]

/-- All builds fail with one error and leave the grammar as it is, or build it, whatever the
threshold. -/
theorem build_cases (description : GrammarDescription) :
    ∃ e, ∀ threshold,
      (unbuilt description).build threshold = (.error e, unbuilt description) ∨
        ∃ built, (unbuilt description).build threshold = (.ok true, ⟨description, some built⟩) := by
  cases hcompile : description.compile with
  | error e => exact ⟨e, fun threshold => Or.inl (build_of_compile_error hcompile threshold)⟩
  | ok built =>
    refine ⟨.grammarBuild description.name built.language.diagnose built.language.ruleTable,
      fun threshold => ?_⟩
    rw [build_of_compile_ok hcompile]
    split
    · exact Or.inl rfl
    · exact Or.inr ⟨built, rfl⟩

/-- A message reaches a threshold if it is critical or at least as serious. -/
theorem anyReaches_iff {diagnostics : List Diagnostic} :
    Diagnostic.anyReaches threshold diagnostics = true ↔
      ∃ d ∈ diagnostics, d.severity = .critical ∨ threshold.rank ≤ d.severity.rank := by
  unfold Diagnostic.anyReaches Severity.reaches
  simp only [List.any_eq_true, Bool.or_eq_true, decide_eq_true_eq]
  exact exists_congr fun d => and_congr_right fun _ => Or.comm

/-- A build is refused if there is an error in the description, or for the messages about the
language, which are the same for all thresholds. -/
theorem build_refused_iff (description : GrammarDescription) (threshold : Severity) (e : Error) :
    ((unbuilt description).build threshold).1 = .error e ↔
      description.compile = .error e ∨ ∃ built, description.compile = .ok built ∧
        (∃ d ∈ built.language.diagnose,
          d.severity = .critical ∨ threshold.rank ≤ d.severity.rank) ∧
        e = .grammarBuild description.name built.language.diagnose built.language.ruleTable := by
  cases hcompile : description.compile with
  | error found =>
    rw [build_of_compile_error hcompile]
    constructor
    · intro herror
      obtain rfl := Except.error.inj herror
      exact Or.inl rfl
    · rintro (herror | ⟨_, hok, _⟩)
      · obtain rfl := Except.error.inj herror
        rfl
      · cases hok
  | ok built =>
    rw [build_of_compile_ok hcompile]
    constructor
    · intro herror
      split at herror
      · next hreaches =>
        exact Or.inr ⟨built, rfl, anyReaches_iff.mp hreaches, (Except.error.inj herror).symm⟩
      · cases herror
    · rintro (herror | ⟨_, hok, hreaches, rfl⟩)
      · cases herror
      · obtain rfl := Except.ok.inj hok
        rw [if_pos (anyReaches_iff.mpr hreaches)]

/-! ## Histories -/

/-- An operation on a grammar that is not built is refused and leaves no trace, unless it is a build
that succeeds. -/
theorem unbuilt_cases (description : GrammarDescription) (operation : Operation) :
    (unbuilt description).after operation = unbuilt description ∧
        ((unbuilt description).answer operation).IsRefusal ∨
      ∃ threshold built, operation = .build threshold ∧
        (unbuilt description).build threshold = (.ok true, ⟨description, some built⟩) := by
  obtain ⟨e, hbuild⟩ := build_cases description
  cases operation with
  | build threshold =>
    rcases hbuild threshold with hrefused | ⟨built, hbuilt⟩
    · exact Or.inl ⟨by rw [after, hrefused], e, by rw [hrefused]⟩
    · exact Or.inr ⟨threshold, built, rfl, hbuilt⟩
  | parse text source threshold => exact Or.inl ⟨rfl, _, rfl⟩
  | tree text => exact Or.inl ⟨rfl, _, rfl⟩

/-- **The first build.**  Operations on a grammar that is not built are refused and leave no trace,
up to a build that succeeds, if there is one. -/
theorem exists_first_build (description : GrammarDescription) (operations : List Operation) :
    ∃ before rest, operations = before ++ rest ∧
      (∀ operation ∈ before, (unbuilt description).after operation = unbuilt description ∧
        ((unbuilt description).answer operation).IsRefusal) ∧
      (rest = [] ∨ ∃ threshold further built, rest = .build threshold :: further ∧
        (unbuilt description).build threshold = (.ok true, ⟨description, some built⟩)) := by
  induction operations with
  | nil => exact ⟨[], [], rfl, nofun, Or.inl rfl⟩
  | cons operation operations ih =>
    rcases unbuilt_cases description operation with hrefused | ⟨threshold, built, rfl, hbuilt⟩
    · obtain ⟨before, rest, rfl, hbefore, hrest⟩ := ih
      exact ⟨operation :: before, rest, rfl, List.forall_mem_cons.mpr ⟨hrefused, hbefore⟩, hrest⟩
    · exact ⟨[], _, rfl, nofun, Or.inr ⟨threshold, operations, built, rfl, hbuilt⟩⟩

/-- **Histories.**  What is answered before and after the first build that succeeds. -/
theorem exists_history (description : GrammarDescription) (operations : List Operation) :
    ∃ before rest, operations = before ++ rest ∧
      (∀ operation ∈ before, ((unbuilt description).answer operation).IsRefusal) ∧
      (rest = [] ∧ (unbuilt description).performAll operations =
          (before.map (unbuilt description).answer, unbuilt description) ∨
        ∃ threshold further grammar, rest = .build threshold :: further ∧
          (unbuilt description).build threshold = (.ok true, grammar) ∧
          (∀ again, grammar.answer (.build again) = .built (.ok false)) ∧
          (unbuilt description).performAll operations =
            (before.map (unbuilt description).answer ++
              .built (.ok true) :: further.map grammar.answer, grammar)) := by
  obtain ⟨before, rest, rfl, hbefore, hrest⟩ := exists_first_build description operations
  have hperformed : (unbuilt description).performAll before =
      (before.map (unbuilt description).answer, unbuilt description) :=
    performAll_of_after_eq fun operation hmem => (hbefore operation hmem).1
  refine ⟨before, rest, rfl, fun operation hmem => (hbefore operation hmem).2, ?_⟩
  rcases hrest with rfl | ⟨threshold, further, built, rfl, hbuild⟩
  · exact Or.inl ⟨rfl, by rw [List.append_nil, hperformed]⟩
  · have hbuilt : (Grammar.mk description (some built)).isBuilt = true := rfl
    refine Or.inr ⟨threshold, further, _, rfl, hbuild, fun again => ?_, ?_⟩
    · rw [answer, build_of_isBuilt hbuilt]
    · rw [performAll_append, hperformed, performAll_cons, after, hbuild,
        performAll_of_after_eq fun operation _ => after_of_isBuilt hbuilt operation, answer, hbuild]

/-- All builds of one history that are refused fail with the same error. -/
theorem exists_error_of_refused (description : GrammarDescription) (operations : List Operation) :
    ∃ e₀, ∀ e, .built (.error e) ∈ ((unbuilt description).performAll operations).1 → e = e₀ := by
  obtain ⟨e₀, hbuild⟩ := build_cases description
  refine ⟨e₀, fun e hmem => ?_⟩
  -- Only operations before the build that succeeds are refused.
  have hbefore : ∀ before : List Operation,
      .built (.error e) ∈ before.map (unbuilt description).answer → e = e₀ := by
    intro before hmem
    obtain ⟨operation, _, hanswer⟩ := List.mem_map.mp hmem
    cases operation with
    | build threshold =>
      have hresult := Answer.built.inj hanswer
      rcases hbuild threshold with hrefused | ⟨built, hbuilt⟩
      · rw [hrefused] at hresult
        exact (Except.error.inj hresult).symm
      · rw [hbuilt] at hresult
        cases hresult
    | parse text source threshold => cases hanswer
    | tree text => cases hanswer
  obtain ⟨before, rest, rfl, _, hrest⟩ := exists_history description operations
  rcases hrest with ⟨_, hperformed⟩ | ⟨threshold, further, grammar, _, _, hagain, hperformed⟩
  · rw [hperformed] at hmem
    exact hbefore before hmem
  · rw [hperformed] at hmem
    rcases List.mem_append.mp hmem with hmem | hmem
    · exact hbefore before hmem
    · rcases List.mem_cons.mp hmem with hfirst | hmem
      · cases hfirst
      · obtain ⟨operation, _, hanswer⟩ := List.mem_map.mp hmem
        cases operation with
        | build again =>
          rw [hagain] at hanswer
          cases hanswer
        | parse text source threshold => cases hanswer
        | tree text => cases hanswer

/-- **The life of a grammar.**  Before the build that succeeds, if there is one, every operation is
refused and leaves no trace.  That build does what it would do first of all; every operation after
it is answered as the grammar that it built answers at once, and builds with `false`.  All builds
that are refused fail with one and the same error.  What can be described is refused exactly if a
message about its language is critical or at least as serious as the threshold, and the error holds
all messages. -/
theorem performAll_of_unbuilt (description : GrammarDescription) (operations : List Operation) :
    (∃ before rest, operations = before ++ rest ∧
      (∀ operation ∈ before, ((unbuilt description).answer operation).IsRefusal) ∧
      (rest = [] ∧ (unbuilt description).performAll operations =
          (before.map (unbuilt description).answer, unbuilt description) ∨
        ∃ threshold further grammar, rest = .build threshold :: further ∧
          (unbuilt description).build threshold = (.ok true, grammar) ∧
          (∀ again, grammar.answer (.build again) = .built (.ok false)) ∧
          (unbuilt description).performAll operations =
            (before.map (unbuilt description).answer ++
              .built (.ok true) :: further.map grammar.answer, grammar))) ∧
    (∃ e₀, ∀ e, .built (.error e) ∈ ((unbuilt description).performAll operations).1 → e = e₀) ∧
    ∀ threshold e, ((unbuilt description).build threshold).1 = .error e ↔
      description.compile = .error e ∨ ∃ built, description.compile = .ok built ∧
        (∃ d ∈ built.language.diagnose,
          d.severity = .critical ∨ threshold.rank ≤ d.severity.rank) ∧
        e = .grammarBuild description.name built.language.diagnose built.language.ruleTable :=
  ⟨exists_history description operations, exists_error_of_refused description operations,
    build_refused_iff description⟩

end Grammar

end TypedGrammar
