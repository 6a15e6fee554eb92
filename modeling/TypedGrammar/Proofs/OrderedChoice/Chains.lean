import TypedGrammar.Proofs.OrderedChoice.Symbols

/-!
# Choices and chains

Verdicts on choices of any length, and on chains of operands with operators between them.  A chain
is read one link after the other; what is known of its parts is put together by beginnings of
chains, which may be continued by whatever follows them.
-/

namespace TypedGrammar.Language

variable {language : Language} {start middle next stop : Cursor}

/-- With room for one more rule, a rule that is not transient makes one node. -/
theorem evaluates_node {room : ℕ} {index : TermIndex} {term : Term} {shape : Shape}
    {trees : List Tree} (hdef : language.Defines index term shape)
    (hnode : term.flags.has .transient = false)
    (h : language.Evaluates (room : ℕ∞) (.shape shape) start (.matched trees stop)) :
    language.Evaluates ((room + 1 : ℕ) : ℕ∞) (.term index) start
      (.matched [.node (.term index) trees] stop) := by
  have hroom : ((room + 1 : ℕ) : ℕ∞) ≠ 0 := Nat.cast_ne_zero.mpr (Nat.succ_ne_zero room)
  exact .node hdef hroom hnode h

/-! ## Choices -/

section Choices

variable {room : ℕ∞} {shape : Shape} {before after : List Shape} {trees : List Tree}

/-- The first alternative that matches is chosen. -/
theorem evaluates_choice
    (hbefore : ∀ other ∈ before, language.Evaluates room (.shape other) start .failed)
    (h : language.Evaluates room (.shape shape) start (.matched trees stop)) :
    language.Evaluates room (.shape (.choice (before ++ shape :: after))) start
      (.matched trees stop) := by
  have hfirst : ∀ head others, head :: others = before ++ shape :: after →
      language.Evaluates room (.first head others) start (.matched trees stop) := by
    induction before with
    | nil =>
      rintro head others heq
      obtain ⟨rfl, rfl⟩ := List.cons.inj heq
      exact .firstMatch h
    | cons other rest ih =>
      rintro head others heq
      rw [List.cons_append] at heq
      obtain ⟨rfl, rfl⟩ := List.cons.inj heq
      obtain ⟨next, more, hrest⟩ := List.exists_cons_of_ne_nil
        (List.append_ne_nil_of_right_ne_nil rest (List.cons_ne_nil shape after))
      rw [hrest]
      exact .firstNext (hbefore _ List.mem_cons_self)
        (ih (fun o ho => hbefore o (List.mem_cons_of_mem _ ho)) next more hrest.symm)
  obtain ⟨head, others, heq⟩ := List.exists_cons_of_ne_nil
    (List.append_ne_nil_of_right_ne_nil before (List.cons_ne_nil shape after))
  rw [heq]
  exact .choice (hfirst head others heq.symm)

/-- A choice fails if there are alternatives and all of them do. -/
theorem evaluates_choice_failed {alternatives : List Shape} (hne : alternatives ≠ [])
    (h : ∀ other ∈ alternatives, language.Evaluates room (.shape other) start .failed) :
    language.Evaluates room (.shape (.choice alternatives)) start .failed := by
  obtain ⟨shape, others, rfl⟩ := List.exists_cons_of_ne_nil hne
  refine .choice ?_
  clear hne
  induction others generalizing shape with
  | nil => exact .firstFail (h shape List.mem_cons_self)
  | cons next rest ih =>
    exact .firstNext (h shape List.mem_cons_self)
      (ih next fun o ho => h o (List.mem_cons_of_mem _ ho))

end Choices

/-! ## Chains -/

section Chains

variable {room : ℕ∞} {operand operator : TermIndex} {trees trees' between : List Tree}

/-- An operator and an operand behind it. -/
def link (operator operand : TermIndex) : Shape :=
  .sequence [.term operator, .term operand]

/-- **Beginnings of chains.**  Whatever further links are read from `stop` on, from `start` on the
given trees are read before theirs. -/
def Begin (language : Language) (room : ℕ∞) (operand operator : TermIndex) (start : Cursor)
    (trees : List Tree) (stop : Cursor) : Prop :=
  ∀ more last, language.Evaluates room (.pairs (link operator operand) .empty) stop
      (.matched more last) →
    ∃ first middle others,
      language.Evaluates room (.term operand) start (.matched first middle) ∧
      language.Evaluates room (.pairs (link operator operand) .empty) middle
        (.matched others last) ∧
      first ++ others = trees ++ more

/-- A single operand begins a chain. -/
theorem begin_operand
    (h : language.Evaluates room (.term operand) start (.matched trees stop)) :
    Begin language room operand operator start trees stop :=
  fun more _ hmore => ⟨trees, stop, more, h, hmore, rfl⟩

/-- With an operator between them, the beginnings of two chains are the beginning of one. -/
theorem Begin.append (h : Begin language room operand operator start trees middle)
    (hoperator : language.Evaluates room (.term operator) middle (.matched between next))
    (h' : Begin language room operand operator next trees' stop) :
    Begin language room operand operator start (trees ++ (between ++ trees')) stop := by
  intro more last hmore
  obtain ⟨first', place', others', hfirst', hothers', heq'⟩ := h' more last hmore
  have hlink : language.Evaluates room (.all [.empty, link operator operand]) middle
      (.matched (between ++ first') place') := by
    have hpair := Evaluates.sequence
      (.allCons (.reference hoperator) (.allCons (.reference hfirst') .allNil))
    have hall := Evaluates.allCons .empty (.allCons hpair .allNil)
    simpa only [Verdict.map, List.append_nil, List.nil_append, link] using hall
  obtain ⟨first, place, others, hfirst, hothers, heq⟩ := h _ last (.pairsNext hlink hothers')
  refine ⟨first, place, others, hfirst, hothers, ?_⟩
  rw [heq, List.append_assoc between, heq']
  simp only [List.append_assoc]

/-- Links without delimiters between them are evaluated as links alone. -/
theorem evaluates_of_all_empty {item : Shape} {verdict : Verdict}
    (h : language.Evaluates room (.all [.empty, item]) start verdict) :
    language.Evaluates room (.shape item) start verdict := by
  cases h with
  | allFail hempty => cases hempty
  | @allCons _ _ _ _ _ _ verdict hempty hitem =>
    cases hempty
    have hsame : verdict.map ([] ++ ·) = verdict := by
      cases verdict <;> rfl
    rw [hsame]
    cases hitem with
    | allFail hitem => exact hitem
    | allCons hitem hnil =>
      cases hnil
      rwa [Verdict.map, List.append_nil]

/-- Links are read as a repetition that may be empty. -/
theorem evaluates_repeated_of_pairs {item : Shape} {trailing : Bool}
    (h : language.Evaluates room (.pairs item .empty) start (.matched trees stop)) :
    language.Evaluates room (.shape (.repeated item ⟨true, trailing⟩)) start
      (.matched trees stop) := by
  cases h with
  | pairsEnd hfails => exact .repeated (.itemsFail (evaluates_of_all_empty hfails))
  | pairsNext hlink hrest => exact .repeated (.items (evaluates_of_all_empty hlink) hrest)

/-- Where no further operator stands behind its beginning, a chain is read. -/
theorem Begin.chain (h : Begin language room operand operator start trees stop)
    (hoperator : language.Evaluates room (.term operator) stop .failed) :
    language.Evaluates room
      (.shape (.sequence [.term operand, .repeated (link operator operand) ⟨true, false⟩])) start
      (.matched trees stop) := by
  have hnoLink : language.Evaluates room (.all [.empty, link operator operand]) stop .failed :=
    .allCons .empty (.allFail (.sequence (.allFail (.reference hoperator))))
  obtain ⟨first, middle, others, hfirst, hothers, heq⟩ := h [] stop (.pairsEnd hnoLink)
  have hlinks : language.Evaluates room
      (.shape (.repeated (link operator operand) ⟨true, false⟩)) middle (.matched others stop) :=
    evaluates_repeated_of_pairs hothers
  have hall := Evaluates.allCons (.reference hfirst) (.allCons hlinks .allNil)
  rw [Verdict.map, Verdict.map, List.append_nil, heq, List.append_nil] at hall
  exact .sequence hall

end Chains

end TypedGrammar.Language
