import TypedGrammar.Proofs.Diagnosis.Messages
import TypedGrammar.Proofs.OrderedChoice.Documents
import TypedGrammar.Proofs.OrderedChoice.Symbols

/-!
# The nesting limit

A verdict that was reached with some room for open rules carries over to another room if the rules
that were refused fail there, and the rules that were opened can be opened there.  Hence a text
that never needs more open rules than the nesting limit allows is parsed as it would be without
any limit; and the limit does not change what a text is parsed as exactly if the rules that it
refuses would fail without it as well.
-/

namespace TypedGrammar

namespace Language

variable {language : Language} {room room' : ℕ∞} {task goal : Task} {start place : Cursor}
  {verdict : Verdict}

/-! ## Another room -/

/-- Wherever a rule is attempted on the way, it fails in another room if it is refused here, and
it is not refused in the other room otherwise. -/
structure Carries (language : Language) (room room' : ℕ∞) (task : Task) (start : Cursor) :
    Prop where
  refused : ∀ {opened : ℕ} {index term shape place},
    language.Attempts room task start opened (.term index) place →
    language.Defines index term shape → room - opened = 0 →
    language.Evaluates (room' - opened) (.term index) place .failed
  opens : ∀ {opened : ℕ} {index term shape place},
    language.Attempts room task start opened (.term index) place →
    language.Defines index term shape → room - opened ≠ 0 → room' - opened ≠ 0

/-- What carries over for a task carries over for whatever it tries. -/
theorem Carries.tries {task' : Task} {start' : Cursor} (h : language.Carries room room' task start)
    (htry : language.Tries room task start task' start') :
    language.Carries room room' task' start' where
  refused hattempt := h.refused (.inside htry hattempt)
  opens hattempt := h.opens (.inside htry hattempt)

/-- What carries over for a rule carries over inside it, with less room. -/
theorem Carries.inside {index : TermIndex} {term : Term} {shape : Shape}
    (h : language.Carries room room' (.term index) start)
    (hdef : language.Defines index term shape) (hroom : room ≠ 0) :
    language.Carries (room - 1) (room' - 1) (.shape shape) start where
  refused hattempt hdef' hzero := by
    rw [← sub_succ] at hzero ⊢
    exact h.refused (.opens hdef hroom hattempt) hdef' hzero
  opens hattempt hdef' hne := by
    rw [← sub_succ] at hne ⊢
    exact h.opens (.opens hdef hroom hattempt) hdef' hne

/-- **Change of room.**  A verdict carries over to another room if all refusals do. -/
theorem Evaluates.carry (h : language.Evaluates room task start verdict)
    (hcarry : language.Carries room room' task start) :
    language.Evaluates room' task start verdict := by
  induction h generalizing room' with
  | scan hscan => exact .scan hscan
  | @rule room index term shape start verdict hdef hroom _ ih =>
    -- The rule is attempted where it stands, with no rule open in between.
    have hroom' : room' ≠ 0 := by
      have := hcarry.opens .here hdef
      rw [Nat.cast_zero, tsub_zero, tsub_zero] at this
      exact this hroom
    exact .rule hdef hroom' (ih (hcarry.inside hdef hroom))
  | refused hdef hzero =>
    have hfails := hcarry.refused .here hdef
    rw [Nat.cast_zero, tsub_zero, tsub_zero] at hfails
    exact hfails hzero
  | empty => exact .empty
  | hint => exact .hint
  | noAlternative => exact .noAlternative
  | allNil => exact .allNil
  | reference _ ih => exact .reference (ih (hcarry.tries .reference))
  | sequence _ ih => exact .sequence (ih (hcarry.tries .sequence))
  | choice _ ih => exact .choice (ih (hcarry.tries .choice))
  | repeated _ ih => exact .repeated (ih (hcarry.tries .repeated))
  | separated _ ih => exact .separated (ih (hcarry.tries .separated))
  | allFail _ ih => exact .allFail (ih (hcarry.tries .allHead))
  | allCons h _ ih ihRest =>
    exact .allCons (ih (hcarry.tries .allHead)) (ihRest (hcarry.tries (.allTail h)))
  | firstMatch _ ih => exact .firstMatch (ih (hcarry.tries .firstHead))
  | firstFail _ ih => exact .firstFail (ih (hcarry.tries .firstHead))
  | firstNext h _ ih ihNext =>
    exact .firstNext (ih (hcarry.tries .firstHead)) (ihNext (hcarry.tries (.firstTail h)))
  | itemsFail _ ih => exact .itemsFail (ih (hcarry.tries .item))
  | items h _ ih ihPairs =>
    exact .items (ih (hcarry.tries .item)) (ihPairs (hcarry.tries (.pairs h)))
  | itemsTrailing h hpairs _ ih ihPairs ihLast =>
    exact .itemsTrailing (ih (hcarry.tries .item)) (ihPairs (hcarry.tries (.pairs h)))
      (ihLast (hcarry.tries (.trailing h hpairs)))
  | itemsNoTrailing h hpairs _ ih ihPairs ihLast =>
    exact .itemsNoTrailing (ih (hcarry.tries .item)) (ihPairs (hcarry.tries (.pairs h)))
      (ihLast (hcarry.tries (.trailing h hpairs)))
  | pairsEnd _ ih => exact .pairsEnd (ih (hcarry.tries .pair))
  | pairsNext h _ ih ihPairs =>
    exact .pairsNext (ih (hcarry.tries .pair)) (ihPairs (hcarry.tries (.nextPair h)))

/-- A document is read in the same way with the room to which everything carries over. -/
theorem Reads.carry {text : String} {result : Option Tree} (h : language.Reads room text result)
    (hcarry : language.Carries room room' (.term language.root) (Cursor.start text.toList)) :
    language.Reads room' text result := by
  cases h with
  | accepted hroot hskips hrest => exact .accepted (hroot.carry hcarry) hskips hrest
  | leftOver hroot hskips hrest => exact .leftOver (hroot.carry hcarry) hskips hrest
  | rejected hroot => exact .rejected (hroot.carry hcarry)

/-! ## Within the limit -/

/-- Where no attempt is made with more than `limit` open rules, nothing is refused with room for so
many. -/
theorem carries_of_attempts_le {limit : ℕ}
    (hle : ∀ opened goal place,
      language.Attempts ⊤ task start opened goal place → opened ≤ limit) :
    language.Carries ⊤ limit task start where
  refused _ _ hzero := by
    rw [ENat.top_sub_natCast] at hzero
    exact absurd hzero (ENat.top_ne_zero)
  opens {opened index term shape place} hattempt hdef hne := by
    have hopened := hle _ _ _ (hattempt.open hdef hne)
    rw [ne_eq, tsub_eq_zero_iff_le, not_le, Nat.cast_lt]
    omega

/-- **Within the limit.**  A text that is read without any limit, and never with more open rules
than the nesting limit allows, is parsed as the same tree, or refused as well. -/
theorem parse?_of_reads (hkeys : language.HasKeyTexts) {text : String} {result : Option Tree}
    (hreads : language.Reads ⊤ text result)
    (hle : ∀ opened goal place,
      language.Attempts ⊤ (.term language.root) (Cursor.start text.toList) opened goal place →
        opened ≤ nestingLimit) :
    ∃ parse, language.parse? text = some parse ∧ parse.tree = result ∧
      (parse.errors = [] ↔ result.isSome) := by
  have hlimited : language.Reads nestingLimit text result :=
    hreads.carry (carries_of_attempts_le hle)
  obtain ⟨parse, hparse, rfl⟩ := hlimited.parse? hkeys
  exact ⟨parse, hparse, rfl, errors_eq_nil_iff hparse⟩

/-- The language of two signs: `A ::= "+" | "-"`. -/
def signs : Language :=
  .ofRule (.choice [.term firstSymbol, .term secondSymbol])
    [(firstSymbol, "+"), (secondSymbol, "-")]

/-- The second sign is read after the first one has failed. -/
theorem reads_signs : signs.Reads ⊤ "-"
    (some (.node .document [.node (.term signs.root) [.token (.term secondSymbol) "-"]])) := by
  have hskips : Skips signs.comments (Cursor.start "-".toList) (Cursor.start "-".toList) :=
    skips_self (by decide)
  have hplus : signs.ScansTerm firstSymbol (Cursor.start "-".toList) .failed := by
    refine scansTerm_noSymbol rfl (by decide) (by decide) hskips ?_
    rintro stop ⟨h, _⟩
    cases h
  have hminus : signs.ScansTerm secondSymbol (Cursor.start "-".toList)
      (.matched [.token (.term secondSymbol) "-"] ⟨1, [], 0, rfl⟩) :=
    scansTerm_symbol rfl (by decide) (by decide) hskips ⟨rfl, rfl⟩
  have hroot : signs.Evaluates ⊤ (.term signs.root) (Cursor.start "-".toList)
      (.matched [.node (.term signs.root) [.token (.term secondSymbol) "-"]] ⟨1, [], 0, rfl⟩) :=
    .node ⟨rfl, rfl⟩ ENat.top_ne_zero (by decide) (.choice
      (.firstNext (.reference (.scan hplus)) (.firstMatch (.reference (.scan hminus)))))
  have hend : Skips signs.comments ⟨1, [], 0, rfl⟩ ⟨1, [], 0, rfl⟩ :=
    skips_self (by decide)
  exact Reads.accepted hroot hend rfl

/-- Only the rule itself is opened. -/
theorem attempts_signs {opened : ℕ}
    (h : signs.Attempts room (.term signs.root) start opened goal place) : opened ≤ 1 := by
  cases h with
  | here => exact Nat.zero_le 1
  | inside htry => cases htry
  | opens hdef _ h =>
    obtain ⟨_, rfl⟩ := defines_ofRule hdef
    refine Nat.succ_le_succ (Nat.le_zero.mpr ?_)
    cases h with
    | here => rfl
    | inside htry h =>
      cases htry
      cases h with
      | here => rfl
      | inside htry h =>
        cases htry with
        | firstHead => exact attempts_ofRule h (by decide)
        | firstTail =>
          cases h with
          | here => rfl
          | inside htry h =>
            cases htry
            exact attempts_ofRule h (by decide)

/-- A sign is parsed as the one rule that it is. -/
theorem parse?_signs : ∃ parse, signs.parse? "-" = some parse ∧
    parse.tree =
      some (.node .document [.node (.term signs.root) [.token (.term secondSymbol) "-"]]) ∧
    (parse.errors = [] ↔ true) :=
  parse?_of_reads (by decide) reads_signs fun _ _ _ h =>
    (attempts_signs h).trans (by decide)

/-! ## Beyond the limit -/

/-- Where refused rules fail without a limit as well, a verdict carries over. -/
theorem carries_top
    (hfails : ∀ opened index term shape place,
      language.Attempts room task start opened (.term index) place →
      language.Defines index term shape → room ≤ opened →
      language.Evaluates ⊤ (.term index) place .failed) :
    language.Carries room ⊤ task start where
  refused hattempt hdef hzero := by
    rw [ENat.top_sub_natCast]
    exact hfails _ _ _ _ _ hattempt hdef (tsub_eq_zero_iff_le.mp hzero)
  opens _ _ _ := by
    rw [ENat.top_sub_natCast]
    exact ENat.top_ne_zero

/-- On the way through a text, a rule is refused at some place since too many rules are open. -/
def Refuses (language : Language) (text : String) (index : TermIndex) (place : Cursor) : Prop :=
  (∃ term shape, language.Defines index term shape) ∧
    language.Attempts nestingLimit (.term language.root) (Cursor.start text.toList) nestingLimit
      (.term index) place

/-- Where all refused rules would fail without a limit, any verdict on the way carries over. -/
theorem carries_of_refusals_fail {text : String}
    (hfails : ∀ index place, language.Refuses text index place →
      language.Evaluates ⊤ (.term index) place .failed) {opened : ℕ}
    (hattempt : language.Attempts nestingLimit (.term language.root) (Cursor.start text.toList)
      opened goal place) :
    language.Carries (nestingLimit - opened) ⊤ goal place := by
  refine carries_top fun more index term shape place' hmore hdef hle => ?_
  have hwhole := hattempt.trans hmore
  -- What is refused below an attempt is refused on the way from the root.
  have hlimit : opened + more = nestingLimit := by
    refine le_antisymm ?_ ?_
    · exact Nat.cast_le.mp hwhole.opened_le
    · rw [tsub_le_iff_left, ← Nat.cast_add, Nat.cast_le] at hle
      exact hle
  rw [hlimit] at hwhole
  exact hfails index place' ⟨⟨term, shape, hdef⟩, hwhole⟩

/-- **Beyond the limit.**  What is attempted on the way through a text has the same verdict without
any limit, and the text is read as the same tree, exactly if all rules that are refused would fail
without the limit as well. -/
theorem refusals_fail_iff (hkeys : language.HasKeyTexts) {text : String} {parse : Parse}
    (hparse : language.parse? text = some parse) :
    (∀ index place, language.Refuses text index place →
        language.Evaluates ⊤ (.term index) place .failed) ↔
      language.Reads ⊤ text parse.tree ∧
        ∀ opened goal place verdict,
          language.Attempts nestingLimit (.term language.root) (Cursor.start text.toList) opened
            goal place →
          language.Evaluates (nestingLimit - opened) goal place verdict →
          language.Evaluates ⊤ goal place verdict := by
  constructor
  · intro hfails
    constructor
    · have hroot := carries_of_refusals_fail hfails .here
      rw [Nat.cast_zero, tsub_zero] at hroot
      exact (reads_of_parse? hkeys hparse).carry hroot
    · intro opened goal place verdict hattempt h
      exact h.carry (carries_of_refusals_fail hfails hattempt)
  · -- A rule that is refused has failed within the limit.
    rintro ⟨_, hsame⟩ index place ⟨⟨term, shape, hdef⟩, hattempt⟩
    exact hsame _ _ _ _ hattempt (.refused hdef (tsub_self _))

/-! ## A refusal that is swallowed -/

/-- The language of open parentheses: `A ::= "(" (A | ε) "("*`. -/
def parentheses : Language :=
  .ofRule (.sequence [.term firstSymbol, .choice [.term ruleIndex, .empty],
    .repeated (.term firstSymbol) ⟨true, false⟩]) [(firstSymbol, "(")]

/-- The place with so many parentheses before it and so many from it on. -/
def parenPlace (before after : ℕ) : Cursor :=
  ⟨before, List.replicate after '(', after, by rw [List.length_replicate]⟩

/-- The token of a parenthesis. -/
def parenToken : Tree :=
  .token (.term firstSymbol) "("

/-- The tree of `n + 1` parentheses, each inside the one before. -/
def nested : ℕ → Tree
  | 0 => .node (.term parentheses.root) [parenToken]
  | n + 1 => .node (.term parentheses.root) [parenToken, nested n]

/-- The tree of `n + 2` parentheses, the last two beside each other. -/
def crowded : ℕ → Tree
  | 0 => .node (.term parentheses.root) [parenToken, parenToken]
  | n + 1 => .node (.term parentheses.root) [parenToken, crowded n]

/-- The two trees of the same parentheses differ. -/
theorem crowded_ne_nested (n : ℕ) : crowded n ≠ nested (n + 1) := by
  induction n with
  | zero =>
    intro h
    simp only [crowded, nested, parenToken] at h
    injection h with _ h
    simp at h
  | succ n ih =>
    intro h
    rw [crowded, nested] at h
    injection h with _ h
    simp only [List.cons.injEq, true_and, and_true] at h
    exact ih h

/-- Nothing is skipped between parentheses. -/
theorem skips_paren (before after : ℕ) :
    Skips parentheses.comments (parenPlace before after) (parenPlace before after) := by
  refine skips_self ?_
  cases after with
  | zero => rfl
  | succ after =>
    have hhead : (parenPlace before (after + 1)).rest.head? = some '(' := rfl
    rw [hhead, Option.any_some]
    decide

/-- A parenthesis is taken where there is one left. -/
theorem evaluates_paren (before after : ℕ) :
    parentheses.Evaluates room (.shape (.term firstSymbol)) (parenPlace before (after + 1))
      (.matched [parenToken] (parenPlace (before + 1) after)) := by
  have hspans : (parenPlace before (after + 1)).Spans (parenPlace (before + 1) after) "(".toList :=
    ⟨List.replicate_succ, rfl⟩
  exact .reference (.scan
    (scansTerm_symbol rfl (by decide) (by decide) (skips_paren before (after + 1)) hspans))

/-- No parenthesis is taken at the end. -/
theorem evaluates_noParen (before : ℕ) :
    parentheses.Evaluates room (.shape (.term firstSymbol)) (parenPlace before 0) .failed := by
  refine .reference (.scan
    (scansTerm_noSymbol rfl (by decide) (by decide) (skips_paren before 0) ?_))
  rintro stop ⟨h, _⟩
  cases h

/-- At the end no more parentheses are taken. -/
theorem evaluates_noParens (before : ℕ) :
    parentheses.Evaluates room (.shape (.repeated (.term firstSymbol) ⟨true, false⟩))
      (parenPlace before 0) (.matched [] (parenPlace before 0)) :=
  .repeated (.itemsFail (evaluates_noParen before))

/-- Without a limit, all parentheses are nested. -/
theorem evaluates_nested (before n : ℕ) :
    parentheses.Evaluates ⊤ (.term parentheses.root) (parenPlace before (n + 1))
      (.matched [nested n] (parenPlace (before + (n + 1)) 0)) := by
  induction n generalizing before with
  | zero =>
    have hrule : parentheses.Evaluates ⊤ (.shape (.term parentheses.root))
        (parenPlace (before + 1) 0) .failed :=
      .reference (.rule ⟨rfl, rfl⟩ ENat.top_ne_zero
        (.sequence (.allFail (evaluates_noParen (before + 1)))))
    exact .node ⟨rfl, rfl⟩ ENat.top_ne_zero (by decide) (.sequence (.allCons
      (evaluates_paren before 0) (.allCons (.choice (.firstNext hrule (.firstMatch .empty)))
        (.allCons (evaluates_noParens (before + 1)) .allNil))))
  | succ n ih =>
    have hinner := ih (before + 1)
    rw [Nat.add_right_comm before 1] at hinner
    exact .node ⟨rfl, rfl⟩ ENat.top_ne_zero (by decide) (.sequence (.allCons
      (evaluates_paren before (n + 1)) (.allCons (.choice (.firstMatch (.reference hinner)))
        (.allCons (evaluates_noParens _) .allNil))))

/-- With room for one rule less than there are parentheses, the innermost rule is refused, and its
parenthesis is taken by the repetition around it. -/
theorem evaluates_crowded (before n : ℕ) :
    parentheses.Evaluates (n + 1 : ℕ) (.term parentheses.root) (parenPlace before (n + 2))
      (.matched [crowded n] (parenPlace (before + (n + 2)) 0)) := by
  induction n generalizing before with
  | zero =>
    have hpair : parentheses.Evaluates 0 (.all [.empty, .term firstSymbol])
        (parenPlace (before + 2) 0) .failed :=
      .allCons .empty (.allFail (evaluates_noParen (before + 2)))
    have hrest : parentheses.Evaluates 0 (.shape (.repeated (.term firstSymbol) ⟨true, false⟩))
        (parenPlace (before + 1) 1) (.matched [parenToken] (parenPlace (before + 2) 0)) :=
      .repeated (.items (evaluates_paren (before + 1) 0) (.pairsEnd hpair))
    -- No room is left for the rule of the last parenthesis.
    have hrule : parentheses.Evaluates 0 (.shape (.term parentheses.root))
        (parenPlace (before + 1) 1) .failed :=
      .reference (.refused ⟨rfl, rfl⟩ rfl)
    refine .node ⟨rfl, rfl⟩ one_ne_zero (by decide) ?_
    rw [Nat.zero_add, Nat.cast_one, tsub_self]
    exact .sequence (.allCons (evaluates_paren before 1)
      (.allCons (.choice (.firstNext hrule (.firstMatch .empty))) (.allCons hrest .allNil)))
  | succ n ih =>
    have hinner := ih (before + 1)
    rw [Nat.add_right_comm before 1] at hinner
    refine .node ⟨rfl, rfl⟩ (natCast_succ_ne_zero (n + 1)) (by decide) ?_
    rw [natCast_succ_sub_one]
    exact .sequence (.allCons (evaluates_paren before (n + 2))
      (.allCons (.choice (.firstMatch (.reference hinner)))
        (.allCons (evaluates_noParens _) .allNil)))

/-- One parenthesis more than rules may be open. -/
def deepParens : String :=
  String.ofList (List.replicate (nestingLimit + 1) '(')

/-- All parentheses of the text are still to be read at its start. -/
theorem start_deepParens : Cursor.start deepParens.toList = parenPlace 0 (nestingLimit + 1) := by
  refine Cursor.eq_of_index_rest rfl ?_
  rw [deepParens, String.toList_ofList]
  rfl

/-- If the rule takes all parentheses, then its tree is that of the document. -/
theorem reads_of_evaluates_deepParens {tree : Tree} {stop : ℕ}
    (h : parentheses.Evaluates room (.term parentheses.root) (parenPlace 0 (nestingLimit + 1))
      (.matched [tree] (parenPlace stop 0))) :
    parentheses.Reads room deepParens (some (.node .document [tree])) := by
  rw [← start_deepParens] at h
  have hreads := Reads.accepted h (skips_paren stop 0) rfl
  rwa [skipped, if_neg (lt_irrefl _), List.append_nil] at hreads

/-- Within the nesting limit, the last two parentheses stand beside each other. -/
theorem exists_parse_deepParens : ∃ parse, parentheses.parse? deepParens = some parse ∧
    parse.tree = some (.node .document [crowded 255]) :=
  (reads_of_evaluates_deepParens (evaluates_crowded 0 255)).parse? (by decide)

/-- **A swallowed refusal.**  Although nothing is wrong with the language, more parentheses than
rules may be open are parsed as another tree than without the limit. -/
theorem parse?_deepParens : parentheses.IsUncritical ∧ parentheses.HasKeyTexts ∧
    ∃ parse, parentheses.parse? deepParens = some parse ∧ parse.tree.isSome ∧
      ¬ parentheses.Reads ⊤ deepParens parse.tree := by
  obtain ⟨parse, hparse, htree⟩ := exists_parse_deepParens
  refine ⟨by decide +kernel, by decide, parse, hparse, by rw [htree, Option.isSome_some], ?_⟩
  intro hreads
  have hnested := reads_of_evaluates_deepParens (evaluates_nested 0 256)
  -- The text is read as one tree only, but the two trees differ in the innermost rule.
  have hsame := hreads.unique hnested
  rw [htree] at hsame
  injection hsame with hsame
  injection hsame with _ hsame
  injection hsame with hsame
  exact crowded_ne_nested 255 hsame

/-- Here the rule for the last parenthesis is refused, and would not fail. -/
theorem refusals_fail_iff_deepParens : ∃ parse, parentheses.parse? deepParens = some parse ∧
    ((∀ index place, parentheses.Refuses deepParens index place →
        parentheses.Evaluates ⊤ (.term index) place .failed) ↔
      parentheses.Reads ⊤ deepParens parse.tree ∧
        ∀ opened goal place verdict,
          parentheses.Attempts nestingLimit (.term parentheses.root)
            (Cursor.start deepParens.toList) opened goal place →
          parentheses.Evaluates (nestingLimit - opened) goal place verdict →
          parentheses.Evaluates ⊤ goal place verdict) := by
  obtain ⟨parse, hparse, _⟩ := exists_parse_deepParens
  exact ⟨parse, hparse, refusals_fail_iff (by decide) hparse⟩

end Language

end TypedGrammar
