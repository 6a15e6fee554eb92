import TypedGrammar.Proofs.Diagnosis.CycleSearch
import TypedGrammar.Proofs.Diagnosis.Repetition

/-!
# Left recursion

A rule leads to another one if its shape may begin with it, before any input is consumed.  A rule
that is entered again at the same place while it is still open leads to itself along some cycle.
The diagnosis finds every cycle of the edges that it sees; it overlooks those that lead through the
delimiter of a repetition whose item may be nothing.
-/

namespace TypedGrammar

/-! ## What shapes begin with -/

/-- A shape may begin with a term: what stands before it may be nothing. -/
inductive Shape.Begins (nullable : TermSet) : Shape → TermIndex → Prop
  | term {index} : Begins nullable (.term index) index
  | sequence {before shape after index} :
      (∀ s ∈ before, s.isNullable nullable = true) → Begins nullable shape index →
      Begins nullable (.sequence (before ++ shape :: after)) index
  | choice {alternatives shape index} :
      shape ∈ alternatives → Begins nullable shape index →
      Begins nullable (.choice alternatives) index
  | item {part item delimiter index} :
      part.repetition? = some (item, delimiter) → Begins nullable item index →
      Begins nullable part index
  /-- A delimiter comes first if the item before it is nothing. -/
  | delimiter {part item delimiter index} :
      part.repetition? = some (item, delimiter) → item.isNullable nullable = true →
      Begins nullable delimiter index → Begins nullable part index

/-- A task may begin with a term. -/
def Task.Begins (nullable : TermSet) (task : Task) (index : TermIndex) : Prop :=
  match task with
  | .term entered => entered = index
  | .shape s => s.Begins nullable index
  | .all shapes => (Shape.sequence shapes).Begins nullable index
  | .first s others => (Shape.choice (s :: others)).Begins nullable index
  | .items item delimiter _ =>
    item.Begins nullable index ∨
      item.isNullable nullable = true ∧ delimiter.Begins nullable index
  | .pairs item delimiter => (Shape.sequence [delimiter, item]).Begins nullable index

namespace Shape

variable {nullable : TermSet} {shape : Shape} {shapes : List Shape} {index : TermIndex}

/-- A sequence begins with a term if one of its shapes does and all before it may be empty. -/
theorem begins_sequence_iff :
    (sequence shapes).Begins nullable index ↔
      ∃ before shape after, shapes = before ++ shape :: after ∧
        (∀ s ∈ before, s.isNullable nullable = true) ∧ shape.Begins nullable index := by
  constructor
  · intro h
    cases h with
    | sequence hbefore hshape => exact ⟨_, _, _, rfl, hbefore, hshape⟩
    | item hrepetition => cases hrepetition
    | delimiter hrepetition => cases hrepetition
  · rintro ⟨before, shape, after, rfl, hbefore, hshape⟩
    exact .sequence hbefore hshape

/-- A sequence begins as its first shape, or behind it if this may be empty. -/
theorem begins_sequence_cons :
    (sequence (shape :: shapes)).Begins nullable index ↔
      shape.Begins nullable index ∨
        shape.isNullable nullable = true ∧ (sequence shapes).Begins nullable index := by
  rw [begins_sequence_iff, begins_sequence_iff]
  constructor
  · rintro ⟨before, first, after, hshapes, hbefore, hfirst⟩
    cases before with
    | nil =>
      injection hshapes with hshape _
      subst hshape
      exact Or.inl hfirst
    | cons s before =>
      injection hshapes with hshape hrest
      subst hshape
      refine Or.inr ⟨hbefore _ List.mem_cons_self, before, first, after, hrest, ?_, hfirst⟩
      exact fun t ht => hbefore t (List.mem_cons_of_mem _ ht)
  · rintro (hshape | ⟨hnull, before, first, after, rfl, hbefore, hfirst⟩)
    · exact ⟨[], shape, shapes, rfl, fun s hs => absurd hs List.not_mem_nil, hshape⟩
    · refine ⟨shape :: before, first, after, rfl, fun s hs => ?_, hfirst⟩
      rcases List.mem_cons.mp hs with rfl | hs
      · exact hnull
      · exact hbefore s hs

/-- A choice begins as one of its alternatives. -/
theorem begins_choice_iff :
    (choice shapes).Begins nullable index ↔ ∃ s ∈ shapes, s.Begins nullable index := by
  constructor
  · intro h
    cases h with
    | choice hmem hshape => exact ⟨_, hmem, hshape⟩
    | item hrepetition => cases hrepetition
    | delimiter hrepetition => cases hrepetition
  · rintro ⟨s, hs, hbegins⟩
    exact .choice hs hbegins

/-- A repetition begins as its items do. -/
theorem begins_of_items {item delimiter : Shape} {trailing : Bool}
    (hrepetition : shape.repetition? = some (item, delimiter))
    (h : (Task.items item delimiter trailing).Begins nullable index) :
    shape.Begins nullable index := by
  rcases h with hitem | ⟨hnull, hdelimiter⟩
  · exact .item hrepetition hitem
  · exact .delimiter hrepetition hnull hdelimiter

/-- What a shape may begin with is a part of it. -/
theorem Begins.mem_parts (h : shape.Begins nullable index) : .term index ∈ shape.parts := by
  induction h with
  | term => exact self_mem_parts _
  | sequence _ _ ih => exact parts_trans (mem_parts_of_sequence (by simp)) ih
  | choice hmem _ ih => exact parts_trans (mem_parts_of_choice hmem) ih
  | item hrepetition _ ih => exact parts_trans (mem_parts_of_repetition hrepetition).1 ih
  | delimiter hrepetition _ _ ih =>
    rcases (mem_parts_of_repetition hrepetition).2 with rfl | hdelimiter
    · simp [parts] at ih
    · exact parts_trans hdelimiter ih

end Shape

/-! ## What the diagnosis sees -/

namespace Shape

variable {nullable : TermSet} {isRule : TermIndex → Bool} {shape : Shape} {index : TermIndex}

/-- The left corners of a shape are those of the sequence, if all before it may be empty. -/
theorem mem_leftCornersOfSequence {before after : List Shape}
    (hbefore : ∀ s ∈ before, s.isNullable nullable = true)
    (h : index ∈ shape.leftCorners isRule nullable) :
    index ∈ leftCornersOfSequence isRule nullable (before ++ shape :: after) := by
  induction before with
  | nil =>
    rw [List.nil_append, leftCornersOfSequence]
    exact List.mem_append_left _ h
  | cons s before ih =>
    rw [List.cons_append, leftCornersOfSequence, if_pos (hbefore s List.mem_cons_self)]
    exact List.mem_append_right _ (ih fun t ht => hbefore t (List.mem_cons_of_mem _ ht))

/-- The left corners of an alternative are those of the choice. -/
theorem mem_leftCornersOfChoice {alternatives : List Shape} (hmem : shape ∈ alternatives)
    (h : index ∈ shape.leftCorners isRule nullable) :
    index ∈ leftCornersOfChoice isRule nullable alternatives := by
  induction alternatives with
  | nil => cases hmem
  | cons s rest ih =>
    rw [leftCornersOfChoice]
    rcases List.mem_cons.mp hmem with rfl | hmem
    · exact List.mem_append_left _ h
    · exact List.mem_append_right _ (ih hmem)

/-- The left corners of a repetition are those of its item. -/
theorem leftCorners_of_repetition {part item delimiter : Shape}
    (h : part.repetition? = some (item, delimiter)) :
    part.leftCorners isRule nullable = item.leftCorners isRule nullable := by
  cases part with
  | repeated item' bounds | separated item' delimiter' bounds =>
    injection h with h
    injection h with hitem _
    rw [leftCorners, hitem]
  | _ => cases h

/-- A part of a shape is a repetition whose item may be nothing, and whose delimiter may begin with
a term. -/
def BeginsBehindItem (nullable : TermSet) (shape : Shape) (index : TermIndex) : Prop :=
  ∃ part ∈ shape.parts, ∃ item delimiter, part.repetition? = some (item, delimiter) ∧
    item.isNullable nullable = true ∧ delimiter.Begins nullable index

theorem BeginsBehindItem.trans {part : Shape} (h : part.BeginsBehindItem nullable index)
    (hpart : part ∈ shape.parts) : shape.BeginsBehindItem nullable index := by
  obtain ⟨repetition, hmem, hrest⟩ := h
  exact ⟨repetition, parts_trans hpart hmem, hrest⟩

/-- The rules that a shape may begin with are seen, except for those behind an item that may be
nothing. -/
theorem Begins.seen_or_behind (h : shape.Begins nullable index) (hrule : isRule index = true) :
    index ∈ shape.leftCorners isRule nullable ∨ shape.BeginsBehindItem nullable index := by
  induction h with
  | term =>
    rw [leftCorners, if_pos hrule]
    exact Or.inl List.mem_cons_self
  | sequence hbefore _ ih =>
    rw [leftCorners]
    refine (ih hrule).imp (mem_leftCornersOfSequence hbefore) fun hbehind => ?_
    exact hbehind.trans (mem_parts_of_sequence (List.mem_append_right _ List.mem_cons_self))
  | choice hmem _ ih =>
    rw [leftCorners]
    exact (ih hrule).imp (mem_leftCornersOfChoice hmem) fun hbehind =>
      hbehind.trans (mem_parts_of_choice hmem)
  | item hrepetition _ ih =>
    rw [leftCorners_of_repetition hrepetition]
    exact (ih hrule).imp id fun hbehind => hbehind.trans (mem_parts_of_repetition hrepetition).1
  | delimiter hrepetition hnull hbegins _ =>
    exact Or.inr ⟨_, self_mem_parts _, _, _, hrepetition, hnull, hbegins⟩

end Shape

namespace Language

variable {language : Language} {room : ℕ∞} {task task' goal : Task} {start start' place : Cursor}
  {index : TermIndex}

/-! ## From attempts to edges -/

/-- What a task tries before anything is consumed, it may begin with. -/
theorem Tries.begins (halternatives : language.HasAlternatives) (hcovers : language.Covers task)
    (h : language.Tries room task start task' start') (hstart : start' = start)
    (hbegins : task'.Begins language.nullable index) : task.Begins language.nullable index := by
  cases h with
  | reference =>
    cases hbegins
    exact Shape.Begins.term
  | sequence | choice => exact hbegins
  | repeated | separated => exact Shape.begins_of_items rfl hbegins
  | allHead => exact Shape.begins_sequence_cons.mpr (Or.inl hbegins)
  | allTail hshape =>
    have hnull := (hshape.vanishes hstart).isNullable halternatives (hcovers _ List.mem_cons_self)
    exact Shape.begins_sequence_cons.mpr (Or.inr ⟨hnull, hbegins⟩)
  | firstHead => exact Shape.Begins.choice List.mem_cons_self hbegins
  | firstTail =>
    obtain ⟨s, hs, hbegins⟩ := Shape.begins_choice_iff.mp hbegins
    exact Shape.Begins.choice (List.mem_cons_of_mem _ hs) hbegins
  | item => exact Or.inl hbegins
  | @pairs item delimiter trailing _ _ _ hitem =>
    obtain ⟨part, hpart, hrepetition⟩ := hcovers
    -- The item before the pairs was nothing.
    have hnull :=
      (hitem.vanishes hstart).isNullable halternatives (hpart.repetition hrepetition).1
    rcases Shape.begins_sequence_cons.mp hbegins with hdelimiter | ⟨_, hitem⟩
    · exact Or.inr ⟨hnull, hdelimiter⟩
    · rcases Shape.begins_sequence_cons.mp hitem with hitem | ⟨_, hnil⟩
      · exact Or.inl hitem
      · obtain ⟨before, _, _, hshapes, _⟩ := Shape.begins_sequence_iff.mp hnil
        exact absurd hshapes.symm (List.append_ne_nil_of_right_ne_nil _ (List.cons_ne_nil _ _))
  | trailing hitem hpairs =>
    obtain ⟨part, hpart, hrepetition⟩ := hcovers
    -- Nothing was taken up to the last delimiter, and so nothing by the item.
    have hmiddle := (hstart ▸ hpairs.le).antisymm hitem.le
    have hnull :=
      (hitem.vanishes hmiddle).isNullable halternatives (hpart.repetition hrepetition).1
    exact Or.inr ⟨hnull, hbegins⟩
  | pair | nextPair => exact hbegins

/-- A rule leads to another one: its shape may begin with it. -/
def LeadsTo (language : Language) (i j : TermIndex) : Prop :=
  (∃ term shape, language.Defines i term shape ∧ shape.Begins language.nullable j) ∧
    ∃ term shape, language.Defines j term shape

/-- **From attempts to edges.**  If a rule is attempted before anything is consumed, a task begins
with a rule that leads to it. -/
theorem Attempts.leads (halternatives : language.HasAlternatives) (hcovers : language.Covers task)
    {opened : ℕ} (h : language.Attempts room task start opened goal place) (hplace : place = start)
    (hgoal : goal = .term index) (hdef : ∃ term shape, language.Defines index term shape) :
    ∃ first, task.Begins language.nullable first ∧
      (∃ term shape, language.Defines first term shape) ∧
      Relation.ReflTransGen language.LeadsTo first index := by
  induction h with
  | here =>
    subst hgoal
    exact ⟨index, rfl, hdef, .refl⟩
  | inside htry hattempt ih =>
    -- The goal is at the start, and attempts never go back: the step has consumed nothing.
    have hstart := htry.le.antisymm (hplace ▸ hattempt.le)
    obtain ⟨first, hbegins, hfirst, hleads⟩ :=
      ih (htry.covers hcovers) (hplace.trans hstart) hgoal
    exact ⟨first, htry.begins halternatives hcovers hstart.symm hbegins, hfirst, hleads⟩
  | opens hrule _ _ ih =>
    obtain ⟨first, hbegins, hfirst, hleads⟩ := ih hrule.hasPart hplace hgoal
    exact ⟨_, rfl, ⟨_, _, hrule⟩, .head ⟨⟨_, _, hrule, hbegins⟩, hfirst⟩ hleads⟩

/-- A rule that is entered again at the same place leads to itself. -/
theorem Attempts.leads_self (halternatives : language.HasAlternatives) {opened : ℕ}
    (h : language.Attempts room (.term index) start (opened + 1) (.term index) start) :
    Relation.TransGen language.LeadsTo index index := by
  cases h with
  | inside htry => cases htry
  | opens hrule _ hattempt =>
    have hcovers : language.Covers (.shape _) := hrule.hasPart
    obtain ⟨first, hbegins, hfirst, hleads⟩ :=
      hattempt.leads halternatives hcovers rfl rfl ⟨_, _, hrule⟩
    exact .head' ⟨⟨_, _, hrule, hbegins⟩, hfirst⟩ hleads

/-! ## From edges to cycles -/

/-- The diagnosis does not see that a rule leads to another one. -/
def Overlooks (language : Language) (i j : TermIndex) : Prop :=
  language.LeadsTo i j ∧ j.value ∉ language.leftCorners.getD i.value []

/-- Only the delimiters of repetitions whose items may be nothing are overlooked. -/
theorem Overlooks.behind {i j : TermIndex} (h : language.Overlooks i j) :
    ∃ term shape, language.Defines i term shape ∧ shape.BeginsBehindItem language.nullable j := by
  obtain ⟨⟨⟨term, shape, hdef, hbegins⟩, ⟨term', shape', hdef'⟩⟩, hmissed⟩ := h
  refine ⟨term, shape, hdef, ?_⟩
  have hrule : language.terms[j.value]?.any (!·.isTerminal) = true := by
    have hterm : language.terms[j.value]? = some term' := hdef'.1
    rw [hterm, Option.any_some, Term.isTerminal, hdef'.2]
    rfl
  have hsees : j ∈ shape.leftCorners (fun index => language.terms[index.value]?.any (!·.isTerminal))
      language.nullable ∨ shape.BeginsBehindItem language.nullable j :=
    hbegins.seen_or_behind hrule
  refine hsees.resolve_left fun hseen => hmissed ?_
  have hterm : language.terms[i.value]? = some term := hdef.1
  rw [leftCorners, Diagnosis.leftCornerRules, Array.getD_eq_getD_getElem?, Array.getElem?_map,
    hterm, Option.map_some, Option.getD_some, Term.shape?, hdef.2]
  exact List.mem_map.mpr ⟨j, hseen, rfl⟩

/-- The search for cycles sees all edges of a cycle, unless one of them is overlooked. -/
theorem seen_of_cycle
    (hcycles : ∀ i j, language.Overlooks i j → ¬ Relation.ReflTransGen language.LeadsTo j i)
    {i j : TermIndex} (hleads : Relation.TransGen language.LeadsTo i j)
    (hback : Relation.ReflTransGen language.LeadsTo j i) :
    Relation.TransGen (fun m n => n ∈ language.leftCorners.getD m []) i.value j.value := by
  have hedge : ∀ {a b}, language.LeadsTo a b → Relation.ReflTransGen language.LeadsTo b a →
      b.value ∈ language.leftCorners.getD a.value [] := by
    intro a b hab hba
    by_contra hmissed
    exact hcycles a b ⟨hab, hmissed⟩ hba
  induction hleads with
  | single hij => exact .single (hedge hij hback)
  | tail hij hjk ih =>
    -- The way back from each node on the cycle leads over its end.
    exact .tail (ih (.head hjk hback)) (hedge hjk (hback.trans hij.to_reflTransGen))

/-- **Left recursion is found.**  If all choices have alternatives, no cycle leads along an edge
that the diagnosis overlooks, and nothing critical is found, then no rule is entered again at a
place where it is open. -/
theorem IsUncritical.not_reentered (h : language.IsUncritical)
    (halternatives : language.HasAlternatives)
    (hcycles : ∀ i j, language.Overlooks i j → ¬ Relation.ReflTransGen language.LeadsTo j i)
    (room : ℕ∞) (index : TermIndex) (opened : ℕ) (place : Cursor) :
    ¬ language.Attempts room (.term index) place (opened + 1) (.term index) place := by
  intro hattempt
  have hcycle := seen_of_cycle hcycles (hattempt.leads_self halternatives) .refl
  have hends : Diagnosis.CycleSearch.Ends language.leftCorners index.value :=
    Diagnosis.ends_of_cycles_eq_nil h.cycles_eq_nil index.value
  exact hends.not_cycle hcycle

/-- No edge is overlooked in the language of parentheses. -/
theorem not_overlooks_parentheses (i j : TermIndex) : ¬ parentheses.Overlooks i j := by
  intro h
  obtain ⟨term, shape, hdef, part, hpart, item, delimiter, hrepetition, hnull, _⟩ := h.behind
  obtain ⟨_, rfl⟩ := defines_ofRule hdef
  have hparts : ∀ part ∈ Shape.parts (.sequence [.term firstSymbol,
      .choice [.term ruleIndex, .empty], .repeated (.term firstSymbol) ⟨true, false⟩]),
      (part.repetition?.any fun r => r.1.isNullable parentheses.nullable) = false := by
    decide +kernel
  have hpart := hparts part hpart
  rw [hrepetition, Option.any_some, hnull] at hpart
  cases hpart

/-- Before the first parenthesis is consumed, the rule of open parentheses is not entered again. -/
theorem not_reentered_parentheses :
    ¬ parentheses.Attempts nestingLimit (.term parentheses.root) (Cursor.start deepParens.toList) 1
      (.term parentheses.root) (Cursor.start deepParens.toList) :=
  IsUncritical.not_reentered (by decide +kernel) hasAlternatives_parentheses
    (fun i j h => absurd h (not_overlooks_parentheses i j)) nestingLimit parentheses.root 0 _

/-! ## A cycle that is overlooked -/

/-- The language of a repetition in which the rule itself may come first behind an item that may be
nothing: `A ::= ("+" | ε)`, repeated with `A "-"` in between. -/
def behind : Language :=
  .ofRule (.separated (.choice [.term firstSymbol, .empty])
      (.sequence [.term ruleIndex, .term secondSymbol]) ⟨false, false⟩)
    [(firstSymbol, "+"), (secondSymbol, "-")]

/-- **Left recursion that is overlooked.**  Although nothing critical is found and all choices have
alternatives, the rule is entered again at the beginning of a text. -/
theorem reentered_behind : behind.IsUncritical ∧ behind.HasAlternatives ∧
    behind.Attempts ⊤ (.term behind.root) (Cursor.start "-".toList) 1
      (.term behind.root) (Cursor.start "-".toList) := by
  have hskips : Skips behind.comments (Cursor.start "-".toList) (Cursor.start "-".toList) :=
    skips_self (by decide)
  have hplus : behind.ScansTerm firstSymbol (Cursor.start "-".toList) .failed := by
    refine scansTerm_noSymbol rfl (by decide) (by decide) hskips ?_
    rintro stop ⟨h, _⟩
    cases h
  have hitem : behind.Evaluates (⊤ - 1) (.shape (.choice [.term firstSymbol, .empty]))
      (Cursor.start "-".toList) (.matched [] (Cursor.start "-".toList)) :=
    .choice (.firstNext (.reference (.scan hplus)) (.firstMatch .empty))
  refine ⟨by decide +kernel, hasAlternatives_ofRule (by decide), ?_⟩
  exact .opens ⟨rfl, rfl⟩ ENat.top_ne_zero (.inside .separated (.inside (.pairs hitem)
    (.inside .pair (.inside .allHead (.inside .sequence (.inside .allHead
      (.inside .reference .here)))))))

end Language

end TypedGrammar
