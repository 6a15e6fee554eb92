import TypedGrammar.Proofs.Diagnosis.Nullable
import TypedGrammar.Proofs.OrderedChoice.Completeness
import TypedGrammar.Proofs.OrderedChoice.Termination

/-!
# Shapes that always match

A shape that the diagnosis calls nullable never fails, and so it matches wherever it does not get
stuck in a repetition.  Conversely, what matches the empty text is called nullable, and what is not
called nullable consumes input with every match.
-/

namespace TypedGrammar

theorem Cursor.eq_of_rest_nil {start stop : Cursor} (hle : start ≤ stop) (hrest : start.rest = []) :
    stop = start := by
  obtain ⟨taken, htaken⟩ := hle
  obtain rfl : taken = [] := by
    have happend := htaken.1
    rw [hrest] at happend
    exact (List.append_eq_nil_iff.mp happend.symm).1
  exact htaken.eq_of_nil

namespace Language

variable {language : Language} {room : ℕ∞} {task : Task} {start stop : Cursor} {verdict : Verdict}
  {shape : Shape}

/-! ## What never fails -/

/-- A task is called nullable. -/
def CallsNullable (language : Language) : Task → Prop
  | .term index => language.nullable.has index = true
  | .shape shape => shape.isNullable language.nullable = true
  | .all shapes => ∀ shape ∈ shapes, shape.isNullable language.nullable = true
  | .first shape others =>
    ∃ alternative ∈ shape :: others, alternative.isNullable language.nullable = true
  | .items item _ _ => item.isNullable language.nullable = true
  | .pairs _ _ => True

/-- A term that is scanned is not called nullable, as key terms have texts. -/
theorem ScansTerm.not_nullable {index : TermIndex} (h : language.ScansTerm index start verdict)
    (hkeys : language.HasKeyTexts) : language.nullable.has index ≠ true := by
  rw [has_nullable_eq]
  cases hterm : language.term? index with
  | none => simp
  | some term =>
    rw [Option.map_some, Option.getD_some, Term.isNullable]
    split
    · next text hkind =>
      have hne := hkeys.kind_ne hterm
      rw [hkind] at hne
      simpa using hne
    · next shape hkind => exact absurd ⟨hterm, hkind⟩ h.not_defines
    · exact Bool.false_ne_true

theorem matched_ne_failed (trees : List Tree) (stop : Cursor) :
    Verdict.matched trees stop ≠ .failed := by
  intro h
  cases h

/-- **Nullable tasks never fail.** -/
theorem Evaluates.ne_failed (hkeys : language.HasKeyTexts)
    (h : language.Evaluates room task start verdict) (hroom : room = ⊤)
    (hnull : language.CallsNullable task) : verdict ≠ .failed := by
  -- The verdict of a rule or a row is that of what is inside, with other trees.
  have hmap : ∀ {f : List Tree → List Tree} {verdict : Verdict},
      verdict ≠ .failed → verdict.map f ≠ .failed := by
    intro f verdict hverdict
    cases verdict with
    | matched => exact matched_ne_failed _ _
    | failed => exact absurd rfl hverdict
  -- A repetition may be empty, or else its item is nullable, so that it does not fail.
  have hrepetition : ∀ {item : Shape} {bounds : Bounds} {start : Cursor} {verdict : Verdict},
      (bounds.allowEmpty || item.isNullable language.nullable) = true →
      (item.isNullable language.nullable = true → verdict ≠ .failed) →
      verdict.orNothing bounds.allowEmpty start ≠ .failed := by
    intro item bounds start verdict hbounds hverdict
    cases verdict with
    | matched => exact matched_ne_failed _ _
    | failed =>
      rcases Bool.or_eq_true_iff.mp hbounds with hallowed | hitem
      · rw [Verdict.orNothing, if_pos hallowed]
        exact matched_ne_failed _ _
      · exact absurd rfl (hverdict hitem)
  induction h with
  | scan hscan => exact absurd hnull (hscan.not_nullable hkeys)
  | @rule room index term shape _ _ hdef _ _ ih =>
    refine hmap (ih (by rw [hroom, ENat.top_sub_one]) ?_)
    have hterm : language.nullable.has index = true := hnull
    rwa [has_nullable hdef.1, Term.isNullable, hdef.2] at hterm
  | refused _ hzero =>
    rw [hroom] at hzero
    exact absurd hzero ENat.top_ne_zero
  | empty | hint | noAlternative | allNil | firstMatch | items | itemsTrailing | itemsNoTrailing
    | pairsEnd | pairsNext => exact matched_ne_failed _ _
  | reference _ ih => exact ih hroom hnull
  | sequence _ ih => exact ih hroom (Shape.allNullable_iff.mp hnull)
  | choice _ ih => exact ih hroom (Shape.anyNullable_iff.mp hnull)
  | repeated _ ih => exact hrepetition hnull (ih hroom)
  | separated _ ih => exact hrepetition hnull (ih hroom)
  | allFail _ ih => exact ih hroom (hnull _ List.mem_cons_self)
  | allCons _ _ _ ihRest =>
    exact hmap (ihRest hroom fun s hs => hnull s (List.mem_cons_of_mem _ hs))
  | firstFail _ ih =>
    obtain ⟨alternative, hmem, halternative⟩ := hnull
    obtain rfl := List.mem_singleton.mp hmem
    exact ih hroom halternative
  | firstNext _ _ ih ihNext =>
    obtain ⟨alternative, hmem, halternative⟩ := hnull
    -- The nullable alternative is tried at the latest when the others have failed.
    rcases List.mem_cons.mp hmem with rfl | hmem
    · exact absurd rfl (ih hroom halternative)
    · exact ihNext hroom ⟨alternative, hmem, halternative⟩
  | itemsFail _ ih => exact ih hroom hnull

/-! ## What always matches -/

/-- A shape matches at a place. -/
def MatchesAt (language : Language) (shape : Shape) (start : Cursor) : Prop :=
  ∃ trees stop, language.Evaluates ⊤ (.shape shape) start (.matched trees stop)

/-- A shape never gets stuck in a repetition. -/
def NeverStuck (language : Language) (shape : Shape) : Prop :=
  ∀ start, ¬ language.Stuck ⊤ (.shape shape) start

/-- A nullable shape matches wherever it does not get stuck. -/
theorem matchesAt_of_isNullable (hkeys : language.HasKeyTexts) (hfree : language.NeverReenters)
    (hnull : shape.isNullable language.nullable = true)
    (hstuck : ¬ language.Stuck ⊤ (.shape shape) start) : language.MatchesAt shape start := by
  obtain ⟨verdict, h⟩ := hfree.hasVerdict hstuck
  cases verdict with
  | matched trees stop => exact ⟨trees, stop, h⟩
  | failed => exact absurd rfl (h.ne_failed hkeys rfl hnull)

/-- What matches without consuming input is called nullable. -/
theorem isNullable_of_matched (halternatives : language.HasAlternatives)
    (hshape : .choice [] ∉ shape.parts) {trees : List Tree}
    (h : language.Evaluates room (.shape shape) start (.matched trees start)) :
    shape.isNullable language.nullable = true :=
  (h.vanishes rfl).isNullable_of_parts halternatives hshape

/-- What matches the empty text is called nullable. -/
theorem isNullable_of_matchesAt_nil (halternatives : language.HasAlternatives)
    (hshape : .choice [] ∉ shape.parts) (h : language.MatchesAt shape (Cursor.start [])) :
    shape.isNullable language.nullable = true := by
  obtain ⟨trees, stop, h⟩ := h
  obtain rfl := Cursor.eq_of_rest_nil h.le rfl
  exact isNullable_of_matched halternatives hshape h

end Language

end TypedGrammar
