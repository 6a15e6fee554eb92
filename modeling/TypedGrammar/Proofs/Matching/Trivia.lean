import TypedGrammar.Proofs.Matching.KeyTerms

/-!
# White space and comments

What a comment is, is said here without the matchers: its start, what is inside, and, unless it ends
with the line or with the text, the end that occurs first.  Trivia is skipped item by item, each one
a character of white space or a comment, until a place where none of them stands.
-/

namespace TypedGrammar

/-! ## Comments -/

/-- A character that ends a line comment. -/
def IsLineBreak (c : Char) : Prop :=
  c = '\n' ∨ c = '\r'

/-- Of the given ends, `stop` is the one that occurs first behind `inside`: none of them occurs
before, and none that is listed earlier stands at the same place. -/
structure IsFirstEnd (ends : List String) (inside : List Char) (stop : String)
    (rest : List Char) : Prop where
  first_listed : ∃ earlier later, ends = earlier ++ stop :: later ∧
    ∀ e ∈ earlier, ¬ e.toList <+: stop.toList ++ rest
  none_before : ∀ behind, behind <:+ inside → behind ≠ [] →
    ∀ e ∈ ends, ¬ e.toList <+: behind ++ (stop.toList ++ rest)

namespace Comment

/-- The ends of a comment that are texts. -/
def stops (c : Comment) : List String :=
  c.ends.filter (!·.isEmpty)

/-- What stands behind the start of a comment and still belongs to it, in front of `rest`: in a line
comment all characters up to a line break or the end of the text, in another one all characters up
to and including the first of its ends, or all that follow if it has no ends. -/
inductive Continues (c : Comment) : List Char → List Char → Prop
  | line {inside rest} : c.isLine = true → (∀ x ∈ inside, ¬ IsLineBreak x) →
      (∀ x, rest.head? = some x → IsLineBreak x) → Continues c inside rest
  | closed {inside stop rest} : c.isLine = false → IsFirstEnd c.stops inside stop rest →
      Continues c (inside ++ stop.toList) rest
  | endless {inside} : c.isLine = false → c.stops = [] → Continues c inside []

/-- The characters of a comment, in front of `rest`. -/
def Covers (c : Comment) (taken rest : List Char) : Prop :=
  ∃ inside, taken = c.start.toList ++ inside ∧ c.Continues inside rest

/-- A text begins with the comment. -/
def Stands (c : Comment) (text : List Char) : Prop :=
  ∃ taken rest, text = taken ++ rest ∧ c.Covers taken rest

/-- Behind the start of a comment stands a text in which none of its ends occurs. -/
def IsUnclosed (c : Comment) (text : List Char) : Prop :=
  c.isLine = false ∧ c.stops ≠ [] ∧ ∀ e ∈ c.stops, ¬ e.toList <:+: text

section Continues

variable {c : Comment} {taken rest : List Char}

/-- A line comment goes on up to the end of its line. -/
theorem continues_of_isLine (h : c.isLine = true) :
    c.Continues taken rest ↔
      (∀ x ∈ taken, ¬ IsLineBreak x) ∧ ∀ x, rest.head? = some x → IsLineBreak x := by
  constructor
  · rintro (⟨_, hinside, hrest⟩ | ⟨hline, _⟩ | ⟨hline, _⟩)
    · exact ⟨hinside, hrest⟩
    · exact absurd (h.symm.trans hline) (by decide)
    · exact absurd (h.symm.trans hline) (by decide)
  · rintro ⟨hinside, hrest⟩
    exact .line h hinside hrest

/-- A comment with ends goes on up to the first of them, which belongs to it. -/
theorem continues_of_stops (h : c.isLine = false) (hstops : c.stops ≠ []) :
    c.Continues taken rest ↔
      ∃ inside stop, taken = inside ++ stop.toList ∧ IsFirstEnd c.stops inside stop rest := by
  constructor
  · rintro (⟨hline, _, _⟩ | ⟨_, hfirst⟩ | ⟨_, hnone⟩)
    · exact absurd (h.symm.trans hline) (by decide)
    · exact ⟨_, _, rfl, hfirst⟩
    · exact absurd hnone hstops
  · rintro ⟨inside, stop, rfl, hfirst⟩
    exact .closed h hfirst

/-- A comment that nothing ends goes on up to the end of the text. -/
theorem continues_of_no_stops (h : c.isLine = false) (hstops : c.stops = []) :
    c.Continues taken rest ↔ rest = [] := by
  constructor
  · rintro (⟨hline, _, _⟩ | ⟨_, hfirst⟩ | _)
    · exact absurd (h.symm.trans hline) (by decide)
    · obtain ⟨earlier, later, heq, _⟩ := hfirst.first_listed
      rw [hstops] at heq
      cases earlier <;> cases heq
    · rfl
  · rintro rfl
    exact .endless h hstops

end Continues

end Comment

/-! ## Items of trivia -/

/-- The comments whose start is a text; only these are skipped. -/
def skippable (comments : List Comment) : List Comment :=
  comments.filter (!·.start.isEmpty)

/-- Neither white space nor a comment that can be skipped stands at the beginning of a text. -/
structure StartsNoTrivia (comments : List Comment) (text : List Char) : Prop where
  no_white_space : ∀ x, text.head? = some x → Text.whiteSpace.contains x = false
  no_comment : ∀ c ∈ comments, c.start ≠ "" → ¬ c.Stands text

/-- One item of trivia, in front of `rest`: a character of white space, or else the first of the
comments that stand there. -/
inductive IsTriviaItem (comments : List Comment) : List Char → List Char → Prop
  | whiteSpace {x rest} : Text.whiteSpace.contains x = true → IsTriviaItem comments [x] rest
  | comment {earlier c later taken rest} : skippable comments = earlier ++ c :: later →
      StartsNoTrivia earlier (taken ++ rest) → c.Covers taken rest →
      IsTriviaItem comments taken rest

/-- Items of trivia that follow each other, in front of `rest`. -/
inductive AreTriviaItems (comments : List Comment) : List (List Char) → List Char → Prop
  | nil {rest} : AreTriviaItems comments [] rest
  | cons {item items rest} : IsTriviaItem comments item (items.flatten ++ rest) →
      AreTriviaItems comments items rest → AreTriviaItems comments (item :: items) rest

namespace Matcher

variable {α β : Type} {p q : Matcher α} {start stop : Cursor}

/-! ## Searching -/

/-- What is searched for is found at the first place where it stands. -/
theorem takes_skipPast_iff {u : Unit} :
    Takes (skipPast p) start u stop ↔ ∃ middle a, start ≤ middle ∧ p.Takes middle a stop ∧
      ∀ place, start ≤ place → place < middle → p.Fails place := by
  induction hn : start.remaining using Nat.strongRecOn generalizing start with
  | ind n ih =>
    rw [takes_skipPast]
    constructor
    · rintro (⟨a, ha⟩ | ⟨hfails, c, next, hnext, h⟩)
      · exact ⟨start, a, le_rfl, ha, fun place hle hlt => absurd hlt hle.not_gt⟩
      · have hstart := (Cursor.spans_of_next? hnext).le
        obtain ⟨middle, a, hle, ha, hbefore⟩ :=
          (ih _ (hn ▸ Cursor.remaining_of_next? hnext) rfl).mp h
        refine ⟨middle, a, hstart.trans hle, ha, fun place hplace hlt => ?_⟩
        rcases Cursor.eq_or_next_le hplace with rfl | ⟨d, next', hnext', hle'⟩
        · exact hfails
        · rw [hnext] at hnext'
          cases hnext'
          exact hbefore place hle' hlt
    · rintro ⟨middle, a, hle, ha, hbefore⟩
      rcases Cursor.eq_or_next_le hle with rfl | ⟨c, next, hnext, hle'⟩
      · exact Or.inl ⟨a, ha⟩
      · have hlt : start < next := (Cursor.spans_of_next? hnext).lt
        refine Or.inr ⟨hbefore start le_rfl (hlt.trans_le hle'), c, next, hnext, ?_⟩
        exact (ih _ (hn ▸ Cursor.remaining_of_next? hnext) rfl).mpr
          ⟨middle, a, hle', ha, fun place hplace => hbefore place (hlt.le.trans hplace)⟩

/-- A search fails where nothing is found up to the end of the text. -/
theorem fails_skipPast_iff :
    Fails (skipPast p) start ↔ ∀ place, start ≤ place → p.Fails place := by
  induction hn : start.remaining using Nat.strongRecOn generalizing start with
  | ind n ih =>
    rw [fails_skipPast]
    constructor
    · rintro ⟨hfails, hnext⟩ place hle
      rcases Cursor.eq_or_next_le hle with rfl | ⟨c, next, hnext', hle'⟩
      · exact hfails
      · exact (ih _ (hn ▸ Cursor.remaining_of_next? hnext') rfl).mp (hnext c next hnext') place hle'
    · intro h
      refine ⟨h start le_rfl, fun c next hnext => ?_⟩
      exact (ih _ (hn ▸ Cursor.remaining_of_next? hnext) rfl).mpr
        fun place hle => h place ((Cursor.spans_of_next? hnext).le.trans hle)

/-! ## What comments take -/

section Texts

variable {texts : List String} {any : Matcher Unit}

/-- Of several texts, the one is taken that is listed first among those that stand at a place. -/
theorem takes_firstText (h : firstText? texts = some any) {u : Unit} :
    any.Takes start u stop ↔ ∃ earlier text later, texts = earlier ++ text :: later ∧
      (∀ e ∈ earlier, ¬ e.toList <+: start.rest) ∧ start.Spans stop text.toList := by
  cases texts with
  | nil => cases h
  | cons first texts =>
    obtain rfl := Option.some.inj h
    rw [takes_foldl_orElse_iff]
    simp only [takes_exactText, fails_exactText_iff]
    constructor
    · rintro (hfirst | ⟨hfirst, earlier, text, later, rfl, hearlier, htext⟩)
      · exact ⟨[], first, texts, rfl, fun _ h => absurd h List.not_mem_nil, hfirst⟩
      · exact ⟨first :: earlier, text, later, rfl,
          List.forall_mem_cons.mpr ⟨hfirst, hearlier⟩, htext⟩
    · rintro ⟨earlier, text, later, heq, hearlier, htext⟩
      cases earlier with
      | nil =>
        obtain ⟨rfl, rfl⟩ := List.cons.inj heq
        exact Or.inl htext
      | cons e earlier =>
        obtain ⟨rfl, rfl⟩ := List.cons.inj heq
        obtain ⟨hfirst, hearlier⟩ := List.forall_mem_cons.mp hearlier
        exact Or.inr ⟨hfirst, earlier, text, later, rfl, hearlier, htext⟩

/-- None of some texts is found where none of them stands. -/
theorem fails_firstText (h : firstText? texts = some any) :
    any.Fails start ↔ ∀ e ∈ texts, ¬ e.toList <+: start.rest := by
  cases texts with
  | nil => cases h
  | cons first texts =>
    obtain rfl := Option.some.inj h
    rw [fails_foldl_orElse_iff, List.forall_mem_cons]
    simp only [fails_exactText_iff]

/-- There is no first text only if there are no texts. -/
theorem firstText_eq_none_iff : firstText? texts = none ↔ texts = [] := by
  cases texts <;> simp [firstText?]

/-- The search for several texts takes what is up to the first of them, and this one. -/
theorem takes_skipPast_firstText (h : firstText? texts = some any) {u : Unit} :
    Takes (skipPast any) start u stop ↔ ∃ inside text,
      start.Spans stop (inside ++ text.toList) ∧ IsFirstEnd texts inside text stop.rest := by
  rw [takes_skipPast_iff]
  constructor
  · rintro ⟨middle, _, ⟨inside, hinside⟩, hany, hbefore⟩
    obtain ⟨earlier, text, later, htexts, hearlier, htext⟩ := (takes_firstText h).mp hany
    refine ⟨inside, text, hinside.append htext, ⟨earlier, later, htexts, ?_⟩, ?_⟩
    · rwa [← htext.1]
    · rintro behind ⟨skipped, rfl⟩ hne e he
      rw [← htext.1]
      obtain ⟨place, hplace, hbehind⟩ := hinside.split
      obtain ⟨c, cs, rfl⟩ := List.exists_cons_of_ne_nil hne
      rw [← hbehind.1]
      exact (fails_firstText h).mp (hbefore place hplace.le hbehind.lt) e he
  · rintro ⟨inside, text, hspans, ⟨earlier, later, htexts, hearlier⟩, hbefore⟩
    obtain ⟨middle, hinside, htext⟩ := hspans.split
    refine ⟨middle, (), hinside.le,
      (takes_firstText h).mpr ⟨earlier, text, later, htexts, ?_, htext⟩, ?_⟩
    · rwa [htext.1]
    · rintro place ⟨skipped, hskipped⟩ hlt
      obtain ⟨behind, hbehind⟩ := hlt.le
      have hsplit : inside = skipped ++ behind := by
        rw [← hinside.taken_eq, ← (hskipped.append hbehind).taken_eq]
      refine (fails_firstText h).mpr fun e he => ?_
      rw [hbehind.1, htext.1]
      refine hbefore behind ⟨skipped, hsplit.symm⟩ ?_ e he
      rintro rfl
      exact hlt.ne hbehind.eq_of_nil.symm

/-- None of some texts is found behind a place where none of them stands in the rest. -/
theorem fails_skipPast_firstText (h : firstText? texts = some any) :
    Fails (skipPast any) start ↔ ∀ e ∈ texts, ¬ e.toList <:+: start.rest := by
  rw [fails_skipPast_iff]
  constructor
  · rintro hfails e he ⟨before, after, hoccurs⟩
    obtain ⟨place, hplace, hrest⟩ :=
      Cursor.exists_spans (hoccurs.symm.trans (List.append_assoc _ _ _))
    exact (fails_firstText h).mp (hfails place hplace.le) e he ⟨after, hrest.symm⟩
  · rintro hnone place ⟨skipped, hskipped⟩
    refine (fails_firstText h).mpr fun e he hstands => hnone e he ?_
    rw [hskipped.1]
    exact hstands.isInfix.trans (List.suffix_append skipped place.rest).isInfix

end Texts

/-- A row of characters is taken up to the first one that does not belong to it. -/
theorem takes_row_iff {f : Char → Bool} {u : Unit} :
    Takes (do let _ ← many (charWhere f)
              return ()) start u stop ↔
      ∃ inside, start.Spans stop inside ∧ (∀ x ∈ inside, f x = true) ∧
        ∀ x, stop.rest.head? = some x → f x = false := by
  constructor
  · intro h
    obtain ⟨values, middle, hvalues, hreturn⟩ := takes_bind.mp h
    obtain ⟨_, rfl⟩ := takes_pure.mp hreturn
    have hspans := spans_of_takes_many_charWhere hvalues
    refine ⟨_, hspans, fun x hx => List.mem_takeWhile_imp hx, fun x hx => ?_⟩
    have hrest : stop.rest = start.rest.dropWhile f :=
      List.append_cancel_left (hspans.1.symm.trans List.takeWhile_append_dropWhile.symm)
    have hhead := List.head?_dropWhile_not f start.rest
    rw [← hrest, hx] at hhead
    exact hhead
  · rintro ⟨inside, hspans, hinside, hstop⟩
    have hend : stop.rest.head?.any f = false := by
      cases hhead : stop.rest.head? with
      | none => rfl
      | some x => exact hstop x hhead
    obtain ⟨values, hvalues⟩ := exists_takes_many_charWhere hspans hinside hend
    exact takes_bind.mpr ⟨values, stop, hvalues, takes_pure.mpr ⟨rfl, rfl⟩⟩

/-- A row of characters may be empty, so it does not fail. -/
theorem fails_row {f : Char → Bool} :
    ¬ Fails (do let _ ← many (charWhere f)
                return ()) start := by
  intro h
  rcases fails_bind.mp h with h | ⟨_, _, _, h⟩
  · exact fails_many h
  · exact fails_pure h

/-- The characters that stay on their line are those that are no line breaks. -/
theorem staysOnLine_eq_true_iff {x : Char} : staysOnLine x = true ↔ ¬ IsLineBreak x := by
  simp [staysOnLine, IsLineBreak]

/-- The characters that do not stay on their line are the line breaks. -/
theorem staysOnLine_eq_false_iff {x : Char} : staysOnLine x = false ↔ IsLineBreak x := by
  rw [← Bool.not_eq_true, staysOnLine_eq_true_iff, not_not]

section Comments

variable {c : Comment}

/-- A line comment is its start and the rest of its line. -/
theorem comment_of_isLine (h : c.isLine = true) :
    comment c = exactText c.start >>= fun _ =>
      do let _ ← many (charWhere staysOnLine)
         return () := by
  simp only [comment, h, if_true]

/-- A comment with ends is its start and whatever there is up to an end. -/
theorem comment_of_stops (h : c.isLine = false) {any : Matcher Unit}
    (hany : firstText? c.stops = some any) :
    comment c = exactText c.start >>= fun _ => skipPast any := by
  rw [Comment.stops] at hany
  simp [comment, h, hany]

/-- A comment that nothing ends is its start and the rest of the text. -/
theorem comment_of_no_stops (h : c.isLine = false) (hstops : c.stops = []) :
    comment c = exactText c.start >>= fun _ =>
      do let _ ← many (charWhere fun _ => true)
         return () := by
  rw [Comment.stops] at hstops
  simp [comment, h, hstops, firstText?]

/-- A comment takes its start and what continues it, if the matcher behind the start does. -/
theorem takes_comment_of {body : Matcher Unit}
    (hcomment : comment c = exactText c.start >>= fun _ => body)
    (hbody : ∀ start u stop, body.Takes start u stop ↔
      ∃ inside, start.Spans stop inside ∧ c.Continues inside stop.rest) {u : Unit} :
    (comment c).Takes start u stop ↔
      ∃ taken, start.Spans stop taken ∧ c.Covers taken stop.rest := by
  rw [hcomment, takes_bind]
  constructor
  · rintro ⟨_, middle, hstart, h⟩
    obtain ⟨inside, hinside, hcontinues⟩ := (hbody _ _ _).mp h
    exact ⟨_, (takes_exactText.mp hstart).append hinside, inside, rfl, hcontinues⟩
  · rintro ⟨_, hspans, inside, rfl, hcontinues⟩
    obtain ⟨middle, hstart, hinside⟩ := hspans.split
    exact ⟨(), middle, takes_exactText.mpr hstart, (hbody _ _ _).mpr ⟨inside, hinside, hcontinues⟩⟩

/-- **Comments.**  A comment takes its start and what continues it. -/
theorem takes_comment_iff {u : Unit} :
    (comment c).Takes start u stop ↔
      ∃ taken, start.Spans stop taken ∧ c.Covers taken stop.rest := by
  cases hline : c.isLine with
  | true =>
    refine takes_comment_of (comment_of_isLine hline) fun start u stop => takes_row_iff.trans ?_
    simp only [c.continues_of_isLine hline, staysOnLine_eq_true_iff, staysOnLine_eq_false_iff]
  | false =>
    cases hany : firstText? c.stops with
    | some any =>
      have hstops : c.stops ≠ [] := by
        intro hnone
        rw [firstText_eq_none_iff.mpr hnone] at hany
        cases hany
      refine takes_comment_of (comment_of_stops hline hany) fun start u stop =>
        (takes_skipPast_firstText hany).trans ?_
      simp only [c.continues_of_stops hline hstops]
      constructor
      · rintro ⟨inside, text, hspans, hfirst⟩
        exact ⟨_, hspans, inside, text, rfl, hfirst⟩
      · rintro ⟨_, hspans, inside, text, rfl, hfirst⟩
        exact ⟨inside, text, hspans, hfirst⟩
    | none =>
      have hstops : c.stops = [] := firstText_eq_none_iff.mp hany
      refine takes_comment_of (comment_of_no_stops hline hstops) fun start u stop =>
        takes_row_iff.trans ?_
      simp only [c.continues_of_no_stops hline hstops]
      -- Any character would be taken, so none remains.
      simp [← List.head?_eq_none_iff, Option.eq_none_iff_forall_ne_some]

/-- A comment fails where its start does not stand or something unclosed stands behind it, if the
matcher behind the start does. -/
theorem fails_comment_of {body : Matcher Unit}
    (hcomment : comment c = exactText c.start >>= fun _ => body)
    (hbody : ∀ start, body.Fails start ↔ c.IsUnclosed start.rest) :
    (comment c).Fails start ↔
      ∀ after, start.rest = c.start.toList ++ after → c.IsUnclosed after := by
  rw [hcomment, fails_bind, fails_exactText_iff]
  constructor
  · rintro (hstart | ⟨_, middle, hstart, hfails⟩) after hafter
    · exact absurd ⟨after, hafter.symm⟩ hstart
    · rw [← List.append_cancel_left ((takes_exactText.mp hstart).1.symm.trans hafter)]
      exact (hbody middle).mp hfails
  · intro h
    by_cases hstart : c.start.toList <+: start.rest
    · obtain ⟨after, hafter⟩ := hstart
      obtain ⟨middle, hmiddle, hrest⟩ := Cursor.exists_spans hafter.symm
      refine Or.inr ⟨(), middle, takes_exactText.mpr hmiddle, (hbody middle).mpr ?_⟩
      rw [hrest]
      exact h after hafter.symm
    · exact Or.inl hstart

/-- A comment fails where its start does not stand, and where it is not closed. -/
theorem fails_comment_iff :
    (comment c).Fails start ↔
      ∀ after, start.rest = c.start.toList ++ after → c.IsUnclosed after := by
  cases hline : c.isLine with
  | true =>
    refine fails_comment_of (comment_of_isLine hline) fun start => iff_of_false fails_row ?_
    rintro ⟨hfalse, _⟩
    exact absurd (hline.symm.trans hfalse) (by decide)
  | false =>
    cases hany : firstText? c.stops with
    | some any =>
      refine fails_comment_of (comment_of_stops hline hany) fun start =>
        (fails_skipPast_firstText hany).trans ⟨fun hnone => ⟨hline, ?_, hnone⟩, fun h => h.2.2⟩
      intro hnil
      rw [firstText_eq_none_iff.mpr hnil] at hany
      cases hany
    | none =>
      have hstops : c.stops = [] := firstText_eq_none_iff.mp hany
      refine fails_comment_of (comment_of_no_stops hline hstops) fun start =>
        iff_of_false fails_row fun h => h.2.1 hstops

/-- A comment fails exactly where it does not stand, if its start is not empty. -/
theorem fails_comment_iff_not_stands (hstart : c.start ≠ "") :
    (comment c).Fails start ↔ ¬ c.Stands start.rest := by
  constructor
  · rintro hfails ⟨taken, rest, htaken, hcovers⟩
    obtain ⟨stop, hspans, rfl⟩ := Cursor.exists_spans htaken
    exact (takes_comment_iff.mpr ⟨taken, hspans, hcovers⟩ : Takes _ _ () stop).not_fails hfails
  · intro hstands
    rcases takes_or_fails_or_stalls (comment c) start with ⟨u, stop, htakes⟩ | hfails | hstalls
    · obtain ⟨taken, hspans, hcovers⟩ := takes_comment_iff.mp htakes
      exact absurd ⟨taken, stop.rest, hspans.1, hcovers⟩ hstands
    · exact hfails
    · exact absurd hstalls (eager_comment hstart).settles

end Comments

/-! ## What is skipped -/

section Items

variable {comments : List Comment}

/-- The comments that are skipped are those with a start. -/
theorem mem_skippable {c : Comment} : c ∈ skippable comments ↔ c ∈ comments ∧ c.start ≠ "" := by
  simp [skippable]

/-- The white space that an item may be. -/
theorem takes_whiteSpace_iff {u : Unit} :
    Takes (do let _ ← charWhere Text.whiteSpace.contains
              return ()) start u stop ↔
      ∃ x, Text.whiteSpace.contains x = true ∧ start.Spans stop [x] := by
  simp only [takes_bind, takes_pure, charWhere, takes_satisfying, true_and]
  constructor
  · rintro ⟨x, middle, ⟨hnext, hx⟩, rfl⟩
    exact ⟨x, hx, Cursor.spans_of_next? hnext⟩
  · rintro ⟨x, hx, hspans⟩
    obtain ⟨next, hnext, hnil⟩ := hspans.exists_next
    exact ⟨x, next, ⟨hnext, hx⟩, hnil.eq_of_nil⟩

/-- There is no white space exactly where no such character comes next. -/
theorem fails_whiteSpace_iff :
    Fails (do let _ ← charWhere Text.whiteSpace.contains
              return ()) start ↔
      ∀ x, start.rest.head? = some x → Text.whiteSpace.contains x = false := by
  rw [fails_bind, charWhere, fails_satisfying, Option.any_eq_false]
  constructor
  · rintro (hwhite | ⟨_, _, _, hreturn⟩)
    · exact hwhite
    · exact absurd hreturn fails_pure
  · exact Or.inl

/-- Neither white space nor one of some comments is matched where none of them stands. -/
theorem startsNoTrivia_iff {cs : List Comment} (hcs : ∀ c ∈ cs, c.start ≠ "") :
    StartsNoTrivia cs start.rest ↔
      Fails (do let _ ← charWhere Text.whiteSpace.contains
                return ()) start ∧ ∀ c ∈ cs, (comment c).Fails start := by
  rw [fails_whiteSpace_iff]
  constructor
  · rintro ⟨hwhite, hcomments⟩
    exact ⟨hwhite, fun c hc =>
      (fails_comment_iff_not_stands (hcs c hc)).mpr (hcomments c hc (hcs c hc))⟩
  · rintro ⟨hwhite, hcomments⟩
    exact ⟨hwhite, fun c hc hstart =>
      (fails_comment_iff_not_stands hstart).mp (hcomments c hc)⟩

/-- An item fails exactly where no item stands. -/
theorem fails_triviaItem_iff :
    (triviaItem comments).Fails start ↔ StartsNoTrivia comments start.rest := by
  have hskippable : StartsNoTrivia (skippable comments) start.rest ↔
      StartsNoTrivia comments start.rest :=
    ⟨fun h => ⟨h.1, fun c hc hstart => h.2 c (mem_skippable.mpr ⟨hc, hstart⟩) hstart⟩,
      fun h => ⟨h.1, fun c hc => h.2 c (mem_skippable.mp hc).1⟩⟩
  rw [← hskippable, startsNoTrivia_iff fun c hc => (mem_skippable.mp hc).2]
  exact fails_foldl_orElse_iff

/-- What is taken as an item is one. -/
theorem takes_triviaItem_iff {u : Unit} :
    (triviaItem comments).Takes start u stop ↔
      ∃ taken, start.Spans stop taken ∧ IsTriviaItem comments taken stop.rest := by
  refine takes_foldl_orElse_iff.trans ⟨?_, ?_⟩
  · rintro (hwhite | ⟨hwhite, earlier, c, later, hsplit, hearlier, hc⟩)
    · obtain ⟨x, hx, hspans⟩ := takes_whiteSpace_iff.mp hwhite
      exact ⟨[x], hspans, .whiteSpace hx⟩
    · obtain ⟨taken, hspans, hcovers⟩ := takes_comment_iff.mp hc
      refine ⟨taken, hspans, .comment hsplit ?_ hcovers⟩
      rw [← hspans.1]
      refine (startsNoTrivia_iff fun d hd => ?_).mpr ⟨hwhite, hearlier⟩
      exact (mem_skippable.mp (hsplit ▸ List.mem_append_left _ hd)).2
  · rintro ⟨taken, hspans, hitem⟩
    generalize hrest : stop.rest = rest at hitem
    cases hitem with
    | whiteSpace hx => exact Or.inl (takes_whiteSpace_iff.mpr ⟨_, hx, hspans⟩)
    | @comment earlier c later _ _ hsplit hnone hcovers =>
      subst hrest
      rw [← hspans.1] at hnone
      have hfails := (startsNoTrivia_iff fun d hd =>
        (mem_skippable.mp (hsplit ▸ List.mem_append_left _ hd)).2).mp hnone
      exact Or.inr ⟨hfails.1, earlier, c, later, hsplit, hfails.2,
        takes_comment_iff.mpr ⟨taken, hspans, hcovers⟩⟩

/-- Items are taken one after the other, up to a place where none stands. -/
theorem takes_many_triviaItem_iff {values : List Unit} :
    Takes (many (triviaItem comments)) start values stop ↔
      ∃ items, values.length = items.length ∧ start.Spans stop items.flatten ∧
        AreTriviaItems comments items stop.rest ∧ StartsNoTrivia comments stop.rest := by
  constructor
  · intro h
    -- Each item is taken where the ones before it end, and sees the rest of the text.
    induction values generalizing start with
    | nil =>
      rcases takes_many.mp h with ⟨hfails, _, rfl⟩ | ⟨_, _, _, _, _, _, heq⟩
      · exact ⟨[], rfl, Cursor.spans_nil _, .nil, fails_triviaItem_iff.mp hfails⟩
      · cases heq
    | cons u values ih =>
      rcases takes_many.mp h with ⟨_, heq, _⟩ | ⟨u', middle, _, hfirst, _, hmore, heq⟩
      · cases heq
      · obtain ⟨rfl, rfl⟩ := List.cons.inj heq
        obtain ⟨item, hspans, hitem⟩ := takes_triviaItem_iff.mp hfirst
        obtain ⟨items, hlength, hmore', hitems, hstop⟩ := ih hmore
        rw [hmore'.1] at hitem
        exact ⟨item :: items, congrArg (· + 1) hlength, hspans.append hmore',
          .cons hitem hitems, hstop⟩
  · rintro ⟨items, hlength, hspans, hitems, hstop⟩
    induction items generalizing start values with
    | nil =>
      obtain rfl := List.length_eq_zero_iff.mp hlength
      obtain rfl := hspans.eq_of_nil
      exact takes_many.mpr (Or.inl ⟨fails_triviaItem_iff.mpr hstop, rfl, rfl⟩)
    | cons item items ih =>
      cases hitems with
      | cons hitem hitems =>
        obtain ⟨u, values, rfl⟩ := List.exists_cons_of_length_eq_add_one hlength
        obtain ⟨middle, hfirst, hmore⟩ := hspans.split
        rw [← hmore.1] at hitem
        have htakes : (triviaItem comments).Takes start u middle :=
          takes_triviaItem_iff.mpr ⟨item, hfirst, hitem⟩
        -- An item takes something, so that the repetition goes on behind it.
        have hlt := (eager_triviaItem comments).consumes htakes
        exact takes_many.mpr (Or.inr ⟨u, middle, values, htakes,
          (Cursor.remaining_lt_iff hlt.le).mpr hlt, ih (Nat.succ.inj hlength) hmore hitems, rfl⟩)

/-- The text of some items, if there are any. -/
def triviaText (items : List (List Char)) : Option String :=
  if items.isEmpty then none else some (String.ofList items.flatten)

/-- The text that is reported is the one of the items. -/
theorem triviaText_of_takes {values : List Unit} {items : List (List Char)}
    (ht : Takes (many (triviaItem comments)) start values stop)
    (hlength : values.length = items.length) (hspans : start.Spans stop items.flatten) :
    (if values.isEmpty then none else some (start.spanText stop)) = triviaText items := by
  obtain ⟨hle, hnil⟩ := le_of_takes_many (eager_triviaItem comments).steady ht
  cases values with
  | nil =>
    obtain rfl := List.length_eq_zero_iff.mp hlength.symm
    rfl
  | cons u values =>
    obtain ⟨item, items, rfl⟩ := List.exists_cons_of_length_eq_add_one hlength.symm
    have hlt : start < stop := lt_of_le_of_ne hle fun h => by cases hnil.mpr h
    rw [Cursor.spanText_eq_between hlt, hspans.between_eq]
    rfl

/-- **Trivia.**  What is skipped are items that follow each other, up to a place where none
stands. -/
theorem takes_trivia_iff {skipped : Option String} :
    (trivia comments).Takes start skipped stop ↔
      ∃ items, start.Spans stop items.flatten ∧ AreTriviaItems comments items stop.rest ∧
        StartsNoTrivia comments stop.rest ∧ skipped = triviaText items := by
  constructor
  · intro h
    obtain ⟨values, hvalues, rfl⟩ := takes_trivia.mp h
    obtain ⟨items, hlength, hspans, hitems, hstop⟩ := takes_many_triviaItem_iff.mp hvalues
    exact ⟨items, hspans, hitems, hstop, triviaText_of_takes hvalues hlength hspans⟩
  · rintro ⟨items, hspans, hitems, hstop, rfl⟩
    have hlength : (List.replicate items.length ()).length = items.length := List.length_replicate
    have hvalues := takes_many_triviaItem_iff.mpr ⟨items, hlength, hspans, hitems, hstop⟩
    exact takes_trivia.mpr ⟨_, hvalues, (triviaText_of_takes hvalues hlength hspans).symm⟩

end Items

/-- **Trivia is skipped completely and exactly.**  Trivia is skipped at every place.  What is
skipped are characters of white space and comments that follow each other, and where this stops,
neither of them stands, so nothing more is skipped there.  A comment is skipped up to a line break,
the first of its ends or the end of the text; where it is not closed, it is not skipped at all. -/
theorem trivia_exact (comments : List Comment) :
    (∀ start, ∃ skipped stop, (trivia comments).Takes start skipped stop) ∧
    (∀ start skipped stop, (trivia comments).Takes start skipped stop ↔
      ∃ items, start.Spans stop items.flatten ∧ AreTriviaItems comments items stop.rest ∧
        StartsNoTrivia comments stop.rest ∧ skipped = triviaText items) ∧
    (∀ start skipped stop, (trivia comments).Takes start skipped stop →
      (trivia comments).Takes stop none stop) ∧
    (∀ c start stop, (comment c).Takes start () stop ↔
      ∃ taken, start.Spans stop taken ∧ c.Covers taken stop.rest) ∧
    ∀ c start, (comment c).Fails start ↔
      ∀ after, start.rest = c.start.toList ++ after → c.IsUnclosed after := by
  refine ⟨exists_takes_trivia comments, fun _ _ _ => takes_trivia_iff,
    fun start skipped stop htakes => ?_, fun _ _ _ => takes_comment_iff,
    fun _ _ => fails_comment_iff⟩
  obtain ⟨_, _, _, hstop, _⟩ := takes_trivia_iff.mp htakes
  exact takes_trivia_iff.mpr ⟨[], Cursor.spans_nil stop, .nil, hstop, rfl⟩

/-- A comment between two symbols. -/
def starComment : Comment :=
  .block "Comment" "/*" "*/"

/-- The comment has one end. -/
theorem stops_starComment : starComment.stops = ["*/"] := by
  decide

/-- The comment is closed by the first end behind its start. -/
theorem covers_starComment : starComment.Covers ['/', '*', 'a', '*', '/'] ['x'] := by
  refine ⟨['a'] ++ "*/".toList, rfl, .closed (by decide) ⟨⟨[], [], by decide, ?_⟩, ?_⟩⟩
  · exact fun _ h => absurd h List.not_mem_nil
  · intro behind hbehind hne e he
    rw [stops_starComment, List.mem_singleton] at he
    have hbehind' : behind = ['a'] := by
      rcases List.suffix_cons_iff.mp hbehind with h | h
      · exact h
      · exact absurd (List.suffix_nil.mp h) hne
    subst he hbehind'
    decide

/-- A letter behind the comment is no trivia. -/
theorem startsNoTrivia_starComment : StartsNoTrivia [starComment] ['x'] := by
  refine ⟨?_, fun c hc _ => ?_⟩
  · rintro _ ⟨⟩
    decide
  · rintro ⟨_, rest, htaken, inside, rfl, _⟩
    obtain rfl := List.mem_singleton.mp hc
    cases htaken

/-- A comment is skipped up to its end, and no further; without its end it is not skipped. -/
theorem trivia_exact_starComment :
    (∃ stop, (trivia [starComment]).Takes (.start "/*a*/x".toList) (some "/*a*/") stop ∧
      stop.rest = ['x'] ∧ (trivia [starComment]).Takes stop none stop) ∧
    (comment starComment).Fails (.start "/*a".toList) := by
  obtain ⟨_, htakes, hagain, _, hfails⟩ := trivia_exact [starComment]
  have hrest : (Cursor.start "/*a*/x".toList).rest = ['/', '*', 'a', '*', '/'] ++ ['x'] := rfl
  obtain ⟨stop, hspans, hstop⟩ := Cursor.exists_spans hrest
  have hitem : IsTriviaItem [starComment] ['/', '*', 'a', '*', '/'] ['x'] := by
    refine @IsTriviaItem.comment _ [] starComment [] _ _ (by decide) ⟨?_, ?_⟩ covers_starComment
    · rintro _ ⟨⟩
      decide
    · exact fun _ h => absurd h List.not_mem_nil
  have hskips : (trivia [starComment]).Takes (.start "/*a*/x".toList) (some "/*a*/") stop := by
    refine (htakes _ _ _).mpr ⟨[['/', '*', 'a', '*', '/']], hspans, .cons ?_ .nil, ?_, rfl⟩
    · rw [hstop]
      exact hitem
    · rw [hstop]
      exact startsNoTrivia_starComment
  refine ⟨⟨stop, hskips, hstop, hagain _ _ _ hskips⟩, (hfails _ _).mpr fun after hafter => ?_⟩
  have hafter' : after = ['a'] :=
    List.append_cancel_left (hafter.symm : ['/', '*'] ++ after = ['/', '*'] ++ ['a'])
  subst hafter'
  refine ⟨by decide, by decide, fun e he => ?_⟩
  rw [stops_starComment, List.mem_singleton] at he
  subst he
  decide

end Matcher

end TypedGrammar
