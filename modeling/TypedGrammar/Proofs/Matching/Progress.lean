import TypedGrammar.Matching.Token
import TypedGrammar.Proofs.Matching.Laws

/-!
# Progress of matchers

A matcher is steady if it never goes back and never stalls, and eager if it also takes at least one
character wherever it matches.  The items of trivia are eager, and so are all tokens but the empty
text; hence trivia is always skipped, and the text of a token is the text between its ends.
-/

namespace TypedGrammar

namespace Matcher

variable {α β : Type} {p q : Matcher α}

/-- The matcher ends at its start or behind it, and never stalls. -/
structure Steady (p : Matcher α) : Prop where
  advances : ∀ {start a stop}, p.Takes start a stop → start ≤ stop
  settles : ∀ {start}, ¬ p.Stalls start

/-- The matcher ends behind its start, and never stalls. -/
structure Eager (p : Matcher α) : Prop where
  consumes : ∀ {start a stop}, p.Takes start a stop → start < stop
  settles : ∀ {start}, ¬ p.Stalls start

/-- What ends behind its start does not end before it. -/
theorem Eager.steady (h : p.Eager) : p.Steady where
  advances ht := (h.consumes ht).le
  settles := h.settles

/-! ## Combinators -/

/-- Giving a value moves nothing. -/
theorem steady_pure (value : α) : (pure value : Matcher α).Steady where
  advances ht := (takes_pure.mp ht).2.ge
  settles := stalls_pure

/-- Steady matchers, one after the other, are steady. -/
theorem steady_bind {f : α → Matcher β} (hp : p.Steady) (hf : ∀ a, (f a).Steady) :
    (p >>= f).Steady where
  advances ht := by
    obtain ⟨a, middle, hfirst, hrest⟩ := takes_bind.mp ht
    exact (hp.advances hfirst).trans ((hf a).advances hrest)
  settles hs := by
    rcases stalls_bind.mp hs with h | ⟨a, middle, _, h⟩
    · exact hp.settles h
    · exact (hf a).settles h

/-- A match that moves on and is followed by a steady one moves on. -/
theorem eager_bind {f : α → Matcher β} (hp : p.Eager) (hf : ∀ a, (f a).Steady) :
    (p >>= f).Eager where
  consumes ht := by
    obtain ⟨a, middle, hfirst, hrest⟩ := takes_bind.mp ht
    exact (hp.consumes hfirst).trans_le ((hf a).advances hrest)
  settles := (steady_bind hp.steady hf).settles

/-- A choice between steady matchers is steady. -/
theorem steady_orElse (hp : p.Steady) (hq : q.Steady) : (orElse p q).Steady where
  advances ht := by
    rcases takes_orElse.mp ht with h | ⟨_, h⟩
    · exact hp.advances h
    · exact hq.advances h
  settles hs := by
    rcases stalls_orElse.mp hs with h | ⟨_, h⟩
    · exact hp.settles h
    · exact hq.settles h

/-- A choice between matchers that move on moves on. -/
theorem eager_orElse (hp : p.Eager) (hq : q.Eager) : (orElse p q).Eager where
  consumes ht := by
    rcases takes_orElse.mp ht with h | ⟨_, h⟩
    · exact hp.consumes h
    · exact hq.consumes h
  settles := (steady_orElse hp.steady hq.steady).settles

/-- A choice between any number of steady matchers is steady. -/
theorem steady_foldl_orElse {ps : List (Matcher α)} (hps : ∀ r ∈ ps, r.Steady) (hq : q.Steady) :
    (ps.foldl orElse q).Steady := by
  induction ps generalizing q with
  | nil => exact hq
  | cons r ps ih =>
    rw [List.foldl_cons]
    refine ih (fun s hs => hps s (List.mem_cons_of_mem r hs)) ?_
    exact steady_orElse hq (hps r List.mem_cons_self)

/-- A choice between any number of matchers that move on moves on. -/
theorem eager_foldl_orElse {ps : List (Matcher α)} (hps : ∀ r ∈ ps, r.Eager) (hq : q.Eager) :
    (ps.foldl orElse q).Eager := by
  induction ps generalizing q with
  | nil => exact hq
  | cons r ps ih =>
    rw [List.foldl_cons]
    refine ih (fun s hs => hps s (List.mem_cons_of_mem r hs)) ?_
    exact eager_orElse hq (hps r List.mem_cons_self)

/-- A match that may be missing is steady. -/
theorem steady_optional (hp : p.Steady) : (Matcher.optional p).Steady where
  advances ht := by
    rcases takes_optional.mp ht with ⟨a, _, h⟩ | ⟨_, h, _⟩
    · exact hp.advances h
    · exact h.ge
  settles hs := hp.settles (stalls_optional.mp hs)

/-- What a repetition takes: nothing if it has no items, something if it has one. -/
theorem le_of_takes_many (hp : p.Steady) {start stop : Cursor} {values : List α}
    (ht : Takes (many p) start values stop) :
    start ≤ stop ∧ (values = [] ↔ start = stop) := by
  induction values generalizing start with
  | nil =>
    rcases takes_many.mp ht with ⟨_, _, h⟩ | ⟨_, _, _, _, _, _, h⟩
    · exact ⟨h.ge, by simp [h]⟩
    · cases h
  | cons a rest ih =>
    rcases takes_many.mp ht with ⟨_, h, _⟩ | ⟨b, middle, _, hfirst, hlt, hrest, h⟩
    · cases h
    · injection h with _ hvalues
      subst hvalues
      have hmiddle : start < middle :=
        (Cursor.remaining_lt_iff (hp.advances hfirst)).mp hlt
      have hstop : start < stop := hmiddle.trans_le (ih hrest).1
      exact ⟨hstop.le, by simp [hstop.ne]⟩

/-- A repetition of what moves on ends, and is steady. -/
theorem steady_many (hp : p.Eager) : Steady (many p) where
  advances ht := (le_of_takes_many hp.steady ht).1
  settles {start} hs := by
    induction hn : start.remaining using Nat.strongRecOn generalizing start with
    | ind n ih =>
      rcases stalls_many.mp hs with h | ⟨a, middle, hfirst, hrest⟩
      · exact hp.settles h
      · -- An eager item takes something, so the repetition goes on with less text.
        have hlt : middle.remaining < start.remaining :=
          (Cursor.remaining_lt_iff (hp.consumes hfirst).le).mpr (hp.consumes hfirst)
        exact ih _ (hn ▸ hlt) (hrest hlt) rfl

/-- Taking one character moves on, whatever it is tested for. -/
theorem eager_satisfying (f : Char → Bool) (expected : List (Option Char)) :
    (satisfying f expected).Eager where
  consumes ht := (Cursor.spans_of_next? (takes_satisfying.mp ht).1).lt
  settles := stalls_satisfying

/-- Matching one character that a test admits moves on. -/
theorem eager_charWhere (f : Char → Bool) : (charWhere f).Eager :=
  eager_satisfying f []

/-- Matching one of some characters moves on. -/
theorem eager_oneOf (cs : List Char) : (oneOf cs).Eager :=
  eager_satisfying cs.contains (cs.map some)

/-- Matching a text never goes back, even if the text is empty. -/
theorem steady_exactText (text : String) : (exactText text).Steady where
  advances ht := (takes_exactText.mp ht).le
  settles := stalls_exactText

/-- A row of characters that is not empty is moved over. -/
theorem eager_exactly {cs : List Char} (hcs : cs ≠ []) : (exactly cs).Eager where
  consumes ht := by
    obtain ⟨c, rest, rfl⟩ := List.exists_cons_of_ne_nil hcs
    exact (takes_exactly.mp ht).lt
  settles := stalls_exactly

/-- A text that is not empty is moved over. -/
theorem eager_exactText {text : String} (htext : text ≠ "") : (exactText text).Eager := by
  refine eager_exactly ?_
  rwa [ne_eq, String.toList_eq_nil_iff]

/-- The text of a match does not change where it ends. -/
theorem steady_withText (hp : p.Steady) : (withText p).Steady where
  advances ht := hp.advances (takes_withText.mp ht).1
  settles hs := hp.settles (stalls_withText.mp hs)

/-- A check of the value does not change where the match ends. -/
theorem steady_checked {check : α → Except String β} (hp : p.Steady) :
    (checked p check).Steady where
  advances ht := by
    obtain ⟨a, h, _⟩ := takes_checked.mp ht
    exact hp.advances h
  settles hs := hp.settles (stalls_checked.mp hs)

/-- A match that moves on still does if its text is given. -/
theorem eager_withText (hp : p.Eager) : (withText p).Eager where
  consumes ht := hp.consumes (takes_withText.mp ht).1
  settles := (steady_withText hp.steady).settles

/-- A match that moves on still does if its value is checked. -/
theorem eager_checked {check : α → Except String β} (hp : p.Eager) : (checked p check).Eager where
  consumes ht := by
    obtain ⟨a, h, _⟩ := takes_checked.mp ht
    exact hp.consumes h
  settles := (steady_checked hp.steady).settles

/-- A search goes forward to where something is found. -/
theorem steady_skipPast (hp : p.Steady) : Steady (skipPast p) where
  advances {start a stop} ht := by
    induction hn : start.remaining using Nat.strongRecOn generalizing start with
    | ind n ih =>
      rcases takes_skipPast.mp ht with ⟨b, h⟩ | ⟨_, c, next, hnext, h⟩
      · exact hp.advances h
      · have hle : start ≤ next := (Cursor.spans_of_next? hnext).le
        exact hle.trans (ih _ (hn ▸ Cursor.remaining_of_next? hnext) h rfl)
  settles {start} hs := by
    induction hn : start.remaining using Nat.strongRecOn generalizing start with
    | ind n ih =>
      rcases stalls_skipPast.mp hs with h | ⟨_, c, next, hnext, h⟩
      · exact hp.settles h
      · exact ih _ (hn ▸ Cursor.remaining_of_next? hnext) h rfl

/-! ## Trivia -/

/-- Looking for the first of some texts is steady. -/
theorem steady_firstText {texts : List String} {stop : Matcher Unit}
    (h : firstText? texts = some stop) : stop.Steady := by
  cases texts with
  | nil => cases h
  | cons text texts =>
    simp only [firstText?, List.map_cons, Option.some.injEq] at h
    subst h
    refine steady_foldl_orElse ?_ (steady_exactText text)
    intro r hr
    obtain ⟨s, _, rfl⟩ := List.mem_map.mp hr
    exact steady_exactText s

/-- A comment with a start that is not empty takes something. -/
theorem eager_comment {c : Comment} (hstart : c.start ≠ "") : (comment c).Eager := by
  refine eager_bind (eager_exactText hstart) fun _ => ?_
  split
  · exact steady_bind (steady_many (eager_charWhere _)) fun _ => steady_pure ()
  · split
    · next stop hstop => exact steady_skipPast (steady_firstText hstop)
    · exact steady_bind (steady_many (eager_charWhere _)) fun _ => steady_pure ()

/-- White space and comments take something wherever they are found. -/
theorem eager_triviaItem (comments : List Comment) : (triviaItem comments).Eager := by
  refine eager_foldl_orElse ?_ (eager_bind (eager_charWhere _) fun _ => steady_pure ())
  intro r hr
  obtain ⟨c, hc, rfl⟩ := List.mem_map.mp hr
  have hstart := (List.mem_filter.mp hc).2
  refine eager_comment ?_
  rintro heq
  simp [heq] at hstart

/-- Skipping trivia is steady, whatever the comments are. -/
theorem steady_trivia (comments : List Comment) : (trivia comments).Steady :=
  steady_bind (steady_withText (steady_many (eager_triviaItem comments))) fun _ => steady_pure _

/-- Trivia is a repetition of its items, and the text of their span if there are any. -/
theorem takes_trivia {comments : List Comment} {start stop : Cursor} {skipped : Option String} :
    (trivia comments).Takes start skipped stop ↔
      ∃ items, Takes (many (triviaItem comments)) start items stop ∧
        skipped = if items.isEmpty then none else some (start.spanText stop) := by
  constructor
  · intro h
    obtain ⟨⟨items, text⟩, middle, hfound, hreturn⟩ := takes_bind.mp h
    obtain ⟨rfl, rfl⟩ := takes_pure.mp hreturn
    obtain ⟨hitems, htext⟩ := takes_withText.mp hfound
    exact ⟨items, hitems, by rw [← htext]⟩
  · rintro ⟨items, hitems, rfl⟩
    exact takes_bind.mpr ⟨(items, start.spanText stop), stop, takes_withText.mpr ⟨hitems, rfl⟩,
      takes_pure.mpr ⟨rfl, rfl⟩⟩

/-- Skipping trivia never fails. -/
theorem not_fails_trivia {comments : List Comment} {start : Cursor} :
    ¬ (trivia comments).Fails start := by
  intro h
  rcases fails_bind.mp h with h | ⟨_, _, _, h⟩
  · exact fails_many (fails_withText.mp h)
  · exact fails_pure h

/-- Trivia is skipped everywhere, even if there is none. -/
theorem exists_takes_trivia (comments : List Comment) (start : Cursor) :
    ∃ skipped stop, (trivia comments).Takes start skipped stop := by
  rcases takes_or_fails_or_stalls (trivia comments) start with htakes | hfails | hstalls
  · exact htakes
  · exact absurd hfails not_fails_trivia
  · exact absurd hstalls (steady_trivia comments).settles

/-! ## Tokens -/

/-- A matcher that gives its text takes what the one takes whose text it gives. -/
theorem takes_textOf {start stop : Cursor} {text : String} :
    Takes (do let (_, text) ← withText p
              return text) start text stop ↔
      ∃ a, p.Takes start a stop ∧ text = start.spanText stop := by
  rw [takes_bind]
  constructor
  · rintro ⟨⟨a, found⟩, middle, hfound, hreturn⟩
    obtain ⟨rfl, rfl⟩ := takes_pure.mp hreturn
    exact ⟨a, takes_withText.mp hfound⟩
  · rintro ⟨a, ha, htext⟩
    exact ⟨(a, text), stop, takes_withText.mpr ⟨ha, htext⟩, takes_pure.mpr ⟨rfl, rfl⟩⟩

/-- Giving the text of a match fails exactly where the match does. -/
theorem fails_textOf {start : Cursor} :
    Fails (do let (_, text) ← withText p
              return text) start ↔ p.Fails start := by
  rw [fails_bind, fails_withText]
  constructor
  · rintro (hfails | ⟨_, _, _, hreturn⟩)
    · exact hfails
    · exact absurd hreturn fails_pure
  · exact Or.inl

/-- A word takes at least its first character. -/
theorem eager_word : word.Eager := by
  refine eager_bind (eager_withText ?_) fun _ => steady_pure _
  exact eager_bind (eager_charWhere _) fun _ => steady_many (eager_charWhere _)

/-- A word is the text of its span. -/
theorem takes_word {start stop : Cursor} {text : String} (h : word.Takes start text stop) :
    text = start.spanText stop := by
  obtain ⟨_, _, htext⟩ := takes_textOf.mp h
  exact htext

/-- Digits take at least one. -/
theorem eager_digits : digits.Eager :=
  eager_bind (eager_charWhere _) fun _ =>
    steady_bind (steady_many (eager_charWhere _)) fun _ => steady_pure ()

/-- A number takes at least one digit. -/
theorem eager_number : number.Eager := by
  have hfraction : fraction.Eager :=
    eager_bind (eager_exactly (by simp)) fun _ => eager_digits.steady
  have hexponent : exponent.Eager :=
    eager_bind (eager_oneOf _) fun _ =>
      steady_bind (steady_optional (eager_oneOf _).steady) fun _ => eager_digits.steady
  exact eager_bind eager_digits fun _ =>
    steady_bind (steady_optional hfraction.steady) fun _ =>
      steady_bind (steady_optional hexponent.steady) fun _ => steady_pure ()

/-- A character inside quotes takes at least itself. -/
theorem eager_quotedItem (quote : Char) : (quotedItem quote).Eager := by
  refine eager_orElse ?_ ?_
  · exact eager_bind (eager_charWhere _) fun _ => steady_pure ()
  · exact eager_bind (eager_exactly (by simp)) fun _ =>
      steady_bind (eager_charWhere _).steady fun _ => steady_pure ()

/-- A quoted text takes at least its quotes. -/
theorem eager_quoted (quote : Char) : (quoted quote).Eager := by
  have hquote : (exactly [quote]).Eager := eager_exactly (by simp)
  exact eager_bind hquote fun _ =>
    steady_bind (steady_many (eager_quotedItem quote)) fun _ => hquote.steady

/-- A literal takes something, whatever its form. -/
theorem eager_literal (form : LiteralForm) : (literal form).Eager := by
  refine eager_bind (eager_withText ?_) fun _ => steady_pure _
  cases form with
  | integer => exact eager_digits
  | number => exact eager_number
  | quoted quote => exact eager_quoted quote

/-- A literal is the text of its span. -/
theorem takes_literal {form : LiteralForm} {start stop : Cursor} {text : String}
    (h : (literal form).Takes start text stop) : text = start.spanText stop := by
  obtain ⟨_, _, htext⟩ := takes_textOf.mp h
  exact htext

/-- A longer symbol is a text. -/
theorem ne_empty_of_mem_longerSymbols {symbols : List String} {text s : String}
    (h : s ∈ longerSymbols symbols text) : s ≠ "" := by
  rintro rfl
  simp [longerSymbols] at h

/-- A symbol never goes back, even if it is empty. -/
theorem steady_symbol (symbols : List String) (text : String) : (symbol symbols text).Steady := by
  refine steady_checked (steady_withText ?_)
  unfold firstOr
  induction longerSymbols symbols text with
  | nil => exact steady_bind (steady_exactText text) fun _ => steady_pure true
  | cons s rest ih =>
    refine steady_orElse ?_ ih
    exact steady_bind (steady_exactText s) fun _ => steady_pure false

/-- A symbol with a text takes something. -/
theorem eager_symbol (symbols : List String) {text : String} (htext : text ≠ "") :
    (symbol symbols text).Eager := by
  refine eager_checked (eager_withText ?_)
  unfold firstOr
  -- The induction needs to know of all longer symbols that they are texts.
  have hlonger : ∀ s ∈ longerSymbols symbols text, s ≠ "" :=
    fun s hs => ne_empty_of_mem_longerSymbols hs
  generalize longerSymbols symbols text = longer at hlonger ⊢
  induction longer with
  | nil => exact eager_bind (eager_exactText htext) fun _ => steady_pure true
  | cons s rest ih =>
    refine eager_orElse ?_ (ih fun t ht => hlonger t (List.mem_cons_of_mem s ht))
    exact eager_bind (eager_exactText (hlonger s List.mem_cons_self)) fun _ => steady_pure false

/-- A symbol is the text of its span. -/
theorem takes_symbol {symbols : List String} {text found : String} {start stop : Cursor}
    (h : (symbol symbols text).Takes start found stop) : found = start.spanText stop := by
  obtain ⟨⟨exact, span⟩, hspan, hok⟩ := takes_checked.mp h
  cases exact with
  | false => cases hok
  | true =>
    injection hok with hfound
    rw [← hfound]
    exact (takes_withText.mp hspan).2

/-! ## Terminals -/

section Terminals

variable {lexicon : Lexicon} {kind : TermKind} {token : Matcher String}

/-- A token never goes back, whatever its kind. -/
theorem steady_token (h : tokenText? lexicon kind = some token) : token.Steady := by
  cases kind with
  | key text =>
    injection h with h
    subst h
    split
    · exact steady_checked eager_word.steady
    · exact steady_symbol lexicon.symbols text
  | identifier case =>
    injection h with h
    subst h
    exact steady_checked eager_word.steady
  | literal form =>
    injection h with h
    subst h
    exact (eager_literal form).steady
  | rule shape => cases h

/-- A token takes something, unless it is the empty text. -/
theorem eager_token (h : tokenText? lexicon kind = some token) (hkind : kind ≠ .key "") :
    token.Eager := by
  cases kind with
  | key text =>
    injection h with h
    subst h
    split
    · exact eager_checked eager_word
    · exact eager_symbol lexicon.symbols fun htext => hkind (by rw [htext])
  | identifier case =>
    injection h with h
    subst h
    exact eager_checked eager_word
  | literal form =>
    injection h with h
    subst h
    exact eager_literal form
  | rule shape => cases h

/-- The text of a token is the text of its span. -/
theorem takes_token (h : tokenText? lexicon kind = some token) {start stop : Cursor}
    {text : String} (ht : token.Takes start text stop) : text = start.spanText stop := by
  cases kind with
  | key wanted =>
    injection h with h
    subst h
    split at ht
    · obtain ⟨found, hfound, hok⟩ := takes_checked.mp ht
      split at hok
      · injection hok with hok
        rw [← hok]
        exact takes_word hfound
      · cases hok
    · exact takes_symbol ht
  | identifier case =>
    injection h with h
    subst h
    obtain ⟨found, hfound, hok⟩ := takes_checked.mp ht
    split at hok
    · cases hok
    · split at hok
      · cases hok
      · injection hok with hok
        rw [← hok]
        exact takes_word hfound
  | literal form =>
    injection h with h
    subst h
    exact takes_literal ht
  | rule shape => cases h

end Terminals

end Matcher

end TypedGrammar
