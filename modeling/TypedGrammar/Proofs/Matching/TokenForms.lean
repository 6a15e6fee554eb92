import TypedGrammar.Proofs.Matching.Progress

/-!
# Forms of tokens

What the texts of tokens look like: a key term is its own text, an identifier is a word, and each
form of literals has its grammar of characters.  The forms are said without the matchers, and each
matcher takes only texts of its form.
-/

namespace TypedGrammar

/-! ## The forms -/

namespace LiteralForm

/-- One or more decimal digits. -/
def AreDigits (cs : List Char) : Prop :=
  cs ≠ [] ∧ ∀ c ∈ cs, c.isDigit = true

/-- Nothing, or a point and digits. -/
inductive IsFraction : List Char → Prop
  | missing : IsFraction []
  | digits {ds} : AreDigits ds → IsFraction ('.' :: ds)

/-- Nothing, or an exponent mark and digits, between which a sign may stand. -/
inductive IsExponent : List Char → Prop
  | missing : IsExponent []
  | unsigned {mark ds} : mark ∈ ['e', 'E'] → AreDigits ds → IsExponent (mark :: ds)
  | signed {mark sign ds} :
      mark ∈ ['e', 'E'] → sign ∈ ['+', '-'] → AreDigits ds → IsExponent (mark :: sign :: ds)

/-- One character that ends nothing, or a backslash and any character. -/
inductive IsQuotedItem (quote : Char) : List Char → Prop
  | plain {c} : c ≠ quote → c ≠ '\\' → IsQuotedItem quote [c]
  | escaped {c} : IsQuotedItem quote ['\\', c]

/-- The characters of a literal of a form. -/
def Spells : LiteralForm → List Char → Prop
  | integer, cs => AreDigits cs
  | number, cs => ∃ whole fraction exponent,
      AreDigits whole ∧ IsFraction fraction ∧ IsExponent exponent ∧
        cs = whole ++ (fraction ++ exponent)
  | quoted quote, cs => ∃ items,
      (∀ item ∈ items, IsQuotedItem quote item) ∧ cs = quote :: (List.flatten items ++ [quote])

end LiteralForm

/-- The texts of the tokens of a kind of term. -/
def Lexicon.Spells (lexicon : Lexicon) : TermKind → String → Prop
  | .key wanted, text => text = wanted
  | .identifier case, text =>
    Text.isWord text = true ∧ text ∉ lexicon.reserved ∧ case.allows text = true
  | .literal form, text => form.Spells text.toList
  | .rule _, _ => False

/-! ## Forms in parts -/

/-- A text with the first property, followed by one with the second. -/
def Followed (P Q : List Char → Prop) (cs : List Char) : Prop :=
  ∃ as bs, P as ∧ Q bs ∧ cs = as ++ bs

section Parts

variable {cs : List Char}

/-- A character with one property, and a row of characters with another one behind it. -/
theorem followed_row_iff {f g : Char → Bool} :
    Followed (fun cs => ∃ c, f c = true ∧ cs = [c]) (fun cs => ∀ c ∈ cs, g c = true) cs ↔
      ∃ c ds, cs = c :: ds ∧ f c = true ∧ ∀ d ∈ ds, g d = true := by
  constructor
  · rintro ⟨_, ds, ⟨c, hc, rfl⟩, hds, rfl⟩
    exact ⟨c, ds, rfl, hc, hds⟩
  · rintro ⟨c, ds, rfl, hc, hds⟩
    exact ⟨[c], ds, ⟨c, hc, rfl⟩, hds, rfl⟩

/-- A word is a character that may begin one, and then any number of those that may follow. -/
theorem isWordChars_iff :
    Text.isWordChars cs = true ↔
      Followed (fun cs => ∃ c, Text.beginsWord c = true ∧ cs = [c])
        (fun cs => ∀ c ∈ cs, Text.continuesWord c = true) cs := by
  rw [followed_row_iff]
  cases cs with
  | nil => simp [Text.isWordChars]
  | cons c ds =>
    rw [Text.isWordChars, Bool.and_eq_true, List.all_eq_true]
    constructor
    · intro h
      exact ⟨c, ds, rfl, h⟩
    · rintro ⟨_, _, heq, h⟩
      obtain ⟨rfl, rfl⟩ := List.cons.inj heq
      exact h

namespace LiteralForm

/-- Digits are one digit, and then any number of them. -/
theorem areDigits_iff :
    AreDigits cs ↔
      Followed (fun cs => ∃ c, c.isDigit = true ∧ cs = [c])
        (fun cs => ∀ c ∈ cs, c.isDigit = true) cs := by
  rw [followed_row_iff]
  constructor
  · rintro ⟨hne, hcs⟩
    obtain ⟨c, ds, rfl⟩ := List.exists_cons_of_ne_nil hne
    obtain ⟨hc, hds⟩ := List.forall_mem_cons.mp hcs
    exact ⟨c, ds, rfl, hc, hds⟩
  · rintro ⟨c, ds, rfl, hc, hds⟩
    exact ⟨List.cons_ne_nil c ds, List.forall_mem_cons.mpr ⟨hc, hds⟩⟩

/-- A fraction is missing, or a point with digits behind it. -/
theorem isFraction_iff : IsFraction cs ↔ cs = [] ∨ Followed (· = ['.']) AreDigits cs := by
  constructor
  · rintro (_ | @⟨ds, hds⟩)
    · exact Or.inl rfl
    · exact Or.inr ⟨['.'], ds, rfl, hds, rfl⟩
  · rintro (rfl | ⟨_, ds, rfl, hds, rfl⟩)
    · exact .missing
    · exact .digits hds

/-- An exponent is missing, or a mark with digits behind it, and with or without a sign between
them. -/
theorem isExponent_iff :
    IsExponent cs ↔ cs = [] ∨
      Followed (fun cs => ∃ mark ∈ ['e', 'E'], cs = [mark])
        (Followed (fun cs => cs = [] ∨ ∃ sign ∈ ['+', '-'], cs = [sign]) AreDigits) cs := by
  constructor
  · rintro (_ | @⟨mark, ds, hmark, hds⟩ | @⟨mark, sign, ds, hmark, hsign, hds⟩)
    · exact Or.inl rfl
    · exact Or.inr ⟨[mark], ds, ⟨mark, hmark, rfl⟩, ⟨[], ds, Or.inl rfl, hds, rfl⟩, rfl⟩
    · exact Or.inr ⟨[mark], sign :: ds, ⟨mark, hmark, rfl⟩,
        ⟨[sign], ds, Or.inr ⟨sign, hsign, rfl⟩, hds, rfl⟩, rfl⟩
  · rintro (rfl | ⟨_, _, ⟨mark, hmark, rfl⟩, ⟨_, ds, (rfl | ⟨sign, hsign, rfl⟩), hds, rfl⟩, rfl⟩)
    · exact .missing
    · exact .unsigned hmark hds
    · exact .signed hmark hsign hds

/-- A number is digits, then a fraction, then an exponent. -/
theorem spells_number_iff :
    number.Spells cs ↔ Followed AreDigits (Followed IsFraction IsExponent) cs := by
  constructor
  · rintro ⟨whole, fraction, exponent, hwhole, hfraction, hexponent, rfl⟩
    exact ⟨whole, _, hwhole, ⟨fraction, exponent, hfraction, hexponent, rfl⟩, rfl⟩
  · rintro ⟨whole, _, hwhole, ⟨fraction, exponent, hfraction, hexponent, rfl⟩, rfl⟩
    exact ⟨whole, fraction, exponent, hwhole, hfraction, hexponent, rfl⟩

end LiteralForm

end Parts

namespace Matcher

open LiteralForm

variable {α β : Type} {p q : Matcher α} {P Q : List Char → Prop} {start stop : Cursor}

/-! ## What matchers take -/

/-- Whatever the matcher takes has a property. -/
def TakesOnly (p : Matcher α) (P : List Char → Prop) : Prop :=
  ∀ ⦃start a stop⦄, p.Takes start a stop → ∃ taken, start.Spans stop taken ∧ P taken

/-- What has a property has every property that follows from it. -/
theorem TakesOnly.imp (h : p.TakesOnly P) (hPQ : ∀ cs, P cs → Q cs) : p.TakesOnly Q := by
  intro start a stop ht
  obtain ⟨taken, hspans, hP⟩ := h ht
  exact ⟨taken, hspans, hPQ taken hP⟩

/-- Giving a value takes nothing. -/
theorem takesOnly_pure (value : α) : (pure value : Matcher α).TakesOnly (· = []) := by
  intro start a stop ht
  obtain ⟨_, rfl⟩ := takes_pure.mp ht
  exact ⟨[], Cursor.spans_nil _, rfl⟩

/-- Matchers one after the other take one text behind the other. -/
theorem takesOnly_bind {f : α → Matcher β} (hp : p.TakesOnly P) (hf : ∀ a, (f a).TakesOnly Q) :
    (p >>= f).TakesOnly (Followed P Q) := by
  intro start b stop ht
  obtain ⟨a, middle, hfirst, hrest⟩ := takes_bind.mp ht
  obtain ⟨as, has, hP⟩ := hp hfirst
  obtain ⟨bs, hbs, hQ⟩ := hf a hrest
  exact ⟨as ++ bs, has.append hbs, as, bs, hP, hQ, rfl⟩

/-- What follows a matcher may only make something of its value. -/
theorem takesOnly_bind_pure {f : α → β} (hp : p.TakesOnly P) :
    (p >>= fun a => pure (f a)).TakesOnly P := by
  refine (takesOnly_bind hp fun a => takesOnly_pure (f a)).imp ?_
  rintro cs ⟨as, bs, hP, rfl, rfl⟩
  rwa [List.append_nil]

/-- A choice takes what one of its matchers does. -/
theorem takesOnly_orElse (hp : p.TakesOnly P) (hq : q.TakesOnly P) : (orElse p q).TakesOnly P := by
  intro start a stop ht
  rcases takes_orElse.mp ht with h | ⟨_, h⟩
  · exact hp h
  · exact hq h

/-- What may be missing takes nothing, or what its matcher does. -/
theorem takesOnly_optional (hp : p.TakesOnly P) :
    (Matcher.optional p).TakesOnly fun cs => cs = [] ∨ P cs := by
  intro start found stop ht
  rcases takes_optional.mp ht with ⟨a, _, h⟩ | ⟨_, rfl, _⟩
  · obtain ⟨taken, hspans, hP⟩ := hp h
    exact ⟨taken, hspans, Or.inr hP⟩
  · exact ⟨[], Cursor.spans_nil _, Or.inl rfl⟩

/-- A repetition takes items, one behind the other. -/
theorem takesOnly_many (hp : p.TakesOnly P) :
    TakesOnly (many p) fun cs => ∃ items, (∀ item ∈ items, P item) ∧ cs = List.flatten items := by
  intro start values stop ht
  induction values generalizing start with
  | nil =>
    rcases takes_many.mp ht with ⟨_, _, rfl⟩ | ⟨_, _, _, _, _, _, h⟩
    · exact ⟨[], Cursor.spans_nil _, [], fun _ h => absurd h List.not_mem_nil, rfl⟩
    · cases h
  | cons a rest ih =>
    rcases takes_many.mp ht with ⟨_, h, _⟩ | ⟨b, middle, _, hfirst, _, hrest, h⟩
    · cases h
    · injection h with _ hvalues
      subst hvalues
      obtain ⟨taken, hspans, hP⟩ := hp hfirst
      obtain ⟨more, hmore, items, hitems, rfl⟩ := ih hrest
      refine ⟨_, hspans.append hmore, taken :: items, ?_, rfl⟩
      intro item hitem
      rcases List.mem_cons.mp hitem with rfl | hitem
      · exact hP
      · exact hitems item hitem

/-- One character takes a character that passes the test. -/
theorem takesOnly_satisfying (f : Char → Bool) (expected : List (Option Char)) :
    (satisfying f expected).TakesOnly fun cs => ∃ c, f c = true ∧ cs = [c] := by
  intro start c stop ht
  obtain ⟨hnext, hc⟩ := takes_satisfying.mp ht
  exact ⟨[c], Cursor.spans_of_next? hnext, c, hc, rfl⟩

/-- A character that a test admits takes such a character. -/
theorem takesOnly_charWhere (f : Char → Bool) :
    (charWhere f).TakesOnly fun cs => ∃ c, f c = true ∧ cs = [c] :=
  takesOnly_satisfying f []

/-- Repeated characters are a row of such characters. -/
theorem takesOnly_many_charWhere (f : Char → Bool) :
    TakesOnly (many (charWhere f)) fun cs => ∀ c ∈ cs, f c = true := by
  refine (takesOnly_many (takesOnly_charWhere f)).imp ?_
  rintro cs ⟨items, hitems, rfl⟩ c hc
  obtain ⟨item, hitem, hc⟩ := List.mem_flatten.mp hc
  obtain ⟨d, hd, rfl⟩ := hitems item hitem
  rwa [List.mem_singleton.mp hc]

/-- One of some characters takes one of them. -/
theorem takesOnly_oneOf (wanted : List Char) :
    (oneOf wanted).TakesOnly fun cs => ∃ c ∈ wanted, cs = [c] := by
  refine (takesOnly_satisfying wanted.contains (wanted.map some)).imp ?_
  rintro cs ⟨c, hc, rfl⟩
  exact ⟨c, List.contains_iff_mem.mp hc, rfl⟩

/-- A row of characters takes exactly these. -/
theorem takesOnly_exactly (wanted : List Char) : (exactly wanted).TakesOnly (· = wanted) :=
  fun _ _ _ ht => ⟨wanted, takes_exactly.mp ht, rfl⟩

/-- The text of a span is what was taken, where anything was. -/
theorem TakesOnly.spanText (h : p.TakesOnly P) {a : α} (ht : p.Takes start a stop)
    (hlt : start < stop) : P (start.spanText stop).toList := by
  obtain ⟨taken, hspans, hP⟩ := h ht
  rwa [Cursor.spanText_eq_between hlt, hspans.between_eq, String.toList_ofList]

/-! ## Words and literals -/

/-- A word takes characters that make a word. -/
theorem takesOnly_wordChars :
    TakesOnly (do let _ ← charWhere Text.beginsWord
                  many (charWhere Text.continuesWord))
      fun cs => Text.isWordChars cs = true :=
  (takesOnly_bind (takesOnly_charWhere _) fun _ => takesOnly_many_charWhere _).imp
    fun _ => isWordChars_iff.mpr

/-- The text of a word is a word. -/
theorem isWord_of_takes_word {text : String} (ht : word.Takes start text stop) :
    Text.isWord text = true := by
  obtain ⟨_, hchars, htext⟩ := takes_textOf.mp ht
  rw [Text.isWord, htext]
  exact takesOnly_wordChars.spanText hchars (eager_word.consumes ht)

/-- Digits take digits, at least one. -/
theorem takesOnly_digits : digits.TakesOnly AreDigits :=
  (takesOnly_bind (takesOnly_charWhere _) fun _ =>
    takesOnly_bind_pure (takesOnly_many_charWhere _)).imp fun _ => areDigits_iff.mpr

/-- A fraction, if there is any, takes the form of one. -/
theorem takesOnly_fraction : (Matcher.optional fraction).TakesOnly IsFraction :=
  (takesOnly_optional (takesOnly_bind (takesOnly_exactly _) fun _ =>
    takesOnly_digits)).imp fun _ => isFraction_iff.mpr

/-- An exponent, if there is any, takes the form of one. -/
theorem takesOnly_exponent : (Matcher.optional exponent).TakesOnly IsExponent := by
  have hsign : (Matcher.optional (oneOf ['+', '-'])).TakesOnly
      fun cs => cs = [] ∨ ∃ c ∈ ['+', '-'], cs = [c] :=
    takesOnly_optional (takesOnly_oneOf _)
  exact (takesOnly_optional (takesOnly_bind (takesOnly_oneOf _) fun _ =>
    takesOnly_bind hsign fun _ => takesOnly_digits)).imp fun _ => isExponent_iff.mpr

/-- A number takes the form of one. -/
theorem takesOnly_number : number.TakesOnly (Spells .number) :=
  (takesOnly_bind takesOnly_digits fun _ =>
    takesOnly_bind takesOnly_fraction fun _ => takesOnly_bind_pure takesOnly_exponent).imp
      fun _ => spells_number_iff.mpr

/-- A character inside quotes takes a plain one, or a backslash and the one behind it. -/
theorem takesOnly_quotedItem (quote : Char) :
    (quotedItem quote).TakesOnly (IsQuotedItem quote) := by
  refine takesOnly_orElse ?_ ?_
  · refine (takesOnly_bind_pure (takesOnly_charWhere _)).imp ?_
    rintro cs ⟨c, hc, rfl⟩
    rw [Bool.and_eq_true, bne_iff_ne, bne_iff_ne] at hc
    exact .plain hc.1 hc.2
  · refine (takesOnly_bind (takesOnly_exactly _) fun _ =>
      takesOnly_bind_pure (takesOnly_charWhere _)).imp ?_
    rintro cs ⟨_, _, rfl, ⟨c, _, rfl⟩, rfl⟩
    exact .escaped

/-- A quoted text takes such characters between its quotes. -/
theorem takesOnly_quoted (quote : Char) : (quoted quote).TakesOnly (Spells (.quoted quote)) := by
  refine (takesOnly_bind (takesOnly_exactly _) fun _ =>
    takesOnly_bind (takesOnly_many (takesOnly_quotedItem quote)) fun _ =>
      takesOnly_exactly _).imp ?_
  rintro cs ⟨_, _, rfl, ⟨_, _, ⟨items, hitems, rfl⟩, rfl, rfl⟩, rfl⟩
  exact ⟨items, hitems, rfl⟩

/-- The text of a literal has its form. -/
theorem spells_of_takes_literal {form : LiteralForm} {text : String}
    (ht : (literal form).Takes start text stop) : form.Spells text.toList := by
  have hlt : start < stop := (eager_literal form).consumes ht
  obtain ⟨_, hchars, rfl⟩ := takes_textOf.mp ht
  cases form with
  | integer => exact takesOnly_digits.spanText hchars hlt
  | number => exact takesOnly_number.spanText hchars hlt
  | quoted quote => exact (takesOnly_quoted quote).spanText hchars hlt

/-! ## Symbols -/

/-- The first of several matchers that matches is one of them. -/
theorem takes_of_firstOr {last : Matcher α} {ps : List (Matcher α)} {a : α}
    (ht : (firstOr last ps).Takes start a stop) : ∃ p ∈ last :: ps, p.Takes start a stop := by
  unfold firstOr at ht
  induction ps with
  | nil => exact ⟨last, List.mem_cons_self, ht⟩
  | cons r rest ih =>
    rw [List.foldr_cons] at ht
    rcases takes_orElse.mp ht with h | ⟨_, h⟩
    · exact ⟨r, List.mem_cons_of_mem _ List.mem_cons_self, h⟩
    · obtain ⟨p, hp, hfound⟩ := ih h
      rcases List.mem_cons.mp hp with rfl | hp
      · exact ⟨p, List.mem_cons_self, hfound⟩
      · exact ⟨p, List.mem_cons_of_mem _ (List.mem_cons_of_mem _ hp), hfound⟩

/-- A symbol stands where its characters do. -/
theorem spans_of_takes_symbol {symbols : List String} {text found : String}
    (ht : (symbol symbols text).Takes start found stop) : start.Spans stop text.toList := by
  obtain ⟨⟨exact, span⟩, hspan, hok⟩ := takes_checked.mp ht
  cases exact with
  | false => cases hok
  | true =>
    obtain ⟨p, hp, hp'⟩ := takes_of_firstOr (takes_withText.mp hspan).1
    rcases List.mem_cons.mp hp with rfl | hp
    · obtain ⟨_, middle, htext, hexact⟩ := takes_bind.mp hp'
      obtain ⟨_, rfl⟩ := takes_pure.mp hexact
      exact takes_exactText.mp htext
    · -- What a longer symbol takes is not this symbol.
      obtain ⟨s, _, rfl⟩ := List.mem_map.mp hp
      obtain ⟨_, middle, _, hexact⟩ := takes_bind.mp hp'
      obtain ⟨hfalse, _⟩ := takes_pure.mp hexact
      cases hfalse

/-! ## Tokens -/

section Tokens

variable {lexicon : Lexicon} {kind : TermKind} {token : Matcher String} {text : String}
  (h : tokenText? lexicon kind = some token) (ht : token.Takes start text stop)
include h ht

/-- A token that is not the empty text stands where its text does. -/
theorem spans_of_takes_token (hkind : kind ≠ .key "") : start.Spans stop text.toList := by
  have hlt : start < stop := (eager_token h hkind).consumes ht
  obtain ⟨taken, hspans⟩ := hlt.le
  rwa [takes_token h ht, Cursor.spanText_eq_between hlt, hspans.between_eq, String.toList_ofList]

/-- The empty text leads nowhere. -/
theorem eq_of_takes_token (hkind : kind = .key "") : stop = start := by
  subst hkind
  injection h with h
  subst h
  rw [if_neg (by decide)] at ht
  exact (spans_of_takes_symbol ht).eq_of_nil

/-- **Tokens.**  The text of a token that is not the empty text is one of its kind. -/
theorem spells_of_takes_token (hkind : kind ≠ .key "") : lexicon.Spells kind text := by
  have hspans : start.Spans stop text.toList := spans_of_takes_token h ht hkind
  cases kind with
  | key wanted =>
    injection h with h
    subst h
    split at ht
    · -- A word is checked to be this one; a symbol is matched character by character.
      obtain ⟨found, _, hok⟩ := takes_checked.mp ht
      split at hok
      · next hfound =>
        injection hok with hok
        rw [← hok]
        exact hfound
      · cases hok
    · have hwanted := spans_of_takes_symbol ht
      exact String.toList_inj.mp (hspans.taken_eq.symm.trans hwanted.taken_eq)
  | identifier case =>
    injection h with h
    subst h
    obtain ⟨found, hfound, hok⟩ := takes_checked.mp ht
    split at hok
    · cases hok
    · next hreserved =>
      split at hok
      · cases hok
      · next hcase =>
        injection hok with hok
        subst hok
        refine ⟨isWord_of_takes_word hfound, ?_, by simpa using hcase⟩
        exact fun hmem => hreserved (List.contains_iff_mem.mpr hmem)
  | literal form =>
    injection h with h
    subst h
    exact spells_of_takes_literal ht
  | rule shape => cases h

end Tokens

end Matcher

end TypedGrammar
