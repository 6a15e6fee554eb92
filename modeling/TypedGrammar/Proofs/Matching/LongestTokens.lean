import TypedGrammar.Proofs.Matching.KeyTerms

/-!
# The longest tokens

Numbers and words are matched greedily: digits are taken as long as there are any, then a fraction
if there is one, then an exponent.  Of the beginnings of the text that have the form of a number,
or of a word, this takes the longest one.  It does so because the parts are kept apart: where a part
ends and the next one begins, the first could not have been continued.
-/

namespace TypedGrammar

variable {P Q : List Char → Prop} {text rest taken more other w : List Char} {c : Char}

/-! ## The longest beginning -/

/-- Of the beginnings of a text that have a property, `taken` is the longest one. -/
structure IsLongest (P : List Char → Prop) (text taken : List Char) : Prop where
  holds : P taken
  stands : taken <+: text
  longest : ∀ other, other <+: text → P other → other.length ≤ taken.length

/-- No text with the property goes on with `c` behind `w`. -/
def StopsAt (P : List Char → Prop) (w : List Char) (c : Char) : Prop :=
  ∀ other, w ++ [c] <+: other → ¬ P other

/-- Where a text with the first property stands in front of one with the second, it cannot be
continued. -/
def KeptApart (P Q : List Char → Prop) : Prop :=
  ∀ ⦃w c cs⦄, P w → Q (c :: cs) → StopsAt P w c

namespace IsLongest

/-- Whatever else with the property stands here is a beginning of the longest text. -/
theorem prefix_of_stands (h : IsLongest P text taken) (hstands : other <+: text) (hP : P other) :
    other <+: taken :=
  List.prefix_of_prefix_length_le hstands h.stands (h.longest other hstands hP)

/-- The same property has the same longest text. -/
theorem congr (h : IsLongest P text taken) (hPQ : ∀ cs, P cs ↔ Q cs) : IsLongest Q text taken :=
  ⟨(hPQ taken).mp h.holds, h.stands,
    fun other hstands hother => h.longest other hstands ((hPQ other).mpr hother)⟩

/-- There is only one longest text. -/
theorem unique (h : IsLongest P text taken) (h' : IsLongest P text other) : taken = other :=
  (h'.prefix_of_stands h.stands h.holds).eq_of_length_le (h.longest other h'.stands h'.holds)

/-- A text that cannot be continued where it stands is the longest one. -/
theorem of_stopsAt (hP : P taken) (h : ∀ c cs, rest = c :: cs → StopsAt P taken c) :
    IsLongest P (taken ++ rest) taken := by
  refine ⟨hP, List.prefix_append taken rest, fun other hstands hother => ?_⟩
  by_contra hlong
  have htaken : taken <+: other :=
    List.prefix_of_prefix_length_le (List.prefix_append taken rest) hstands
      (Nat.le_of_lt (Nat.lt_of_not_le hlong))
  obtain ⟨behind, rfl⟩ := htaken
  cases behind with
  | nil => simp at hlong
  | cons c cs =>
    obtain ⟨last, hlast⟩ := (List.prefix_append_right_inj taken).mp hstands
    refine h c (cs ++ last) (by rw [← hlast, List.cons_append]) _ ?_ hother
    exact (List.prefix_append_right_inj taken).mpr (List.prefix_append [c] cs)

/-- What stands in front of a text that is kept apart from it is the longest. -/
theorem eq_of_keptApart (h : IsLongest P text taken) (hapart : KeptApart P Q) (hw : P w)
    (hmore : Q (c :: more)) (hstands : w ++ c :: more <+: text) : w = taken := by
  have hfirst : w <+: taken :=
    h.prefix_of_stands ((List.prefix_append w (c :: more)).trans hstands) hw
  obtain ⟨behind, hbehind⟩ := hfirst
  cases behind with
  | nil => rw [← hbehind, List.append_nil]
  | cons d ds =>
    -- Both `c` and `d` are the next character of the text, so the longest one goes on with `c`.
    obtain ⟨last, rfl⟩ := hstands
    obtain ⟨last', hlast'⟩ := h.stands
    rw [← hbehind, List.append_assoc, List.append_assoc, List.append_cancel_left_eq,
      List.cons_append, List.cons_append, List.cons.injEq] at hlast'
    rw [hlast'.1] at hbehind
    refine absurd h.holds (hapart hw hmore taken ?_)
    rw [← hbehind]
    exact (List.prefix_append_right_inj w).mpr (List.prefix_append [c] ds)

/-- The longest beginning, and then the longest beginning of what follows. -/
theorem append (h : IsLongest P (taken ++ rest) taken) (hmore : IsLongest Q rest more)
    (hapart : KeptApart P Q) : IsLongest (Followed P Q) (taken ++ rest) (taken ++ more) := by
  refine ⟨⟨taken, more, h.holds, hmore.holds, rfl⟩,
    (List.prefix_append_right_inj taken).mpr hmore.stands, ?_⟩
  rintro _ hstands ⟨w, cs, hw, hcs, rfl⟩
  rw [List.length_append, List.length_append]
  cases cs with
  | nil =>
    have := h.longest w ((List.prefix_append w []).trans hstands) hw
    rw [List.length_nil]
    omega
  | cons c cs =>
    obtain rfl := h.eq_of_keptApart hapart hw hcs hstands
    have := hmore.longest _ ((List.prefix_append_right_inj w).mp hstands) hcs
    omega

end IsLongest

/-- Texts of certain characters end at any other character. -/
theorem stopsAt_of_forall {f : Char → Bool} (hP : ∀ cs, P cs → ∀ d ∈ cs, f d = true)
    (hc : f c = false) (w : List Char) : StopsAt P w c := by
  intro other hstands hother
  have hmem : c ∈ other := hstands.subset (by simp)
  rw [hP other hother c hmem] at hc
  cases hc

namespace LiteralForm

/-- Digits end at whatever is no digit. -/
theorem stopsAt_digits (hc : c.isDigit = false) (w : List Char) : StopsAt AreDigits w c :=
  stopsAt_of_forall (fun _ h => h.2) hc w

/-- A fraction ends at whatever neither is a digit nor begins a fraction. -/
theorem stopsAt_fraction (hc : c.isDigit = false) (hpoint : c ≠ '.') (w : List Char) :
    StopsAt IsFraction w c := by
  intro other hstands hother
  have hmem : c ∈ other := hstands.subset (by simp)
  cases hother with
  | missing => cases hmem
  | digits hds =>
    rcases List.mem_cons.mp hmem with hmem | hmem
    · exact hpoint hmem
    · rw [hds.2 c hmem] at hc
      cases hc

/-- The mark of an exponent is neither a digit nor a point. -/
theorem isDigit_mark (h : c ∈ ['e', 'E']) : c.isDigit = false ∧ c ≠ '.' := by
  simp only [List.mem_cons, List.not_mem_nil, or_false] at h
  rcases h with rfl | rfl <;> decide

/-- What follows a fraction as an exponent does not continue it. -/
theorem keptApart_fraction_exponent : KeptApart IsFraction IsExponent := by
  intro w c cs _ hexponent
  have hmark : c ∈ ['e', 'E'] := by
    cases hexponent with
    | unsigned hmark _ => exact hmark
    | signed hmark _ _ => exact hmark
  exact stopsAt_fraction (isDigit_mark hmark).1 (isDigit_mark hmark).2 w

/-- What follows digits as a fraction or an exponent does not continue them. -/
theorem keptApart_digits_tail : KeptApart AreDigits (Followed IsFraction IsExponent) := by
  rintro w c cs _ ⟨fraction, exponent, hfraction, hexponent, htail⟩
  refine stopsAt_digits ?_ w
  cases hfraction with
  | digits _ =>
    rw [(List.cons.inj htail).1]
    decide
  | missing =>
    rw [List.nil_append] at htail
    subst htail
    cases hexponent with
    | unsigned hmark _ => exact (isDigit_mark hmark).1
    | signed hmark _ _ => exact (isDigit_mark hmark).1

/-! ### Parts that are missing -/

/-- A point without a digit behind it begins no fraction. -/
theorem isLongest_fraction_point (h : more.head?.any Char.isDigit = false) :
    IsLongest IsFraction ('.' :: more) [] := by
  refine ⟨.missing, List.nil_prefix, ?_⟩
  rintro _ ⟨behind, hbehind⟩ (_ | @⟨ds, hds⟩)
  · exact Nat.le_refl _
  · obtain ⟨d, ds, rfl⟩ := List.exists_cons_of_ne_nil hds.1
    rw [List.cons_append, List.cons_append, List.cons.injEq] at hbehind
    rw [← hbehind.2, List.head?_cons, Option.any_some, hds.2 d List.mem_cons_self] at h
    cases h

/-- The signs that may stand in front of the digits of an exponent. -/
def signs : List (List Char) :=
  [[], ['+'], ['-']]

/-- A mark without a digit behind it and behind its sign begins no exponent. -/
theorem isLongest_exponent_mark (mark : Char)
    (h : ∀ sign ∈ signs, ∀ d ds, more = sign ++ d :: ds → d.isDigit = false) :
    IsLongest IsExponent (mark :: more) [] := by
  have hdigits : ∀ sign ∈ signs, ∀ ds, AreDigits ds → ¬ sign ++ ds <+: more := by
    rintro sign hsign ds hds ⟨behind, hbehind⟩
    obtain ⟨d, ds, rfl⟩ := List.exists_cons_of_ne_nil hds.1
    have hd := h sign hsign d (ds ++ behind)
      (by rw [← hbehind, List.append_assoc, List.cons_append])
    rw [hds.2 d List.mem_cons_self] at hd
    cases hd
  refine ⟨.missing, List.nil_prefix, ?_⟩
  rintro _ hstands (_ | @⟨mark', ds, _, hds⟩ | @⟨mark', sign, ds, _, hsign, hds⟩)
  · exact Nat.le_refl _
  · exact absurd (List.cons_prefix_cons.mp hstands).2 (hdigits [] (by simp [signs]) ds hds)
  · refine absurd (List.cons_prefix_cons.mp hstands).2 (hdigits [sign] ?_ ds hds)
    simp only [List.mem_cons, List.not_mem_nil, or_false] at hsign
    rcases hsign with rfl | rfl <;> simp [signs]

/-- An exponent does not begin with a point. -/
theorem isLongest_exponent_point (more : List Char) : IsLongest IsExponent ('.' :: more) [] := by
  refine ⟨.missing, List.nil_prefix, ?_⟩
  rintro _ hstands (_ | @⟨mark, ds, hmark, _⟩ | @⟨mark, sign, ds, hmark, _, _⟩)
  · exact Nat.le_refl _
  · exact absurd (List.cons_prefix_cons.mp hstands).1 (isDigit_mark hmark).2
  · exact absurd (List.cons_prefix_cons.mp hstands).1 (isDigit_mark hmark).2

/-- The longest number consists of the longest digits, fraction and exponent. -/
theorem isLongest_number {whole fraction exponent : List Char}
    (hwhole : IsLongest AreDigits (whole ++ (fraction ++ rest)) whole)
    (hfraction : IsLongest IsFraction (fraction ++ rest) fraction)
    (hexponent : IsLongest IsExponent rest exponent) :
    IsLongest number.Spells (whole ++ (fraction ++ rest)) (whole ++ (fraction ++ exponent)) := by
  have h := hwhole.append (hfraction.append hexponent keptApart_fraction_exponent)
    keptApart_digits_tail
  exact h.congr fun _ => spells_number_iff.symm

/-- A point without a digit behind it does not belong to the number in front of it. -/
theorem isLongest_number_point {whole : List Char} (hwhole : AreDigits whole)
    (h : more.head?.any Char.isDigit = false) :
    IsLongest number.Spells (whole ++ '.' :: more) whole := by
  have hdigits : IsLongest AreDigits (whole ++ '.' :: more) whole := by
    refine .of_stopsAt hwhole fun c cs hc => stopsAt_digits ?_ whole
    rw [← (List.cons.inj hc).1]
    decide
  have hfraction : IsLongest IsFraction ([] ++ '.' :: more) [] := isLongest_fraction_point h
  have hnumber := isLongest_number hdigits hfraction (isLongest_exponent_point more)
  rwa [List.append_nil, List.append_nil] at hnumber

/-- A mark without a digit behind it and its sign does not belong to the number in front of it. -/
theorem isLongest_number_mark {whole fraction : List Char} {mark : Char}
    (hwhole : AreDigits whole) (hfraction : IsFraction fraction) (hmark : mark ∈ ['e', 'E'])
    (h : ∀ sign ∈ signs, ∀ d ds, more = sign ++ d :: ds → d.isDigit = false) :
    IsLongest number.Spells (whole ++ (fraction ++ mark :: more)) (whole ++ fraction) := by
  have hdigits : IsLongest AreDigits (whole ++ (fraction ++ mark :: more)) whole := by
    refine .of_stopsAt hwhole fun c cs hc => stopsAt_digits ?_ whole
    cases hfraction with
    | missing =>
      rw [← (List.cons.inj hc).1]
      exact (isDigit_mark hmark).1
    | digits _ =>
      rw [← (List.cons.inj hc).1]
      decide
  have hpart : IsLongest IsFraction (fraction ++ mark :: more) fraction := by
    refine .of_stopsAt hfraction fun c cs hc => ?_
    rw [← (List.cons.inj hc).1]
    exact stopsAt_fraction (isDigit_mark hmark).1 (isDigit_mark hmark).2 fraction
  have hnumber := isLongest_number hdigits hpart (isLongest_exponent_mark mark h)
  rwa [List.append_nil] at hnumber

end LiteralForm

namespace Matcher

open LiteralForm

variable {α β : Type} {p : Matcher α} {start stop : Cursor}

/-! ## Matchers that take the longest -/

/-- Of the beginnings of the text that have the property, the matcher takes the longest one, and it
fails only where there is none. -/
structure TakesLongest (p : Matcher α) (P : List Char → Prop) : Prop where
  takes : ∀ {start a stop}, p.Takes start a stop →
    ∃ taken, start.Spans stop taken ∧ IsLongest P start.rest taken
  fails : ∀ {start}, p.Fails start → ∀ taken, taken <+: start.rest → ¬ P taken

/-- The longest text of the same property is taken. -/
theorem TakesLongest.congr (h : p.TakesLongest P) (hPQ : ∀ cs, P cs ↔ Q cs) :
    p.TakesLongest Q where
  takes ht := by
    obtain ⟨taken, hspans, htaken⟩ := h.takes ht
    exact ⟨taken, hspans, htaken.congr hPQ⟩
  fails hf taken hstands hQ := h.fails hf taken hstands ((hPQ taken).mpr hQ)

/-- Giving a value takes the empty text. -/
theorem takesLongest_pure (value : α) : (pure value : Matcher α).TakesLongest (· = []) where
  takes ht := by
    obtain ⟨_, rfl⟩ := takes_pure.mp ht
    refine ⟨[], Cursor.spans_nil _, rfl, List.nil_prefix, ?_⟩
    rintro other _ rfl
    exact Nat.le_refl _
  fails hf := absurd hf fails_pure

/-- One match after the other takes the longest, if what they take is kept apart. -/
theorem takesLongest_bind {f : α → Matcher β} (hp : p.TakesLongest P)
    (hf : ∀ a, (f a).TakesLongest Q) (hapart : KeptApart P Q) :
    (p >>= f).TakesLongest (Followed P Q) where
  takes ht := by
    obtain ⟨a, middle, hfirst, hrest⟩ := takes_bind.mp ht
    obtain ⟨taken, hspans, htaken⟩ := hp.takes hfirst
    obtain ⟨more, hmore, hlongest⟩ := (hf a).takes hrest
    refine ⟨taken ++ more, hspans.append hmore, ?_⟩
    rw [hspans.1] at htaken ⊢
    exact htaken.append hlongest hapart
  fails hfails := by
    rintro _ hstands ⟨w, cs, hw, hcs, rfl⟩
    have hw' : w <+: _ := (List.prefix_append w cs).trans hstands
    rcases fails_bind.mp hfails with hfails | ⟨a, middle, hfirst, hrest⟩
    · exact hp.fails hfails w hw' hw
    · obtain ⟨taken, hspans, htaken⟩ := hp.takes hfirst
      cases cs with
      | nil => exact (hf a).fails hrest [] List.nil_prefix hcs
      | cons c cs =>
        obtain rfl := htaken.eq_of_keptApart hapart hw hcs hstands
        rw [hspans.1] at hstands
        exact (hf a).fails hrest _ ((List.prefix_append_right_inj w).mp hstands) hcs

/-- What follows a matcher may only make something of its value. -/
theorem takesLongest_bind_pure {f : α → β} (hp : p.TakesLongest P) :
    (p >>= fun a => pure (f a)).TakesLongest P := by
  refine (takesLongest_bind hp (fun a => takesLongest_pure (f a)) ?_).congr fun cs => ?_
  · intro w c cs _ hnil
    cases hnil
  · constructor
    · rintro ⟨as, _, has, rfl, rfl⟩
      rwa [List.append_nil]
    · intro hcs
      exact ⟨cs, [], hcs, rfl, (List.append_nil cs).symm⟩

/-- A match that may be missing takes the longest text, or the empty one where there is none. -/
theorem takesLongest_optional (hp : p.TakesLongest P) :
    (Matcher.optional p).TakesLongest fun cs => cs = [] ∨ P cs where
  takes ht := by
    rcases takes_optional.mp ht with ⟨a, _, h⟩ | ⟨_, rfl, hfails⟩
    · obtain ⟨taken, hspans, htaken⟩ := hp.takes h
      refine ⟨taken, hspans, Or.inr htaken.holds, htaken.stands, ?_⟩
      rintro other hstands (rfl | hother)
      · exact Nat.zero_le _
      · exact htaken.longest other hstands hother
    · refine ⟨[], Cursor.spans_nil _, Or.inl rfl, List.nil_prefix, ?_⟩
      rintro other hstands (rfl | hother)
      · exact Nat.le_refl _
      · exact absurd hother (hp.fails hfails other hstands)
  fails hf := absurd hf fails_optional

/-- One character is taken where it passes the test. -/
theorem takesLongest_satisfying (f : Char → Bool) (expected : List (Option Char)) :
    (satisfying f expected).TakesLongest fun cs => ∃ c, f c = true ∧ cs = [c] where
  takes ht := by
    obtain ⟨hnext, hc⟩ := takes_satisfying.mp ht
    have hspans := Cursor.spans_of_next? hnext
    refine ⟨_, hspans, ⟨_, hc, rfl⟩, ⟨_, hspans.1.symm⟩, ?_⟩
    rintro _ _ ⟨_, _, rfl⟩
    exact Nat.le_refl _
  fails hf := by
    rintro _ ⟨more, hmore⟩ ⟨c, hc, rfl⟩
    have hnone := fails_satisfying.mp hf
    rw [← hmore, List.singleton_append, List.head?_cons, Option.any_some, hc] at hnone
    cases hnone

/-- A character that a test admits is taken where it stands. -/
theorem takesLongest_charWhere (f : Char → Bool) :
    (charWhere f).TakesLongest fun cs => ∃ c, f c = true ∧ cs = [c] :=
  takesLongest_satisfying f []

/-- One of some characters is taken where it stands. -/
theorem takesLongest_oneOf (wanted : List Char) :
    (oneOf wanted).TakesLongest fun cs => ∃ c ∈ wanted, cs = [c] :=
  (takesLongest_satisfying wanted.contains (wanted.map some)).congr fun cs => by
    simp only [List.contains_iff_mem]

/-- A row of characters is taken where it stands. -/
theorem takesLongest_exactly (wanted : List Char) : (exactly wanted).TakesLongest (· = wanted) where
  takes ht := by
    have hspans := takes_exactly.mp ht
    refine ⟨wanted, hspans, rfl, ⟨_, hspans.1.symm⟩, ?_⟩
    rintro other _ rfl
    exact Nat.le_refl _
  fails hf := by
    rintro _ ⟨more, hmore⟩ rfl
    obtain ⟨stop, hspans, _⟩ := Cursor.exists_spans hmore.symm
    exact (takes_exactly.mpr hspans : Takes _ _ () stop).not_fails hf

/-- As many characters with a property as follow each other are the longest row of them. -/
theorem takesLongest_many_charWhere (f : Char → Bool) :
    TakesLongest (many (charWhere f)) fun cs => ∀ c ∈ cs, f c = true where
  takes ht := by
    have hspans := spans_of_takes_many_charWhere ht
    refine ⟨_, hspans, fun c hc => List.mem_takeWhile_imp hc, List.takeWhile_prefix f, ?_⟩
    rintro other ⟨more, hmore⟩ hother
    rw [← hmore, List.takeWhile_append_of_pos hother, List.length_append]
    exact Nat.le_add_right _ _
  fails hf := absurd hf fails_many

/-- A single character is kept apart from whatever follows it. -/
theorem keptApart_singleton {P : Char → Prop} : KeptApart (fun cs => ∃ c, P c ∧ cs = [c]) Q := by
  rintro w c cs ⟨d, _, rfl⟩ _ other hstands ⟨e, _, rfl⟩
  have := hstands.length_le
  simp at this

/-! ## Words and numbers -/

/-- As many digits as there are, at least one, are taken. -/
theorem takesLongest_digits : digits.TakesLongest AreDigits :=
  (takesLongest_bind (takesLongest_charWhere _) (fun _ =>
    takesLongest_bind_pure (takesLongest_many_charWhere _)) keptApart_singleton).congr
      fun _ => areDigits_iff.symm

/-- The longest fraction is taken, which may be missing. -/
theorem takesLongest_fraction : (Matcher.optional fraction).TakesLongest IsFraction := by
  have hpoint : KeptApart (· = ['.']) AreDigits := by
    rintro w c cs rfl _ other hstands rfl
    have := hstands.length_le
    simp at this
  exact (takesLongest_optional (takesLongest_bind (takesLongest_exactly _)
    (fun _ => takesLongest_digits) hpoint)).congr fun _ => isFraction_iff.symm

/-- The longest exponent is taken, which may be missing. -/
theorem takesLongest_exponent : (Matcher.optional exponent).TakesLongest IsExponent := by
  have hsign : KeptApart (fun cs => cs = [] ∨ ∃ c ∈ ['+', '-'], cs = [c]) AreDigits := by
    rintro w c cs _ hds other hstands hother
    have hc : c.isDigit = true := hds.2 c List.mem_cons_self
    have hmem : c ∈ other := hstands.subset (by simp)
    rcases hother with rfl | ⟨sign, hsign, rfl⟩
    · cases hmem
    · rw [List.mem_singleton.mp hmem] at hc
      simp only [List.mem_cons, List.not_mem_nil, or_false] at hsign
      rcases hsign with rfl | rfl <;> exact absurd hc (by decide)
  exact (takesLongest_optional (takesLongest_bind (takesLongest_oneOf _)
    (fun _ => takesLongest_bind (takesLongest_optional (takesLongest_oneOf _))
      (fun _ => takesLongest_digits) hsign) keptApart_singleton)).congr
        fun _ => isExponent_iff.symm

/-- The longest number is taken. -/
theorem takesLongest_number : number.TakesLongest LiteralForm.number.Spells :=
  (takesLongest_bind takesLongest_digits (fun _ =>
    takesLongest_bind takesLongest_fraction (fun _ => takesLongest_bind_pure takesLongest_exponent)
      keptApart_fraction_exponent) keptApart_digits_tail).congr fun _ => spells_number_iff.symm

/-- The longest row of the characters of a word is taken. -/
theorem takesLongest_wordChars :
    TakesLongest (do let _ ← charWhere Text.beginsWord
                     many (charWhere Text.continuesWord))
      fun cs => Text.isWordChars cs = true :=
  (takesLongest_bind (takesLongest_charWhere _) (fun _ => takesLongest_many_charWhere _)
    keptApart_singleton).congr fun _ => isWordChars_iff.symm

/-! ## Scanners -/

/-- The matcher succeeds exactly where the text begins with a text that has the property; then it
takes the longest such text, which is also its value. -/
structure Scans (p : Matcher String) (P : List Char → Prop) : Prop where
  succeeds : ∀ start,
    (∃ text stop, p.Takes start text stop) ↔ ∃ taken, taken <+: start.rest ∧ P taken
  fails : ∀ start, p.Fails start ↔ ¬ ∃ taken, taken <+: start.rest ∧ P taken
  takes : ∀ start text stop, p.Takes start text stop ↔
    start.Spans stop text.toList ∧ IsLongest P start.rest text.toList

section TakesLongest

variable (h : p.TakesLongest P) (heager : p.Eager)
include h heager

/-- There is a match exactly where the text begins with a text that has the property. -/
theorem TakesLongest.succeeds_iff :
    (∃ a stop, p.Takes start a stop) ↔ ∃ taken, taken <+: start.rest ∧ P taken := by
  constructor
  · rintro ⟨a, stop, ha⟩
    obtain ⟨taken, _, htaken⟩ := h.takes ha
    exact ⟨taken, htaken.stands, htaken.holds⟩
  · rintro ⟨taken, hstands, hP⟩
    rcases takes_or_fails_or_stalls p start with htakes | hfails | hstalls
    · exact htakes
    · exact absurd hP (h.fails hfails taken hstands)
    · exact absurd hstalls heager.settles

/-- The match fails exactly where no beginning of the text has the property. -/
theorem TakesLongest.fails_iff : p.Fails start ↔ ¬ ∃ taken, taken <+: start.rest ∧ P taken := by
  constructor
  · rintro hfails ⟨taken, hstands, hP⟩
    exact h.fails hfails taken hstands hP
  · intro hnone
    rcases takes_or_fails_or_stalls p start with htakes | hfails | hstalls
    · exact absurd ((h.succeeds_iff heager).mp htakes) hnone
    · exact hfails
    · exact absurd hstalls heager.settles

/-- The text of the span is the longest one. -/
theorem TakesLongest.spanText {a : α} (ha : p.Takes start a stop) :
    start.Spans stop (start.spanText stop).toList ∧
      IsLongest P start.rest (start.spanText stop).toList := by
  obtain ⟨taken, hspans, htaken⟩ := h.takes ha
  rw [Cursor.spanText_eq_between (heager.consumes ha), hspans.between_eq, String.toList_ofList]
  exact ⟨hspans, htaken⟩

/-- A matcher that gives its text, of what takes the longest, is a scanner. -/
theorem scans_of_takesLongest :
    Scans (do let (_, text) ← withText p
              return text) P := by
  refine ⟨fun start => ?_, fun start => fails_textOf.trans (h.fails_iff heager),
    fun start text stop => ⟨?_, ?_⟩⟩
  · rw [← h.succeeds_iff heager]
    constructor
    · rintro ⟨text, stop, ht⟩
      obtain ⟨a, ha, _⟩ := takes_textOf.mp ht
      exact ⟨a, stop, ha⟩
    · rintro ⟨a, stop, ha⟩
      exact ⟨_, stop, takes_textOf.mpr ⟨a, ha, rfl⟩⟩
  · intro ht
    obtain ⟨a, ha, rfl⟩ := takes_textOf.mp ht
    exact h.spanText heager ha
  · rintro ⟨hspans, hlongest⟩
    obtain ⟨a, stop', ha⟩ :=
      (h.succeeds_iff heager).mpr ⟨_, hlongest.stands, hlongest.holds⟩
    obtain ⟨hspans', hlongest'⟩ := h.spanText heager ha
    -- Both texts are the longest one, so the matcher stops where the span does.
    obtain rfl : text = start.spanText stop' := String.toList_inj.mp (hlongest.unique hlongest')
    obtain rfl := hspans.unique hspans'
    exact takes_textOf.mpr ⟨a, ha, rfl⟩

end TakesLongest

/-- In front of `rest` the matcher takes `taken` and leaves `rest` as it is. -/
def StopsBefore (p : Matcher String) (taken rest : List Char) : Prop :=
  ∀ start, start.rest = taken ++ rest →
    ∃ stop, p.Takes start (String.ofList taken) stop ∧ stop.rest = rest

/-- A scanner takes the longest beginning, and leaves what stands behind it. -/
theorem Scans.stopsBefore {p : Matcher String} (h : p.Scans P)
    (hlongest : IsLongest P (taken ++ rest) taken) : p.StopsBefore taken rest := by
  intro start hstart
  obtain ⟨stop, hspans, hrest⟩ := Cursor.exists_spans hstart
  refine ⟨stop, (h.takes start _ stop).mpr ?_, hrest⟩
  rw [String.toList_ofList, hstart]
  exact ⟨hspans, hlongest⟩

/-- Numbers are scanned as the longest text of their form. -/
theorem scans_number : Scans (literal .number) LiteralForm.number.Spells :=
  scans_of_takesLongest takesLongest_number eager_number

/-- Integers are scanned as the longest row of digits. -/
theorem scans_integer : Scans (literal .integer) AreDigits :=
  scans_of_takesLongest takesLongest_digits eager_digits

/-- Words are scanned as the longest row of their characters. -/
theorem scans_word : Scans word fun cs => Text.isWordChars cs = true :=
  scans_of_takesLongest takesLongest_wordChars
    (eager_bind (eager_charWhere _) fun _ => steady_many (eager_charWhere _))

/-- A text is scanned as one whole word exactly if it is a word. -/
theorem word_takes_whole_iff (text : String) :
    (∃ stop, word.Takes (.start text.toList) text stop ∧ stop.rest = []) ↔
      Text.isWord text = true := by
  constructor
  · rintro ⟨stop, ht, _⟩
    exact ((scans_word.takes _ _ _).mp ht).2.holds
  · intro hword
    have hlongest : IsLongest (fun cs => Text.isWordChars cs = true)
        (text.toList ++ []) text.toList :=
      .of_stopsAt hword fun _ _ h => by cases h
    have hstops := scans_word.stopsBefore hlongest (.start text.toList) (List.append_nil _).symm
    rwa [String.ofList_toList] at hstops

/-- **The longest tokens.**  A number, an integer and a word are matched exactly where the text
begins with one, and then the longest one is taken.  A number gives back a point, or a mark of an
exponent, behind which the digits are missing.  A text is scanned as one whole word exactly if it is
a word. -/
theorem scans_longest :
    Scans (literal .number) LiteralForm.number.Spells ∧
    (∀ whole more, AreDigits whole → more.head?.any Char.isDigit = false →
      StopsBefore (literal .number) whole ('.' :: more)) ∧
    (∀ whole fraction mark more, AreDigits whole → IsFraction fraction → mark ∈ ['e', 'E'] →
      (∀ sign ∈ signs, ∀ d ds, more = sign ++ d :: ds → d.isDigit = false) →
      StopsBefore (literal .number) (whole ++ fraction) (mark :: more)) ∧
    Scans (literal .integer) AreDigits ∧
    Scans word (fun cs => Text.isWord (String.ofList cs) = true) ∧
    ∀ text : String, (∃ stop, word.Takes (.start text.toList) text stop ∧ stop.rest = []) ↔
      Text.isWord text = true := by
  refine ⟨scans_number, fun whole more hwhole hmore => ?_,
    fun whole fraction mark more hwhole hfraction hmark hmore => ?_, scans_integer, ?_,
    word_takes_whole_iff⟩
  · exact scans_number.stopsBefore (isLongest_number_point hwhole hmore)
  · refine scans_number.stopsBefore ?_
    rw [List.append_assoc]
    exact isLongest_number_mark hwhole hfraction hmark hmore
  · simp only [Text.isWord, String.toList_ofList]
    exact scans_word

/-- In front of a point without digits a number ends, and in front of a mark with a sign but without
digits as well. -/
theorem scans_longest_partial :
    (∃ stop, (literal .number).Takes (.start "1.e5".toList) "1" stop ∧
      stop.rest = ['.', 'e', '5']) ∧
    ∃ stop, (literal .number).Takes (.start "2.5e+".toList) "2.5" stop ∧
      stop.rest = ['e', '+'] := by
  have hdigit : ∀ c : Char, c.isDigit = true → AreDigits [c] := fun c hc =>
    ⟨List.cons_ne_nil c [], List.forall_mem_singleton.mpr hc⟩
  obtain ⟨_, hpoint, hmark, _⟩ := scans_longest
  refine ⟨hpoint ['1'] ['e', '5'] (hdigit '1' rfl) rfl _ ?_,
    hmark ['2'] ['.', '5'] 'e' ['+'] (hdigit '2' rfl) (.digits (hdigit '5' rfl))
      List.mem_cons_self ?_ _ ?_⟩
  · rfl
  · intro sign hsign d ds hds
    simp only [signs, List.mem_cons, List.not_mem_nil, or_false] at hsign
    rcases hsign with rfl | rfl | rfl <;> simp at hds
    rw [← hds.1]
    decide
  · rfl

end Matcher

end TypedGrammar
