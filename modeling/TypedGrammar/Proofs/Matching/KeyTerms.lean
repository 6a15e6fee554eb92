import Mathlib.Data.List.TakeWhile
import TypedGrammar.Proofs.Matching.TokenForms

/-!
# Words and symbols in a text

Where a text begins with a word, the longest word is what stands there: this and no other word is
matched.  Of the symbols with which a text begins, the longest one stands there: each of the others
is kept from matching by those that begin with it and are longer.
-/

namespace TypedGrammar

/-! ## The leading word -/

namespace Text

/-- The longest word with which a text begins; nothing if it does not begin with a word. -/
def leadingWord : List Char → List Char
  | [] => []
  | c :: rest => if beginsWord c then c :: rest.takeWhile continuesWord else []

theorem leadingWord_prefix (cs : List Char) : leadingWord cs <+: cs := by
  cases cs with
  | nil => exact List.prefix_rfl
  | cons c rest =>
    rw [leadingWord]
    split
    · exact List.cons_prefix_cons.mpr ⟨rfl, List.takeWhile_prefix _⟩
    · exact List.nil_prefix

/-- A word with which a text begins is the beginning of the longest one. -/
theorem prefix_leadingWord {w cs : List Char} (hword : isWordChars w = true) (h : w <+: cs) :
    w <+: leadingWord cs := by
  obtain ⟨more, rfl⟩ := h
  cases w with
  | nil => exact List.nil_prefix
  | cons c rest =>
    rw [isWordChars, Bool.and_eq_true] at hword
    rw [List.cons_append, leadingWord, if_pos hword.1,
      List.takeWhile_append_of_pos (List.all_eq_true.mp hword.2)]
    exact List.cons_prefix_cons.mpr ⟨rfl, List.prefix_append _ _⟩

theorem isWordChars_leadingWord {cs : List Char} (h : leadingWord cs ≠ []) :
    isWordChars (leadingWord cs) = true := by
  cases cs with
  | nil => exact absurd rfl h
  | cons c rest =>
    rw [leadingWord] at h ⊢
    split at h
    · next hc =>
      rw [if_pos hc, isWordChars, hc, Bool.true_and, List.all_eq_true]
      exact fun d hd => List.mem_takeWhile_imp hd
    · exact absurd rfl h

end Text

/-! ## The longest symbol -/

/-- A text stands where another one begins, and no longer one among the symbols does. -/
def IsLongestSymbol (symbols : List String) (text : String) (cs : List Char) : Prop :=
  text.toList <+: cs ∧ ∀ s ∈ symbols, s.toList <+: cs → s.length ≤ text.length

/-- Two symbols that are the longest ones at one place are the same. -/
theorem IsLongestSymbol.unique {symbols : List String} {text text' : String} {cs : List Char}
    (h : IsLongestSymbol symbols text cs) (h' : IsLongestSymbol symbols text' cs)
    (hmem : text ∈ symbols) (hmem' : text' ∈ symbols) : text = text' := by
  have hlength : text.toList.length = text'.toList.length := by
    rw [String.length_toList, String.length_toList]
    exact Nat.le_antisymm (h'.2 text hmem h.1) (h.2 text' hmem' h'.1)
  exact String.toList_inj.mp
    ((List.prefix_of_prefix_length_le h.1 h'.1 (Nat.le_of_eq hlength)).eq_of_length hlength)

/-- A text that is continued has more bytes exactly if it has more characters. -/
theorem utf8ByteSize_lt_iff {text longer : String} (h : text.toList <+: longer.toList) :
    text.utf8ByteSize < longer.utf8ByteSize ↔ text.length < longer.length := by
  obtain ⟨more, hmore⟩ := h
  have hlonger : longer = text ++ String.ofList more := by
    rw [← String.toList_inj, String.toList_append, String.toList_ofList, hmore]
  have hzero : (String.ofList more).utf8ByteSize = 0 ↔ (String.ofList more).length = 0 :=
    String.utf8ByteSize_eq_zero_iff.trans String.length_eq_zero_iff.symm
  rw [hlonger, String.utf8ByteSize_append, String.length_append]
  omega

namespace Matcher

variable {α : Type} {start stop : Cursor}

/-! ## What is matched as a word -/

/-- As many characters with a property are taken as follow each other. -/
theorem spans_of_takes_many_charWhere {f : Char → Bool} {values : List Char}
    (h : Takes (many (charWhere f)) start values stop) :
    start.Spans stop (start.rest.takeWhile f) := by
  obtain ⟨stop', hspans, hrest⟩ :=
    Cursor.exists_spans (List.takeWhile_append_dropWhile (p := f) (l := start.rest)).symm
  have hend : stop'.rest.head?.any f = false := by
    rw [hrest]
    have hhead := List.head?_dropWhile_not f start.rest
    cases hdrop : (start.rest.dropWhile f).head? with
    | none => rfl
    | some c =>
      rw [hdrop] at hhead
      exact hhead
  obtain ⟨values', h'⟩ :=
    exists_takes_many_charWhere hspans (fun _ hc => List.mem_takeWhile_imp hc) hend
  rwa [(h.unique h').2]

/-- Characters with a property are taken up to the first one without it. -/
theorem takes_many_charWhere {f : Char → Bool} (hspans : start.Spans stop (start.rest.takeWhile f)) :
    ∃ values, Takes (many (charWhere f)) start values stop := by
  rcases takes_or_fails_or_stalls (many (charWhere f)) start with
    ⟨values, stop', h⟩ | h | h
  · rw [hspans.unique (spans_of_takes_many_charWhere h)]
    exact ⟨values, h⟩
  · exact absurd h fails_many
  · exact absurd h (steady_many (eager_charWhere f)).settles

/-- **Words.**  The word that stands at a place is the longest one. -/
theorem takes_word_iff {found : String} :
    word.Takes start found stop ↔
      Text.leadingWord start.rest = found.toList ∧ found ≠ "" ∧ start.Spans stop found.toList := by
  constructor
  · intro h
    have hlt : start < stop := eager_word.consumes h
    obtain ⟨_, hword, htext⟩ := takes_textOf.mp h
    rw [Cursor.spanText_eq_between hlt] at htext
    obtain ⟨c, middle, hc, hrest⟩ := takes_bind.mp hword
    obtain ⟨hnext, hbegins⟩ := takes_satisfying.mp hc
    have hfirst := Cursor.spans_of_next? hnext
    have hspans := hfirst.append (spans_of_takes_many_charWhere hrest)
    -- The characters are the first one and as many as go on with it.
    have hchars : found.toList = c :: middle.rest.takeWhile Text.continuesWord := by
      rw [htext, hspans.between_eq, String.toList_ofList]
      rfl
    have hleading : Text.leadingWord start.rest = found.toList := by
      rw [hfirst.1, hchars]
      exact if_pos hbegins
    refine ⟨hleading, ?_, hchars ▸ hspans⟩
    rintro rfl
    cases hchars
  · rintro ⟨hleading, hne, hspans⟩
    obtain ⟨c, cs, hcs⟩ := List.exists_cons_of_ne_nil (mt String.toList_eq_nil_iff.mp hne)
    rw [hcs] at hleading hspans
    obtain ⟨next, hnext, hmore⟩ := hspans.exists_next
    rw [hspans.1, List.cons_append, Text.leadingWord] at hleading
    split at hleading
    · next hbegins =>
      -- What is behind the first character is exactly what goes on with it.
      have hmany : next.rest.takeWhile Text.continuesWord = cs := by
        rw [hmore.1]
        exact (List.cons.inj hleading).2
      obtain ⟨values, hvalues⟩ := takes_many_charWhere (hmany.symm ▸ hmore)
      have hc : (charWhere Text.beginsWord).Takes start c next :=
        takes_satisfying.mpr ⟨hnext, hbegins⟩
      have htext : found = start.spanText stop := by
        rw [Cursor.spanText_eq_between hspans.lt, hspans.between_eq, ← hcs, String.ofList_toList]
      exact takes_textOf.mpr ⟨values, takes_bind.mpr ⟨c, next, hc, hvalues⟩, htext⟩
    · cases hleading

/-! ## What is matched as a symbol -/

/-- The first of several matchers is the last one where all others fail. -/
theorem takes_firstOr_iff {last : Matcher α} {ps : List (Matcher α)} {a : α}
    (h : ∀ p ∈ ps, ∀ stop, ¬ p.Takes start a stop) :
    (firstOr last ps).Takes start a stop ↔
      last.Takes start a stop ∧ ∀ p ∈ ps, p.Fails start := by
  unfold firstOr
  induction ps with
  | nil => simp
  | cons p ps ih =>
    have hrest := ih fun q hq => h q (List.mem_cons_of_mem p hq)
    rw [List.foldr_cons, takes_orElse, hrest, List.forall_mem_cons]
    constructor
    · rintro (hp | ⟨hfails, hlast, hps⟩)
      · exact absurd hp (h p List.mem_cons_self stop)
      · exact ⟨hlast, hfails, hps⟩
    · rintro ⟨hlast, hfails, hps⟩
      exact Or.inr ⟨hfails, hlast, hps⟩

/-- A text is not matched exactly where it does not stand. -/
theorem fails_exactText_iff {text : String} :
    (exactText text).Fails start ↔ ¬ text.toList <+: start.rest := by
  constructor
  · rintro hfails ⟨more, hmore⟩
    obtain ⟨stop, hspans, _⟩ := Cursor.exists_spans hmore.symm
    have htext : (exactText text).Takes start () stop := takes_exactText.mpr hspans
    exact htext.not_fails hfails
  · intro hprefix
    rcases takes_or_fails_or_stalls (exactText text) start with ⟨_, stop, h⟩ | h | h
    · exact absurd ⟨stop.rest, (takes_exactText.mp h).1.symm⟩ hprefix
    · exact h
    · exact absurd h stalls_exactText

theorem mem_longerSymbols {symbols : List String} {text s : String} :
    s ∈ longerSymbols symbols text ↔
      s ∈ symbols ∧ text.toList <+: s.toList ∧ text.length < s.length := by
  rw [longerSymbols, List.mem_reverse, List.mem_filter, Bool.and_eq_true, decide_eq_true_eq,
    List.isPrefixOf_iff_prefix]
  exact and_congr_right fun _ => and_comm.trans
    ⟨fun h => ⟨h.1, (utf8ByteSize_lt_iff h.1).mp h.2⟩,
      fun h => ⟨h.1, (utf8ByteSize_lt_iff h.1).mpr h.2⟩⟩

/-- A text is the longest symbol where it stands and none of the longer symbols does that begin
with it. -/
theorem isLongestSymbol_iff {symbols : List String} {text : String} {cs : List Char} :
    IsLongestSymbol symbols text cs ↔
      text.toList <+: cs ∧ ∀ s ∈ longerSymbols symbols text, ¬ s.toList <+: cs := by
  refine and_congr_right fun h => ⟨fun hlongest s hs hstands => ?_, fun hnone s hs hstands => ?_⟩
  · obtain ⟨hmem, _, hlt⟩ := mem_longerSymbols.mp hs
    exact Nat.not_le.mpr hlt (hlongest s hmem hstands)
  · by_contra hlong
    have hlt : text.toList.length < s.toList.length := by
      rw [String.length_toList, String.length_toList]
      exact Nat.lt_of_not_le hlong
    have hbegins := List.prefix_of_prefix_length_le h hstands hlt.le
    exact hnone s (mem_longerSymbols.mpr ⟨hs, hbegins, Nat.lt_of_not_le hlong⟩) hstands

/-- The text itself is taken, and not one of the longer symbols that begin with it. -/
theorem takes_symbol_exact {symbols : List String} {text : String} :
    (firstOr (exactText text >>= fun _ => pure true) ((longerSymbols symbols text).map fun s =>
        exactText s >>= fun _ => pure false)).Takes start true stop ↔
      start.Spans stop text.toList ∧
        ∀ s ∈ longerSymbols symbols text, ¬ s.toList <+: start.rest := by
  rw [takes_firstOr_iff]
  · simp only [takes_bind, takes_pure, takes_exactText, true_and, List.forall_mem_map, fails_bind,
      fails_pure, and_false, exists_false, or_false, fails_exactText_iff]
    refine and_congr_left fun _ => ⟨?_, fun hspans => ⟨(), stop, hspans, rfl⟩⟩
    rintro ⟨_, _, hspans, rfl⟩
    exact hspans
  · intro p hp place h
    obtain ⟨s, _, rfl⟩ := List.mem_map.mp hp
    obtain ⟨_, _, _, hfalse⟩ := takes_bind.mp h
    cases (takes_pure.mp hfalse).1

/-- **Symbols.**  A symbol is matched exactly where it is the longest one. -/
theorem takes_symbol_iff {symbols : List String} {text found : String} :
    (symbol symbols text).Takes start found stop ↔
      IsLongestSymbol symbols text start.rest ∧ start.Spans stop text.toList ∧
        found = start.spanText stop := by
  constructor
  · intro h
    obtain ⟨⟨exact, span⟩, hspan, hok⟩ := takes_checked.mp h
    obtain ⟨hany, htext⟩ := takes_withText.mp hspan
    cases exact with
    | false => cases hok
    | true =>
      injection hok with hfound
      obtain ⟨hspans, hlonger⟩ := takes_symbol_exact.mp hany
      have hstands : text.toList <+: start.rest := ⟨stop.rest, hspans.1.symm⟩
      exact ⟨isLongestSymbol_iff.mpr ⟨hstands, hlonger⟩, hspans, hfound.symm.trans htext⟩
  · rintro ⟨hlongest, hspans, rfl⟩
    have hany := takes_symbol_exact.mpr ⟨hspans, (isLongestSymbol_iff.mp hlongest).2⟩
    exact takes_checked.mpr ⟨(true, start.spanText stop), takes_withText.mpr ⟨hany, rfl⟩, rfl⟩

end Matcher

end TypedGrammar
