import TypedGrammar.Proofs.Matching.TokenForms
import TypedGrammar.Rule.Declaration

/-!
# Quoted tokens

Between quotes, a backslash belongs to the character behind it, for the matcher of quoted tokens as
for the reader of their texts.  So every token that is matched can be read.  A quoted token is
matched up to its own closing quote, whatever follows it; and what is read of the token that is
written for a text, with a backslash before each quote and each backslash, is the text again.
-/

namespace TypedGrammar

open LiteralForm

namespace Text

variable {quote c : Char} {cs item : List Char} {items : List (List Char)}

/-- A character as it is written between quotes: with a backslash before it, if it is a quote or a
backslash. -/
def guarded (quote c : Char) : List Char :=
  if c = quote ∨ c = '\\' then ['\\', c] else [c]

/-- The token between quotes that is written for a text. -/
def quotedToken (quote : Char) (text : String) : String :=
  String.ofList (quote :: (text.toList.flatMap (guarded quote) ++ [quote]))

theorem isQuotedItem_guarded (quote c : Char) : IsQuotedItem quote (guarded quote c) := by
  rw [guarded]
  split
  · exact .escaped
  · next hplain =>
    obtain ⟨hquote, hbackslash⟩ := not_or.mp hplain
    exact .plain hquote hbackslash

/-- What is written for a text is a quoted token. -/
theorem spells_quotedToken (quote : Char) (text : String) :
    (LiteralForm.quoted quote).Spells (quotedToken quote text).toList := by
  refine ⟨text.toList.map (guarded quote),
    List.forall_mem_map.mpr fun c _ => isQuotedItem_guarded quote c, ?_⟩
  rw [quotedToken, String.toList_ofList, List.flatMap_def]

/-! ## Reading -/

theorem unescape_cons (h : c ≠ '\\') (rest : List Char) :
    unescape (c :: rest) = (unescape rest).map (c :: ·) := by
  rw [unescape]
  · rintro rfl
    exact absurd rfl h
  · rintro _ _ rfl
    exact absurd rfl h

/-- Only four characters stand for another one behind a backslash. -/
theorem unescaped_eq_self (h : c ∉ ['n', 't', 'r', '0']) : unescaped c = c := by
  simp only [List.mem_cons, List.not_mem_nil, or_false, not_or] at h
  obtain ⟨hn, ht, hr, hzero⟩ := h
  unfold unescaped
  split <;> first | contradiction | rfl

/-- An item is read as one character, whatever follows it. -/
theorem exists_unescape_item (h : IsQuotedItem quote item) :
    ∃ c, ∀ rest, unescape (item ++ rest) = (unescape rest).map (c :: ·) := by
  cases h with
  | plain _ hbackslash => exact ⟨_, unescape_cons hbackslash⟩
  | escaped => exact ⟨_, fun rest => by rw [List.cons_append, List.cons_append, unescape]; rfl⟩

/-- Items that follow each other can be read, as no backslash is left alone. -/
theorem exists_unescape_items (h : ∀ item ∈ items, IsQuotedItem quote item) :
    ∃ text, unescape items.flatten = some text := by
  induction items with
  | nil => exact ⟨[], rfl⟩
  | cons item rest ih =>
    obtain ⟨hitem, hrest⟩ := List.forall_mem_cons.mp h
    obtain ⟨c, hc⟩ := exists_unescape_item hitem
    obtain ⟨text, htext⟩ := ih hrest
    exact ⟨c :: text, by rw [List.flatten_cons, hc, htext, Option.map_some]⟩

/-- A character that is written between quotes is read as itself. -/
theorem unescape_guarded (h : quote ∉ ['n', 't', 'r', '0']) (rest : List Char) :
    unescape (guarded quote c ++ rest) = (unescape rest).map (c :: ·) := by
  rw [guarded]
  split
  · next hescaped =>
    have hself : unescaped c = c := by
      rcases hescaped with rfl | rfl
      · exact unescaped_eq_self h
      · exact unescaped_eq_self (by decide)
    rw [List.cons_append, List.cons_append, unescape, hself]
    rfl
  · next hplain => exact unescape_cons (not_or.mp hplain).2 rest

theorem unescape_flatMap_guarded (h : quote ∉ ['n', 't', 'r', '0']) (cs : List Char) :
    unescape (cs.flatMap (guarded quote)) = some cs := by
  induction cs with
  | nil => rfl
  | cons c cs ih => rw [List.flatMap_cons, unescape_guarded h, ih, Option.map_some]

/-- What is read of a token is what stands between its quotes. -/
theorem unquote_eq {raw : String} (h : raw.toList = quote :: (cs ++ [quote])) :
    unquote raw quote = (unescape cs).map String.ofList := by
  have hbetween : betweenQuotes quote raw.toList = some cs := by
    rw [h, betweenQuotes, List.getLast?_concat, List.dropLast_concat, if_pos (by simp)]
  rw [unquote, hbetween, Option.bind_some]

end Text

namespace Matcher

open Text

variable {quote : Char} {rest item : List Char} {items : List (List Char)} {start stop : Cursor}
  {raw : String}

/-! ## Matching -/

/-- The opening quote is not matched as an item where it stands alone. -/
theorem fails_quotedItem (h : start.rest = quote :: rest) (hquote : quote ≠ '\\') :
    (quotedItem quote).Fails start := by
  have hhead : start.rest.head? = some quote := by rw [h, List.head?_cons]
  refine fails_orElse.mpr ⟨fails_bind.mpr (Or.inl (fails_satisfying.mpr ?_)),
    fails_bind.mpr (Or.inl (fails_andThen.mpr (Or.inl (fails_satisfying.mpr ?_))))⟩
  · simp [hhead]
  · simp [hhead, hquote]

/-- An item is matched as a whole, whatever follows it. -/
theorem takes_quotedItem (hitem : IsQuotedItem quote item) (h : start.Spans stop item) :
    (quotedItem quote).Takes start () stop := by
  cases hitem with
  | plain hquote hbackslash =>
    obtain ⟨next, hc, hnil⟩ := h.exists_next
    obtain rfl := hnil.eq_of_nil
    exact takes_orElse.mpr (Or.inl (takes_bind.mpr ⟨_, stop,
      takes_satisfying.mpr ⟨hc, by simp [hquote, hbackslash]⟩, takes_pure.mpr ⟨rfl, rfl⟩⟩))
  | escaped =>
    -- A backslash begins no plain item, so the two characters are matched together.
    obtain ⟨middle, hbackslash, hspans⟩ := h.exists_next
    obtain ⟨next, hc, hnil⟩ := hspans.exists_next
    obtain rfl := hnil.eq_of_nil
    have hplain : ((charWhere fun c => c != quote && c != '\\') >>= fun _ =>
        (pure () : Matcher Unit)).Fails start := by
      refine fails_bind.mpr (Or.inl (fails_satisfying.mpr ?_))
      rw [(Cursor.spans_of_next? hbackslash).1]
      simp
    exact takes_orElse.mpr (Or.inr ⟨hplain, takes_bind.mpr ⟨(), middle,
      takes_exactly.mpr (Cursor.spans_of_next? hbackslash), takes_bind.mpr ⟨_, stop,
        takes_satisfying.mpr ⟨hc, rfl⟩, takes_pure.mpr ⟨rfl, rfl⟩⟩⟩⟩)

/-- Items are matched up to the quote behind them. -/
theorem exists_takes_many_quotedItem (hitems : ∀ item ∈ items, IsQuotedItem quote item)
    (hspans : start.Spans stop items.flatten) (hstop : stop.rest = quote :: rest)
    (hquote : quote ≠ '\\') :
    ∃ values, Takes (many (quotedItem quote)) start values stop := by
  induction items generalizing start with
  | nil =>
    obtain rfl := hspans.eq_of_nil
    exact ⟨[], takes_many.mpr (Or.inl ⟨fails_quotedItem hstop hquote, rfl, rfl⟩)⟩
  | cons item items ih =>
    obtain ⟨hitem, hmore⟩ := List.forall_mem_cons.mp hitems
    rw [List.flatten_cons] at hspans
    obtain ⟨middle, hfirst, hlast⟩ := hspans.split
    have htakes := takes_quotedItem hitem hfirst
    obtain ⟨values, hvalues⟩ := ih hmore hlast
    have hlt : start < middle := (eager_quotedItem quote).consumes htakes
    exact ⟨() :: values, takes_many.mpr (Or.inr ⟨(), middle, values, htakes,
      (Cursor.remaining_lt_iff hlt.le).mpr hlt, hvalues, rfl⟩)⟩

/-- A quoted token is matched as a whole, whatever follows it. -/
theorem exists_takes_literal_quoted (hquote : quote ≠ '\\')
    (hspells : (LiteralForm.quoted quote).Spells raw.toList)
    (h : start.rest = raw.toList ++ rest) :
    ∃ stop, (literal (.quoted quote)).Takes start raw stop ∧ stop.rest = rest := by
  obtain ⟨items, hitems, hraw⟩ := hspells
  rw [hraw, List.cons_append, List.append_assoc] at h
  change start.rest = [quote] ++ _ at h
  obtain ⟨first, hopening, hfirst⟩ := Cursor.exists_spans h
  obtain ⟨last, hinside, hlast⟩ := Cursor.exists_spans hfirst
  obtain ⟨stop, hclosing, hstop⟩ := Cursor.exists_spans hlast
  obtain ⟨values, hvalues⟩ := exists_takes_many_quotedItem hitems hinside hlast hquote
  have hquoted : (Matcher.quoted quote).Takes start () stop :=
    takes_bind.mpr ⟨(), first, takes_exactly.mpr hopening, takes_bind.mpr ⟨values, last, hvalues,
      takes_exactly.mpr hclosing⟩⟩
  have hlt : start < stop := (eager_quoted quote).consumes hquoted
  have htext : start.spanText stop = raw := by
    rw [Cursor.spanText_eq_between hlt, (hopening.append (hinside.append hclosing)).between_eq,
      List.singleton_append, ← hraw, String.ofList_toList]
  exact ⟨stop, takes_textOf.mpr ⟨(), hquoted, htext.symm⟩, hstop⟩

end Matcher

namespace Text

open Matcher

/-- **Quoted tokens.**  Whatever is matched between two quotes can be read, so literals of quoted
texts reject no token that is matched.  The token that is written for a text, with a backslash
before each quote and each backslash, is matched as it is in front of anything, and the text is read
from it; the quote must not be a backslash, nor one of the characters that stand for another one
behind a backslash. -/
theorem unquote_of_takes (quote : Char) :
    (∀ start raw stop, (literal (.quoted quote)).Takes start raw stop →
      ∃ text, unquote raw quote = some text) ∧
    (∀ start raw stop, (literal LiteralDeclaration.string.form).Takes start raw stop →
      ∃ text, LiteralDeclaration.string.read raw = some (.text text)) ∧
    (quote ∉ ['\\', 'n', 't', 'r', '0'] → ∀ (text : String) (rest : List Char) (start : Cursor),
      start.rest = (quotedToken quote text).toList ++ rest →
        (∃ stop, (literal (.quoted quote)).Takes start (quotedToken quote text) stop ∧
          stop.rest = rest) ∧
        unquote (quotedToken quote text) quote = some text) := by
  have hread : ∀ quote start raw stop, (literal (.quoted quote)).Takes start raw stop →
      ∃ text, unquote raw quote = some text := by
    intro quote start raw stop htakes
    obtain ⟨items, hitems, hraw⟩ := spells_of_takes_literal htakes
    obtain ⟨text, htext⟩ := exists_unescape_items hitems
    exact ⟨String.ofList text, by rw [unquote_eq hraw, htext, Option.map_some]⟩
  refine ⟨hread quote, fun start raw stop htakes => ?_, fun hquote text rest start hrest => ?_⟩
  · obtain ⟨text, htext⟩ := hread _ start raw stop htakes
    exact ⟨text, Option.bind_eq_some_iff.mpr ⟨text, htext, rfl⟩⟩
  · obtain ⟨hbackslash, hplain⟩ := not_or.mp (mt List.mem_cons.mpr hquote)
    refine ⟨exists_takes_literal_quoted hbackslash (spells_quotedToken quote text) hrest, ?_⟩
    have htoken : (quotedToken quote text).toList =
        quote :: (text.toList.flatMap (guarded quote) ++ [quote]) := String.toList_ofList
    rw [unquote_eq htoken, unescape_flatMap_guarded hplain, Option.map_some,
      String.ofList_toList]

/-- A quote and a backslash, as a text. -/
def quoteAndBackslash : String :=
  String.ofList ['"', '\\']

/-- A quote and a backslash are written with a backslash before each of them, and read again in
front of another quote. -/
theorem unquote_of_takes_quoteAndBackslash :
    '"' ∉ ['\\', 'n', 't', 'r', '0'] ∧
      (quotedToken '"' quoteAndBackslash).toList = ['"', '\\', '"', '\\', '\\', '"'] ∧
      (∃ stop, (literal (.quoted '"')).Takes (.start ['"', '\\', '"', '\\', '\\', '"', '"'])
        (quotedToken '"' quoteAndBackslash) stop ∧ stop.rest = ['"']) ∧
      unquote (quotedToken '"' quoteAndBackslash) '"' = some quoteAndBackslash := by
  have hquote : '"' ∉ ['\\', 'n', 't', 'r', '0'] := by decide
  have htoken : (quotedToken '"' quoteAndBackslash).toList =
      ['"', '\\', '"', '\\', '\\', '"'] := by
    simp [quotedToken, quoteAndBackslash, guarded]
  have hrest : (Cursor.start ['"', '\\', '"', '\\', '\\', '"', '"']).rest =
      (quotedToken '"' quoteAndBackslash).toList ++ ['"'] := by
    rw [htoken]
    rfl
  obtain ⟨_, _, hwritten⟩ := unquote_of_takes '"'
  obtain ⟨htakes, hunquote⟩ := hwritten hquote quoteAndBackslash ['"'] _ hrest
  exact ⟨hquote, htoken, htakes, hunquote⟩

end Text

end TypedGrammar
