import Mathlib.Data.List.Nodup
import TypedGrammar.Proofs.OrderedChoice.KeyTerms
import TypedGrammar.Proofs.Shape.Likeness

/-!
# The first key term that stands

A choice between key terms matches the first of them that stands at a place.  Two different ones
stand at one place only if one is a word and the other is not a word but begins with it.  So if each
word stands before the same ones of those others, then the first key term is the same in any order.
-/

namespace TypedGrammar

/-! ## First elements -/

section First

variable {α β : Type} {P : α → Prop} {Q : β → Prop} {xs : List α} {x y : α}

/-- The first element of a list that has a property. -/
def IsFirst (P : α → Prop) (xs : List α) (x : α) : Prop :=
  ∃ before after, xs = before ++ x :: after ∧ P x ∧ ∀ y ∈ before, ¬ P y

theorem IsFirst.mem (h : IsFirst P xs x) : x ∈ xs := by
  obtain ⟨before, after, rfl, _, _⟩ := h
  exact List.mem_append_right _ List.mem_cons_self

theorem IsFirst.holds (h : IsFirst P xs x) : P x := by
  obtain ⟨_, _, _, hx, _⟩ := h
  exact hx

theorem isFirst_cons : IsFirst P (y :: xs) x ↔ P y ∧ x = y ∨ ¬ P y ∧ IsFirst P xs x := by
  constructor
  · rintro ⟨before, after, hxs, hx, hbefore⟩
    cases before with
    | nil =>
      obtain ⟨rfl, rfl⟩ := List.cons.inj hxs
      exact Or.inl ⟨hx, rfl⟩
    | cons first before =>
      obtain ⟨rfl, rfl⟩ := List.cons.inj hxs
      rw [List.forall_mem_cons] at hbefore
      exact Or.inr ⟨hbefore.1, before, after, rfl, hx, hbefore.2⟩
  · rintro (⟨hy, rfl⟩ | ⟨hy, before, after, rfl, hx, hbefore⟩)
    · exact ⟨[], xs, rfl, hy, fun _ hmem => absurd hmem List.not_mem_nil⟩
    · exact ⟨y :: before, after, rfl, hx, List.forall_mem_cons.mpr ⟨hy, hbefore⟩⟩

/-- If any element has the property, then one is the first of these. -/
theorem exists_isFirst (hx : x ∈ xs) (hP : P x) : ∃ y, IsFirst P xs y := by
  induction xs with
  | nil => exact absurd hx List.not_mem_nil
  | cons y xs ih =>
    by_cases hy : P y
    · exact ⟨y, isFirst_cons.mpr (Or.inl ⟨hy, rfl⟩)⟩
    · rcases List.mem_cons.mp hx with rfl | hx
      · exact absurd hP hy
      · obtain ⟨z, hz⟩ := ih hx
        exact ⟨z, isFirst_cons.mpr (Or.inr ⟨hy, hz⟩)⟩

/-- A property of images is looked for among the images. -/
theorem isFirst_map {f : α → β} {z : β} :
    IsFirst Q (xs.map f) z ↔ ∃ x, IsFirst (fun x => Q (f x)) xs x ∧ f x = z := by
  induction xs with
  | nil =>
    constructor
    · exact fun h => absurd h.mem List.not_mem_nil
    · rintro ⟨_, h, _⟩
      exact absurd h.mem List.not_mem_nil
  | cons y xs ih =>
    rw [List.map_cons, isFirst_cons, ih]
    constructor
    · rintro (⟨hy, rfl⟩ | ⟨hy, x, hx, hz⟩)
      · exact ⟨y, isFirst_cons.mpr (Or.inl ⟨hy, rfl⟩), rfl⟩
      · exact ⟨x, isFirst_cons.mpr (Or.inr ⟨hy, hx⟩), hz⟩
    · rintro ⟨x, hx, rfl⟩
      rcases isFirst_cons.mp hx with ⟨hy, rfl⟩ | ⟨hy, hx⟩
      · exact Or.inl ⟨hy, rfl⟩
      · exact Or.inr ⟨hy, x, hx, rfl⟩

/-- The first element with the property stands before all others with it. -/
theorem IsFirst.idxOf_le [DecidableEq α] (h : IsFirst P xs x) (hy : P y) :
    xs.idxOf x ≤ xs.idxOf y := by
  obtain ⟨before, after, rfl, hx, hbefore⟩ := h
  have hxnot : x ∉ before := fun hmem => hbefore x hmem hx
  have hynot : y ∉ before := fun hmem => hbefore y hmem hy
  rw [List.idxOf_append_of_notMem hxnot, List.idxOf_append_of_notMem hynot, List.idxOf_cons_self]
  exact Nat.add_le_add_left (Nat.zero_le _) _

theorem IsFirst.idxOf_lt [DecidableEq α] (h : IsFirst P xs x) (hy : P y) (hne : x ≠ y) :
    xs.idxOf x < xs.idxOf y :=
  lt_of_le_of_ne (h.idxOf_le hy) fun hidx => hne ((List.idxOf_inj h.mem).mp hidx)

end First

/-! ## Clashes -/

/-- A word, and a text that is not a word but begins with it, and not with a longer word. -/
def Clashes (word symbol : String) : Prop :=
  Text.isWord word = true ∧ Text.isWord symbol = false ∧
    Text.leadingWord symbol.toList = word.toList

instance (word symbol : String) : Decidable (Clashes word symbol) :=
  inferInstanceAs (Decidable (_ ∧ _ ∧ _))

/-- Each word stands before the same texts with which it clashes. -/
def KeepsClashes (texts texts' : List String) : Prop :=
  ∀ word ∈ texts, ∀ symbol ∈ texts, Clashes word symbol →
    (texts.idxOf word < texts.idxOf symbol ↔ texts'.idxOf word < texts'.idxOf symbol)

instance (texts texts' : List String) : Decidable (KeepsClashes texts texts') :=
  inferInstanceAs (Decidable (∀ word ∈ texts, ∀ symbol ∈ texts, Clashes word symbol →
    (texts.idxOf word < texts.idxOf symbol ↔ texts'.idxOf word < texts'.idxOf symbol)))

section Clashing

variable {symbols symbols' : List String} {cs : List Char} {word symbol text text' : String}

/-- Where a key term stands depends on which symbols there are, and not on their order. -/
theorem keyStands_congr (h : ∀ s, s ∈ symbols ↔ s ∈ symbols') :
    KeyStands symbols text cs ↔ KeyStands symbols' text cs := by
  unfold KeyStands IsLongestSymbol
  simp only [h]

/-- The beginning of a word is a word, unless it is empty. -/
theorem isWordChars_of_prefix {ws vs : List Char} (h : Text.isWordChars ws = true) (hv : vs <+: ws)
    (hne : vs ≠ []) : Text.isWordChars vs = true := by
  obtain ⟨more, rfl⟩ := hv
  cases vs with
  | nil => exact absurd rfl hne
  | cons c rest =>
    rw [List.cons_append, Text.isWordChars, Bool.and_eq_true, List.all_append, Bool.and_eq_true] at h
    rw [Text.isWordChars, h.1, h.2.1]
    rfl

/-- A word and another text that stand at one place clash. -/
theorem KeyStands.clashes (hword : Text.isWord word = true) (hsymbol : Text.isWord symbol = false)
    (hne : symbol ≠ "") (h : KeyStands symbols word cs) (h' : KeyStands symbols symbol cs) :
    Clashes word symbol := by
  have hleading := (keyStands_word hword).mp h
  have hlonger : word.toList <+: symbol.toList := by
    rcases List.prefix_or_prefix_of_prefix h.isPrefix h'.isPrefix with hlonger | hshorter
    · exact hlonger
    · have hwhole := isWordChars_of_prefix hword hshorter (mt String.toList_eq_nil_iff.mp hne)
      exact absurd (hwhole.symm.trans hsymbol) (by decide)
  have hle := Text.prefix_leadingWord hword hlonger
  have hnonempty : Text.leadingWord symbol.toList ≠ [] := fun hnil =>
    ne_empty_of_isWord hword (String.toList_eq_nil_iff.mp (List.prefix_nil.mp (hnil ▸ hle)))
  -- The longest word in the other text also stands at the place, so it is not longer.
  have hge : Text.leadingWord symbol.toList <+: word.toList := by
    rw [← hleading]
    exact Text.prefix_leadingWord (Text.isWordChars_leadingWord hnonempty)
      ((Text.leadingWord_prefix _).trans h'.isPrefix)
  exact ⟨hword, hsymbol, (hge.eq_of_length (Nat.le_antisymm hge.length_le hle.length_le))⟩

/-- Two different key terms that stand at one place clash. -/
theorem clashes_of_stands (hempty : text ≠ "") (hempty' : text' ≠ "")
    (hmem : Text.isWord text = false → text ∈ symbols)
    (hmem' : Text.isWord text' = false → text' ∈ symbols) (hne : text ≠ text')
    (h : KeyStands symbols text cs) (h' : KeyStands symbols text' cs) :
    Clashes text text' ∨ Clashes text' text := by
  cases hword : Text.isWord text with
  | true =>
    cases hword' : Text.isWord text' with
    | true =>
      have heq := ((keyStands_word hword).mp h).symm.trans ((keyStands_word hword').mp h')
      exact absurd (String.toList_inj.mp heq) hne
    | false => exact Or.inl (h.clashes hword hword' hempty' h')
  | false =>
    cases hword' : Text.isWord text' with
    | true => exact Or.inr (h'.clashes hword' hword hempty h)
    | false =>
      exact absurd (((keyStands_symbol hword).mp h).unique ((keyStands_symbol hword').mp h')
        (hmem hword) (hmem' hword')) hne

variable {texts texts' : List String}

/-- **The order of key terms.**  In any order in which each word stands before the same texts with
which it clashes, the same key term is the first one that stands at a place. -/
theorem isFirst_of_perm (hperm : texts.Perm texts') (hkeeps : KeepsClashes texts texts')
    (hsymbols : ∀ t ∈ texts, t ≠ "" ∧ (Text.isWord t = false → t ∈ symbols))
    (h : IsFirst (KeyStands symbols · cs) texts text) :
    IsFirst (KeyStands symbols · cs) texts' text := by
  -- If two different texts came first, then these would clash, and come in both orders.
  obtain ⟨text', h'⟩ := exists_isFirst (P := (KeyStands symbols · cs)) (hperm.mem_iff.mp h.mem)
    h.holds
  by_cases heq : text = text'
  · rwa [heq]
  · have hmem' := hperm.mem_iff.mpr h'.mem
    have hlt := h.idxOf_lt h'.holds heq
    have hlt' := h'.idxOf_lt h.holds (Ne.symm heq)
    obtain ⟨hempty, hsymbol⟩ := hsymbols text h.mem
    obtain ⟨hempty', hsymbol'⟩ := hsymbols text' hmem'
    rcases clashes_of_stands hempty hempty' hsymbol hsymbol' heq h.holds h'.holds with
      hclash | hclash
    · exact absurd ((hkeeps text h.mem text' hmem' hclash).mp hlt) hlt'.not_gt
    · exact absurd ((hkeeps text' hmem' text h.mem hclash).mpr hlt') hlt.not_gt

theorem KeepsClashes.symm (h : KeepsClashes texts texts') (hperm : texts.Perm texts') :
    KeepsClashes texts' texts := by
  intro word hword symbol hsymbol hclash
  exact (h word (hperm.mem_iff.mpr hword) symbol (hperm.mem_iff.mpr hsymbol) hclash).symm

/-- No other order will do: if the first key term is the same wherever one of the texts stands, then
each word stands before the same texts with which it clashes. -/
theorem keepsClashes_of_isFirst
    (hsymbols : ∀ t ∈ texts, Text.isWord t = false → t ∈ symbols)
    (h : ∀ symbol ∈ texts, ∀ text, IsFirst (KeyStands symbols · symbol.toList) texts text →
      IsFirst (KeyStands symbols · symbol.toList) texts' text) : KeepsClashes texts texts' := by
  rintro word hword symbol hsymbol ⟨hisWord, hnot, hleading⟩
  have hstands : KeyStands symbols word symbol.toList := (keyStands_word hisWord).mpr hleading
  have hlongest : IsLongestSymbol symbols symbol symbol.toList :=
    ⟨List.prefix_rfl, fun s _ hprefix => by
      rw [← String.length_toList, ← String.length_toList]
      exact hprefix.length_le⟩
  have hstands' : KeyStands symbols symbol symbol.toList := (keyStands_symbol hnot).mpr hlongest
  have hne : word ≠ symbol := by
    rintro rfl
    exact absurd (hisWord.symm.trans hnot) (by decide)
  obtain ⟨first, hfirst⟩ := exists_isFirst (P := (KeyStands symbols · symbol.toList)) hword hstands
  have hfirst' := h symbol hsymbol first hfirst
  -- Where the symbol stands there are only the two of them.
  have hboth : first = word ∨ first = symbol := by
    cases hcase : Text.isWord first with
    | true =>
      have hsame := ((keyStands_word hcase).mp hfirst.holds).symm.trans hleading
      exact Or.inl (String.toList_inj.mp hsame)
    | false =>
      exact Or.inr (((keyStands_symbol hcase).mp hfirst.holds).unique hlongest
        (hsymbols first hfirst.mem hcase) (hsymbols symbol hsymbol hnot))
  rcases hboth with rfl | rfl
  · exact iff_of_true (hfirst.idxOf_lt hstands' hne) (hfirst'.idxOf_lt hstands' hne)
  · exact iff_of_false (hfirst.idxOf_le hstands).not_gt (hfirst'.idxOf_le hstands).not_gt

/-- Requests with different texts are known by these, so the request for the first key term that
stands is the same as well. -/
theorem isFirst_request_of_perm {requests requests' : List KeyRequest} {request : KeyRequest}
    (hperm : requests.Perm requests') (hnodup : (requests.map (·.text)).Nodup)
    (hkeeps : KeepsClashes (requests.map (·.text)) (requests'.map (·.text)))
    (hsymbols : ∀ r ∈ requests, r.text ≠ "" ∧ (Text.isWord r.text = false → r.text ∈ symbols))
    (h : IsFirst (fun r => KeyStands symbols r.text cs) requests request) :
    IsFirst (fun r => KeyStands symbols r.text cs) requests' request := by
  have hfirst := isFirst_of_perm (hperm.map (·.text)) hkeeps (List.forall_mem_map.mpr hsymbols)
    (isFirst_map.mpr ⟨request, h, rfl⟩)
  obtain ⟨request', h', htext⟩ := isFirst_map.mp hfirst
  have hsame := List.inj_on_of_nodup_map hnodup (hperm.mem_iff.mpr h'.mem) h.mem htext
  rwa [hsame] at h'

end Clashing

/-! ## Choices -/

namespace Language

open Matcher Shape

variable {language : Language} {room : ℕ} {start place stop : Cursor} {trees : List Tree}
  {keys : List KeyTerm}

/-- Each key term stands for its text, which is not empty. -/
def AreKeyTerms (language : Language) (keys : List KeyTerm) : Prop :=
  ∀ key ∈ keys, ∃ term, language.term? key.term = some term ∧ term.kind = .key key.text ∧
    key.text ≠ ""

variable (hkeys : language.AreKeyTerms keys) (hne : keys ≠ [])
  (hskips : Skips language.comments start place)
include hkeys hne hskips

/-- A choice between key terms takes the first one that stands. -/
theorem takes_firstKeyTerm :
    (matchFirst (language.matchTerm language.lexicon room)
        (keys.map fun key => .term key.term)).Takes start trees stop ↔
      ∃ key, IsFirst (fun key => KeyStands language.symbols key.text place.rest) keys key ∧
        place.Spans stop key.text.toList ∧
          trees = skipped start place ++ [.token (.term key.term) key.text] := by
  induction keys with
  | nil => exact absurd rfl hne
  | cons key rest ih =>
    obtain ⟨hfirst, hrest⟩ := List.forall_mem_cons.mp hkeys
    obtain ⟨term, hterm, hkind, htext⟩ := hfirst
    have htakes : (language.taskMatcher room (.term key.term)).Takes start trees stop ↔ _ :=
      takes_keyTerm_iff hterm hkind htext hskips
    have hfails : (language.taskMatcher room (.term key.term)).Fails start ↔ _ :=
      fails_keyTerm_iff hterm hkind htext hskips
    simp only [isFirst_cons]
    -- The last key term is tried alone; before another one a choice is left if it fails.
    match rest, ih with
    | [], _ =>
      show (language.taskMatcher room (.term key.term)).Takes start trees stop ↔ _
      rw [htakes]
      constructor
      · rintro ⟨hstands, h⟩
        exact ⟨key, Or.inl ⟨hstands, rfl⟩, h⟩
      · rintro ⟨found, ⟨hstands, rfl⟩ | ⟨_, hnone⟩, h⟩
        · exact ⟨hstands, h⟩
        · exact absurd hnone.mem List.not_mem_nil
    | second :: others, ih =>
      have hrest := ih hrest (List.cons_ne_nil _ _)
      rw [List.map_cons] at hrest
      rw [List.map_cons, List.map_cons, matchFirst_cons_cons, takes_orElse, hrest]
      show (language.taskMatcher room (.term key.term)).Takes start trees stop ∨
        (language.taskMatcher room (.term key.term)).Fails start ∧ _ ↔ _
      rw [htakes, hfails]
      constructor
      · rintro (⟨hstands, h⟩ | ⟨hstands, found, hfound, h⟩)
        · exact ⟨key, Or.inl ⟨hstands, rfl⟩, h⟩
        · exact ⟨found, Or.inr ⟨hstands, hfound⟩, h⟩
      · rintro ⟨found, ⟨hstands, rfl⟩ | ⟨hstands, hfound⟩, h⟩
        · exact Or.inl ⟨hstands, h⟩
        · exact Or.inr ⟨hstands, found, hfound, h⟩

/-- It fails where none of them stands. -/
theorem fails_firstKeyTerm :
    (matchFirst (language.matchTerm language.lexicon room)
        (keys.map fun key => .term key.term)).Fails start ↔
      ∀ key ∈ keys, ¬ KeyStands language.symbols key.text place.rest := by
  induction keys with
  | nil => exact absurd rfl hne
  | cons key rest ih =>
    obtain ⟨hfirst, hrest⟩ := List.forall_mem_cons.mp hkeys
    obtain ⟨term, hterm, hkind, htext⟩ := hfirst
    have hfails : (language.taskMatcher room (.term key.term)).Fails start ↔ _ :=
      fails_keyTerm_iff hterm hkind htext hskips
    match rest, ih with
    | [], _ =>
      rw [List.forall_mem_singleton]
      exact hfails
    | second :: others, ih =>
      have hrest := ih hrest (List.cons_ne_nil _ _)
      rw [List.map_cons] at hrest
      rw [List.map_cons, List.map_cons, matchFirst_cons_cons, fails_orElse, hrest,
        List.forall_mem_cons (a := key)]
      exact and_congr_left fun _ => hfails

end Language

end TypedGrammar
