import TypedGrammar.Proofs.Draft.KeyTermCopies
import TypedGrammar.Proofs.Draft.Renaming
import TypedGrammar.Proofs.Grammar.Likeness
import TypedGrammar.Proofs.Grammar.OperatorChains
import TypedGrammar.Proofs.OrderedChoice.Completeness
import TypedGrammar.Proofs.OrderedChoice.Entries

/-!
# Choices between key terms

The rule of a declaration of constants or operators is a choice between key terms.  Such rules of
two grammars read alike if the choices are between the same key terms, in orders in which the same
of them comes first wherever several stand, and if the grammars have the same symbols and comments.
-/

namespace TypedGrammar

namespace Drafting

/-- The matcher of a choice between key terms takes the first of them. -/
theorem matcher_choiceOf (term : TermIndex → Matcher (List Tree)) (keys : List TermIndex) :
    (choiceOf keys).matcher term = Shape.matchFirst term (keys.map .term) := by
  match keys with
  | [] => rfl
  | [_] => rfl
  | first :: second :: rest =>
    rw [choiceOf, foldl_or]
    rfl

end Drafting

/-- The entry with a choice between key terms as its rule. -/
def Entry.choosing (entry : Entry) (keys : List KeyTerm) : Entry :=
  { entry with kind := .rule (some (Drafting.choiceOf (keys.map KeyTerm.term))) }

/-- Somewhere behind a place the white space and the comments end. -/
theorem exists_skips (comments : List Comment) (start : Cursor) :
    ∃ place, Skips comments start place := by
  obtain ⟨text, place, h⟩ := Matcher.exists_takes_trivia comments start
  exact ⟨place, (Matcher.skips_of_takes_trivia h).1⟩

theorem alike_skipped {P Q : TermIndex → TermIndex → Prop} (start stop : Cursor) :
    List.Forall₂ (Tree.Alike P Q) (skipped start stop) (skipped start stop) := by
  rcases skipped_cases start stop with h | ⟨text, h⟩
  · rw [h]
    exact .nil
  · rw [h]
    exact .cons .trivia .nil

namespace BuiltGrammar

open Matcher

variable {a b built : BuiltGrammar} {i j index : TermIndex} {entry : Entry}
  {keys keys' : List KeyTerm} {key key' : KeyTerm} {room : ℕ} {start place stop : Cursor}
  {trees : List Tree}

/-- Two terms read alike if one fails where the other does, both match the same spans, and what they
match is read as parts that resemble each other, so with the same nodes, or with the same error. -/
structure ReadsAlike (a b : BuiltGrammar) (i j : TermIndex) : Prop where
  fails : ∀ room start, (a.language.taskMatcher room (.term i)).Fails start ↔
    (b.language.taskMatcher room (.term j)).Fails start
  spans : ∀ room start stop,
    (∃ trees, (a.language.taskMatcher room (.term i)).Takes start trees stop) ↔
      ∃ trees, (b.language.taskMatcher room (.term j)).Takes start trees stop
  parts : ∀ {room start stop stop' trees trees'},
    (a.language.taskMatcher room (.term i)).Takes start trees stop →
    (b.language.taskMatcher room (.term j)).Takes start trees' stop' →
      ∀ text source depth offset, PartsAlike ((a.reading text source).parts depth offset trees)
        ((b.reading text source).parts depth offset trees')

/-! ## One choice -/

/-- The term of an index is a choice between key terms, and each of these has a text. -/
structure Chooses (built : BuiltGrammar) (index : TermIndex) (entry : Entry)
    (keys : List KeyTerm) : Prop where
  rule : built.Has index (entry.choosing keys)
  terms : ∀ key ∈ keys, built.Has key.term key.toKeyRequest.entry
  texts : ∀ key ∈ keys, key.text ≠ "" ∧
    (Text.isWord key.text = false → key.text ∈ built.language.symbols)

theorem Chooses.areKeyTerms (h : built.Chooses index entry keys) :
    built.language.AreKeyTerms keys :=
  fun key hkey => ⟨_, (h.terms key hkey).1, rfl, (h.texts key hkey).1⟩

/-- The matcher of the rule takes the first of the key terms, if there is room for it. -/
theorem Chooses.taskMatcher (h : built.Chooses index entry keys) :
    built.language.taskMatcher room (.term index) =
      match room with
      | 0 => fail nestingMessage
      | room + 1 =>
        andThen (Shape.matchFirst (built.language.matchTerm built.language.lexicon room)
          (keys.map fun key => .term key.term)) fun children =>
            succeed (Language.ruleTrees index (entry.choosing keys).toTerm children) := by
  rw [Language.Defines.taskMatcher ⟨h.rule.1, rfl⟩]
  cases room with
  | zero => rfl
  | succ room =>
    simp only
    rw [Language.taskMatcher, Drafting.matcher_choiceOf, List.map_map]
    rfl

/-- A rule without key terms matches nothing, and never fails. -/
theorem Chooses.takes_nil (h : built.Chooses index entry []) :
    (built.language.taskMatcher (room + 1) (.term index)).Takes start trees stop ↔
      trees = Language.ruleTrees index (entry.choosing []).toTerm [] ∧ stop = start := by
  rw [h.taskMatcher]
  constructor
  · intro htakes
    obtain ⟨_, _, hnone, hrule⟩ := takes_andThen.mp htakes
    obtain ⟨rfl, rfl⟩ := takes_succeed.mp hnone
    exact takes_succeed.mp hrule
  · rintro ⟨rfl, rfl⟩
    exact takes_andThen.mpr ⟨[], _, takes_succeed.mpr ⟨rfl, rfl⟩, takes_succeed.mpr ⟨rfl, rfl⟩⟩

section First

variable (h : built.Chooses index entry keys) (hne : keys ≠ [])
  (hskips : Skips built.language.comments start place)
include h hne hskips

/-- Otherwise it takes the first key term that stands. -/
theorem Chooses.takes_iff :
    (built.language.taskMatcher (room + 1) (.term index)).Takes start trees stop ↔
      ∃ key, IsFirst (fun key => KeyStands built.language.symbols key.text place.rest) keys key ∧
        place.Spans stop key.text.toList ∧
          trees = Language.ruleTrees index (entry.choosing keys).toTerm
            (skipped start place ++ [.token (.term key.term) key.text]) := by
  rw [h.taskMatcher]
  constructor
  · intro htakes
    obtain ⟨children, middle, hchildren, hrule⟩ := takes_andThen.mp htakes
    obtain ⟨rfl, rfl⟩ := takes_succeed.mp hrule
    obtain ⟨key, hfirst, hspans, rfl⟩ :=
      (Language.takes_firstKeyTerm h.areKeyTerms hne hskips).mp hchildren
    exact ⟨key, hfirst, hspans, rfl⟩
  · rintro ⟨key, hfirst, hspans, rfl⟩
    refine takes_andThen.mpr ⟨_, stop, ?_, takes_succeed.mpr ⟨rfl, rfl⟩⟩
    exact (Language.takes_firstKeyTerm h.areKeyTerms hne hskips).mpr ⟨key, hfirst, hspans, rfl⟩

theorem Chooses.fails_iff :
    (built.language.taskMatcher (room + 1) (.term index)).Fails start ↔
      ∀ key ∈ keys, ¬ KeyStands built.language.symbols key.text place.rest := by
  rw [h.taskMatcher, ← Language.fails_firstKeyTerm h.areKeyTerms hne hskips]
  refine fails_andThen.trans (or_iff_left ?_)
  rintro ⟨_, _, _, hnever⟩
  exact fails_succeed hnever

end First

/-! ## Two choices -/

/-- Two grammars have the same symbols and comments, and a choice each, between the same key terms
with different texts. -/
structure ChooseSame (a b : BuiltGrammar) (i j : TermIndex) (entry : Entry)
    (keys keys' : List KeyTerm) : Prop where
  left : a.Chooses i entry keys
  right : b.Chooses j entry keys'
  name : a.language.name = b.language.name
  comments : a.language.comments = b.language.comments
  symbols : ∀ text, text ∈ a.language.symbols ↔ text ∈ b.language.symbols
  ignoresNames : ∀ maker, entry.maker = some maker → maker.IgnoresNames
  perm : (keys.map KeyTerm.toKeyRequest).Perm (keys'.map KeyTerm.toKeyRequest)
  nodup : (keys.map (·.text)).Nodup

namespace ChooseSame

theorem perm_texts (h : ChooseSame a b i j entry keys keys') :
    (keys.map (·.text)).Perm (keys'.map (·.text)) := by
  have htexts := h.perm.map (·.text)
  rwa [List.map_map, List.map_map] at htexts

theorem symm (h : ChooseSame a b i j entry keys keys') :
    ChooseSame b a j i entry keys' keys where
  left := h.right
  right := h.left
  name := h.name.symm
  comments := h.comments.symm
  symbols text := (h.symbols text).symm
  ignoresNames := h.ignoresNames
  perm := h.perm.symm
  nodup := h.perm_texts.nodup_iff.mp h.nodup

theorem eq_nil_iff (h : ChooseSame a b i j entry keys keys') : keys = [] ↔ keys' = [] := by
  rw [← List.length_eq_zero_iff, ← List.length_eq_zero_iff, ← List.length_map KeyTerm.toKeyRequest,
    h.perm.length_eq, List.length_map]

/-- If clashes are kept, then the first key term that stands is the same. -/
theorem isFirst (h : ChooseSame a b i j entry keys keys')
    (hkeeps : KeepsClashes (keys.map (·.text)) (keys'.map (·.text))) {cs : List Char}
    (hfirst : IsFirst (fun key => KeyStands a.language.symbols key.text cs) keys key) :
    ∃ key', IsFirst (fun key => KeyStands b.language.symbols key.text cs) keys' key' ∧
      key'.toKeyRequest = key.toKeyRequest := by
  have hrequest := isFirst_map (Q := fun r : KeyRequest => KeyStands a.language.symbols r.text cs)
    |>.mpr ⟨key, hfirst, rfl⟩
  have hrequest' := isFirst_request_of_perm h.perm (by rw [List.map_map]; exact h.nodup)
    (by rw [List.map_map, List.map_map]; exact hkeeps)
    (List.forall_mem_map.mpr h.left.texts) hrequest
  obtain ⟨key', hfirst', hsame⟩ := isFirst_map.mp hrequest'
  simp only [keyStands_congr h.symbols] at hfirst'
  exact ⟨key', hfirst', hsame⟩

/-- The rules make their nodes in the same way. -/
theorem makesAlike (h : ChooseSame a b i j entry keys keys') : MakesAlike a b i j :=
  ⟨_, _, _, _, h.left.rule, h.right.rule, rfl, rfl, rfl, rfl, h.ignoresNames⟩

/-- What is matched becomes like trees. -/
theorem ruleTrees (h : ChooseSame a b i j entry keys keys') {children children' : List Tree}
    (hchildren : List.Forall₂ (TreesAlike a b) children children') :
    List.Forall₂ (TreesAlike a b) (Language.ruleTrees i (entry.choosing keys).toTerm children)
      (Language.ruleTrees j (entry.choosing keys').toTerm children') :=
  Language.alike_ruleTrees rfl h.makesAlike hchildren

/-- What is matched in one grammar is matched in the other one. -/
theorem takes (h : ChooseSame a b i j entry keys keys')
    (hkeeps : KeepsClashes (keys.map (·.text)) (keys'.map (·.text)))
    (htakes : (a.language.taskMatcher room (.term i)).Takes start trees stop) :
    ∃ trees', (b.language.taskMatcher room (.term j)).Takes start trees' stop ∧
      List.Forall₂ (TreesAlike a b) trees trees' := by
  obtain ⟨place, hskips⟩ := exists_skips a.language.comments start
  have hskips' : Skips b.language.comments start place := h.comments ▸ hskips
  cases room with
  | zero =>
    rw [h.left.taskMatcher] at htakes
    exact absurd htakes takes_fail
  | succ room =>
    by_cases hnone : keys = []
    · obtain rfl := h.eq_nil_iff.mp hnone
      subst hnone
      obtain ⟨rfl, rfl⟩ := h.left.takes_nil.mp htakes
      exact ⟨_, h.right.takes_nil.mpr ⟨rfl, rfl⟩, h.ruleTrees .nil⟩
    · have hnone' := mt h.eq_nil_iff.mpr hnone
      obtain ⟨key, hfirst, hspans, rfl⟩ := (h.left.takes_iff hnone hskips).mp htakes
      obtain ⟨key', hfirst', hsame⟩ := h.isFirst hkeeps hfirst
      have htext : key'.text = key.text := congrArg KeyRequest.text hsame
      have hshares : SharesTerm a b key.term key'.term :=
        ⟨_, h.left.terms key hfirst.mem, hsame ▸ h.right.terms key' hfirst'.mem, rfl⟩
      refine ⟨_, (h.right.takes_iff hnone' hskips').mpr ⟨key', hfirst', htext ▸ hspans, rfl⟩,
        h.ruleTrees ?_⟩
      rw [htext]
      exact List.rel_append (alike_skipped start place) (.cons (.token hshares) .nil)

/-- Where one fails the other one fails, whatever the order. -/
theorem fails (h : ChooseSame a b i j entry keys keys')
    (hfails : (a.language.taskMatcher room (.term i)).Fails start) :
    (b.language.taskMatcher room (.term j)).Fails start := by
  obtain ⟨place, hskips⟩ := exists_skips a.language.comments start
  have hskips' : Skips b.language.comments start place := h.comments ▸ hskips
  cases room with
  | zero =>
    rw [h.right.taskMatcher]
    exact fails_fail
  | succ room =>
    by_cases hnone : keys = []
    · subst hnone
      exact absurd hfails (h.left.takes_nil.mpr ⟨rfl, rfl⟩).not_fails
    · rw [h.left.fails_iff hnone hskips] at hfails
      rw [h.right.fails_iff (mt h.eq_nil_iff.mpr hnone) hskips']
      -- A key term that stands in the second grammar is one of the first grammar as well.
      intro key' hkey' hstands
      obtain ⟨key, hkey, htext⟩ := List.mem_map.mp
        (h.perm_texts.mem_iff.mpr (List.mem_map_of_mem hkey'))
      rw [← keyStands_congr h.symbols, ← htext] at hstands
      exact hfails key hkey hstands

/-- **Choices that read alike.**  If each word stands before the same texts with which it clashes,
then the choices read alike. -/
theorem readsAlike (h : ChooseSame a b i j entry keys keys')
    (hkeeps : KeepsClashes (keys.map (·.text)) (keys'.map (·.text))) : ReadsAlike a b i j where
  fails _ _ := ⟨h.fails, h.symm.fails⟩
  spans _ _ _ := by
    constructor
    · rintro ⟨trees, htrees⟩
      obtain ⟨trees', htrees', _⟩ := h.takes hkeeps htrees
      exact ⟨trees', htrees'⟩
    · rintro ⟨trees, htrees⟩
      obtain ⟨trees', htrees', _⟩ := h.symm.takes (hkeeps.symm h.perm_texts) htrees
      exact ⟨trees', htrees'⟩
  parts htrees htrees' text source depth offset := by
    obtain ⟨found, hfound, hlike⟩ := h.takes hkeeps htrees
    obtain ⟨rfl, _⟩ := hfound.unique htrees'
    exact parts_alike text source h.name hlike depth offset

/-- Choices that match the same spans keep clashes, if no text begins like trivia. -/
theorem keepsClashes (h : ChooseSame a b i j entry keys keys') (hreads : ReadsAlike a b i j)
    (hskips : ∀ text ∈ keys.map (·.text),
      Skips a.language.comments (.start text.toList) (.start text.toList)) :
    KeepsClashes (keys.map (·.text)) (keys'.map (·.text)) := by
  have hsymbols : ∀ t ∈ keys.map (·.text), Text.isWord t = false → t ∈ a.language.symbols :=
    List.forall_mem_map.mpr fun key hkey => (h.left.texts key hkey).2
  -- The text itself shows which key term comes first where it stands.
  refine keepsClashes_of_isFirst hsymbols fun symbol hsymbol text hfirst => ?_
  obtain ⟨key, hkey, rfl⟩ := isFirst_map.mp hfirst
  have hnone : keys ≠ [] := List.ne_nil_of_mem hkey.mem
  obtain ⟨more, hmore⟩ := hkey.holds.isPrefix
  obtain ⟨stop, hspans, _⟩ : ∃ stop, (Cursor.start symbol.toList).Spans stop key.text.toList ∧
      stop.rest = more := Cursor.exists_spans hmore.symm
  obtain ⟨trees', htakes'⟩ := (hreads.spans 1 _ _).mp
    ⟨_, (h.left.takes_iff hnone (hskips symbol hsymbol)).mpr ⟨key, hkey, hspans, rfl⟩⟩
  obtain ⟨key', hkey', hspans', _⟩ := (h.right.takes_iff (mt h.eq_nil_iff.mpr hnone)
    (h.comments ▸ hskips symbol hsymbol)).mp htakes'
  have htext : key'.text = key.text :=
    String.toList_inj.mp (hspans'.taken_eq.symm.trans hspans.taken_eq)
  simp only [← keyStands_congr h.symbols] at hkey'
  exact isFirst_map.mpr ⟨key', hkey', htext⟩

end ChooseSame

end BuiltGrammar

end TypedGrammar
