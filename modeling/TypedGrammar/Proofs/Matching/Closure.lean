import Mathlib.Data.Nat.Notation
import TypedGrammar.Matching.Parse
import TypedGrammar.Proofs.Shape.Parts

/-!
# Properties of all matchers

Tokens, trivia, rules and whole documents are matched by few matchers, put together in few ways.  A
property that is kept by all of these ways is had by all matchers of a language.
-/

namespace TypedGrammar

namespace Matcher

/-- A property that all ways to put matchers together keep. -/
structure Closed (P : ∀ {α : Type}, Matcher α → Prop) : Prop where
  succeed : ∀ {α : Type} (value : α), P (Matcher.succeed value)
  fail : ∀ {α : Type} (message : String), P (Matcher.fail message : Matcher α)
  andThen : ∀ {α β : Type} {p : Matcher α} {f : α → Matcher β}, P p → (∀ a, P (f a)) →
    P (Matcher.andThen p f)
  orElse : ∀ {α : Type} {p q : Matcher α}, P p → P q → P (Matcher.orElse p q)
  optional : ∀ {α : Type} {p : Matcher α}, P p → P (Matcher.optional p)
  many : ∀ {α : Type} {p : Matcher α}, P p → P (Matcher.many p)
  skipPast : ∀ {α : Type} {p : Matcher α}, P p → P (Matcher.skipPast p)
  satisfying : ∀ (f : Char → Bool) (expected : List (Option Char)),
    P (Matcher.satisfying f expected)
  atEnd : P Matcher.atEnd
  withText : ∀ {α : Type} {p : Matcher α}, P p → P (Matcher.withText p)
  checked : ∀ {α β : Type} {p : Matcher α} {check : α → Except String β}, P p →
    P (Matcher.checked p check)

end Matcher

namespace Matcher.Closed

variable {P : ∀ {α : Type}, Matcher α → Prop} (h : Closed P) {α β : Type} {p q : Matcher α}
  {ps : List (Matcher α)}
include h

/-! ## Sequence and choice -/

/-- Giving a value has the property. -/
theorem pure (value : α) : P (Pure.pure value : Matcher α) :=
  h.succeed value

/-- One matcher after the other has the property, if both have it. -/
theorem bind {f : α → Matcher β} (hp : P p) (hf : ∀ a, P (f a)) : P (p >>= f) :=
  h.andThen hp hf

/-- A choice between any number of matchers has the property, if all have it. -/
theorem foldl_orElse (hps : ∀ r ∈ ps, P r) (hq : P q) : P (ps.foldl Matcher.orElse q) := by
  induction ps generalizing q with
  | nil => exact hq
  | cons r ps ih =>
    rw [List.foldl_cons]
    apply ih
    · exact fun s hs => hps s (List.mem_cons_of_mem r hs)
    · exact h.orElse hq (hps r List.mem_cons_self)

/-- The first of some matchers that succeeds, or another one, has the property, if all have it. -/
theorem firstOr (hps : ∀ r ∈ ps, P r) (hq : P q) : P (Matcher.firstOr q ps) := by
  unfold Matcher.firstOr
  induction ps with
  | nil => exact hq
  | cons r ps ih =>
    rw [List.foldr_cons]
    apply h.orElse (hps r List.mem_cons_self)
    exact ih fun s hs => hps s (List.mem_cons_of_mem r hs)

/-! ## Characters -/

theorem charWhere (f : Char → Bool) : P (Matcher.charWhere f) :=
  h.satisfying f []

theorem oneOf (cs : List Char) : P (Matcher.oneOf cs) :=
  h.satisfying _ _

theorem exactly (cs : List Char) : P (Matcher.exactly cs) := by
  induction cs with
  | nil => exact h.succeed ()
  | cons c cs ih => exact h.andThen (h.oneOf [c]) fun _ => ih

theorem exactText (text : String) : P (Matcher.exactText text) :=
  h.exactly text.toList

/-! ## Trivia -/

/-- Looking for the first of some texts has the property, if there are any. -/
theorem firstText {texts : List String} {stop : Matcher Unit} (hstop : firstText? texts = some stop) :
    P stop := by
  cases texts with
  | nil => cases hstop
  | cons text texts =>
    obtain rfl := Option.some.inj hstop
    refine h.foldl_orElse ?_ (h.exactText text)
    intro r hr
    obtain ⟨s, _, rfl⟩ := List.mem_map.mp hr
    exact h.exactText s

/-- A comment has the property, closed or not. -/
theorem comment (c : Comment) : P (Matcher.comment c) := by
  refine h.bind (h.exactText _) fun _ => ?_
  split
  · exact h.bind (h.many (h.charWhere _)) fun _ => h.pure ()
  · split
    · next stop hstop => exact h.skipPast (h.firstText hstop)
    · exact h.bind (h.many (h.charWhere _)) fun _ => h.pure ()

/-- White space and comments have the property. -/
theorem triviaItem (comments : List Comment) : P (Matcher.triviaItem comments) := by
  refine h.foldl_orElse ?_ (h.bind (h.charWhere _) fun _ => h.pure ())
  intro r hr
  obtain ⟨c, _, rfl⟩ := List.mem_map.mp hr
  exact h.comment c

theorem trivia (comments : List Comment) : P (Matcher.trivia comments) :=
  h.bind (h.withText (h.many (h.triviaItem comments))) fun _ => h.pure _

/-! ## Tokens -/

theorem word : P Matcher.word := by
  refine h.bind (h.withText ?_) fun _ => h.pure _
  exact h.bind (h.charWhere _) fun _ => h.many (h.charWhere _)

/-- A symbol has the property, which looks for longer ones first. -/
theorem symbol (symbols : List String) (text : String) : P (Matcher.symbol symbols text) := by
  have hfound : ∀ (exact : Bool) (s : String),
      P (Matcher.exactText s >>= fun _ => Pure.pure exact) :=
    fun exact s => h.bind (h.exactText s) fun _ => h.pure exact
  refine h.checked (h.withText (h.firstOr ?_ (hfound true text)))
  intro r hr
  obtain ⟨s, _, rfl⟩ := List.mem_map.mp hr
  exact hfound false s

theorem digits : P Matcher.digits :=
  h.bind (h.charWhere _) fun _ => h.bind (h.many (h.charWhere _)) fun _ => h.pure ()

theorem number : P Matcher.number := by
  have hfraction : P fraction := h.bind (h.exactly _) fun _ => h.digits
  have hexponent : P exponent :=
    h.bind (h.oneOf _) fun _ => h.bind (h.optional (h.oneOf _)) fun _ => h.digits
  exact h.bind h.digits fun _ =>
    h.bind (h.optional hfraction) fun _ => h.bind (h.optional hexponent) fun _ => h.pure ()

theorem quoted (quote : Char) : P (Matcher.quoted quote) := by
  have hitem : P (quotedItem quote) := by
    apply h.orElse
    · exact h.bind (h.charWhere _) fun _ => h.pure ()
    · exact h.bind (h.exactly _) fun _ => h.bind (h.charWhere _) fun _ => h.pure ()
  exact h.bind (h.exactly _) fun _ => h.bind (h.many hitem) fun _ => h.exactly _

theorem literal (form : LiteralForm) : P (Matcher.literal form) := by
  refine h.bind (h.withText ?_) fun _ => h.pure _
  cases form with
  | integer => exact h.digits
  | number => exact h.number
  | quoted quote => exact h.quoted quote

/-- A token of each kind has the property. -/
theorem token {lexicon : Lexicon} {kind : TermKind} {token : Matcher String}
    (htoken : tokenText? lexicon kind = some token) : P token := by
  cases kind with
  | key text =>
    obtain rfl := Option.some.inj htoken
    split
    · exact h.checked h.word
    · exact h.symbol lexicon.symbols text
  | identifier case =>
    obtain rfl := Option.some.inj htoken
    exact h.checked h.word
  | literal form =>
    obtain rfl := Option.some.inj htoken
    exact h.literal form
  | rule shape => cases htoken

/-! ## Rules -/

section Shapes

variable {term : TermIndex → Matcher (List Tree)} {items item delimiter : Matcher (List Tree)}

/-- A row of items with delimiters has the property, if both have it. -/
theorem matchRepeated (hitem : P item) (hdelimiter : P delimiter) :
    P (Shape.matchRepeated item delimiter) := by
  have hpair : P (do
      let between ← delimiter
      return between ++ (← item) : Matcher (List Tree)) :=
    h.bind hdelimiter fun _ => h.bind hitem fun _ => h.pure _
  exact h.bind hitem fun _ => h.bind (h.many hpair) fun _ => h.pure _

/-- A delimiter that may stand at the end does not matter to the property. -/
theorem matchTrailing (allowed : Bool) (hitems : P items) (hdelimiter : P delimiter) :
    P (Shape.matchTrailing allowed items delimiter) := by
  cases allowed with
  | false => exact hitems
  | true => exact h.bind hitems fun _ => h.bind (h.optional hdelimiter) fun _ => h.pure _

/-- Nor does it matter whether the items may be missing. -/
theorem matchOrNothing (allowed : Bool) (hitems : P items) :
    P (Shape.matchOrNothing allowed items) := by
  cases allowed with
  | false => exact hitems
  | true => exact h.bind (h.optional hitems) fun _ => h.pure _

/-- Shapes in a row have the property, if each has it. -/
theorem matchAll {shapes : List Shape} (hshapes : ∀ s ∈ shapes, P (s.matcher term)) :
    P (Shape.matchAll term shapes) := by
  induction shapes with
  | nil =>
    rw [Shape.matchAll]
    exact h.succeed []
  | cons shape rest ih =>
    rw [Shape.matchAll]
    refine h.andThen (hshapes shape List.mem_cons_self) fun _ => ?_
    refine h.andThen (ih fun s hs => hshapes s (List.mem_cons_of_mem _ hs)) fun _ => ?_
    exact h.succeed _

/-- A choice between shapes has the property, if each has it. -/
theorem matchFirst {shapes : List Shape} (hshapes : ∀ s ∈ shapes, P (s.matcher term)) :
    P (Shape.matchFirst term shapes) := by
  induction shapes with
  | nil =>
    rw [Shape.matchFirst]
    exact h.succeed []
  | cons shape rest ih =>
    cases rest with
    | nil =>
      rw [Shape.matchFirst]
      exact hshapes shape List.mem_cons_self
    | cons next others =>
      rw [Shape.matchFirst]
      · apply h.orElse (hshapes shape List.mem_cons_self)
        exact ih fun s hs => hshapes s (List.mem_cons_of_mem _ hs)
      · exact fun hnil => List.cons_ne_nil _ _ hnil

/-- The matcher of a shape has the property if those of the terms in it have it. -/
theorem matcher (hterm : ∀ index, P (term index)) (shape : Shape) : P (shape.matcher term) := by
  induction shape with
  | empty =>
    rw [Shape.matcher]
    exact h.succeed []
  | hint hint =>
    rw [Shape.matcher]
    exact h.succeed []
  | term index =>
    rw [Shape.matcher]
    exact hterm index
  | sequence items ih =>
    rw [Shape.matcher]
    exact h.matchAll ih
  | choice alternatives ih =>
    rw [Shape.matcher]
    exact h.matchFirst ih
  | repeated item bounds ih =>
    rw [Shape.matcher]
    exact h.matchOrNothing _ (h.matchRepeated ih (h.succeed []))
  | separated item delimiter bounds ihItem ihDelimiter =>
    rw [Shape.matcher]
    exact h.matchOrNothing _
      (h.matchTrailing _ (h.matchRepeated ihItem ihDelimiter) ihDelimiter)

end Shapes

/-- The matchers of all terms have the property. -/
theorem matchTerm (language : Language) (lexicon : Lexicon) (room : ℕ) (index : TermIndex) :
    P (language.matchTerm lexicon room index) := by
  -- Each rule that is opened leaves less room.
  induction room generalizing index with
  | zero =>
    rw [Language.matchTerm]
    split
    · exact h.fail _
    · split
      · next token htoken =>
        exact h.bind (h.trivia _) fun _ => h.bind (h.token htoken) fun _ => h.pure _
      · split
        · exact h.fail _
        · exact h.fail _
  | succ room ih =>
    rw [Language.matchTerm]
    split
    · exact h.fail _
    · split
      · next token htoken =>
        exact h.bind (h.trivia _) fun _ => h.bind (h.token htoken) fun _ => h.pure _
      · split
        · exact h.fail _
        · next shape _ => exact h.andThen (h.matcher ih shape) fun _ => h.succeed _

/-- **Properties of all matchers.**  The matcher of whole documents has every property that is kept
by all ways to put matchers together. -/
theorem matchDocument (language : Language) : P language.matchDocument :=
  h.andThen (h.matchTerm language _ _ _) fun _ =>
    h.bind (h.trivia _) fun _ => h.bind h.atEnd fun _ => h.pure _

end Matcher.Closed

end TypedGrammar
