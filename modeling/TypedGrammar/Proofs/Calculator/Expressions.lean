import Mathlib.Data.List.Basic
import TypedGrammar.Proofs.Number.Integers
import TypedGrammar.Text.CharacterClass

/-!
# Arithmetic expressions

Expressions over the natural numbers of 64 bits, with operators between them and parentheses around
them.  An expression is a tree, which says how its operators are grouped; what is written of it are
its tokens, so that several expressions are written alike.  One of them is the conventional reading:
operators of a higher level bind tighter, and among those of one level powers are grouped to the
right, the others to the left.
-/

namespace TypedGrammar.Calculator

open Number

/-- The operators. -/
inductive Sign
  | plus
  | minus
  | times
  | divide
  | power
  deriving DecidableEq, Repr

namespace Sign

/-- How an operator is written. -/
def char : Sign → Char
  | plus => '+'
  | minus => '-'
  | times => '*'
  | divide => '/'
  | power => '^'

/-- How tight an operator binds. -/
def level : Sign → ℤ
  | plus => 1
  | minus => 1
  | times => 2
  | divide => 2
  | power => 3

/-- Whether operators of the same level are grouped to the right. -/
def groupsRight : Sign → Bool
  | power => true
  | _ => false

/-- Operators of one level are grouped alike. -/
theorem groupsRight_eq {s t : Sign} (h : s.level = t.level) : s.groupsRight = t.groupsRight := by
  cases s <;> cases t <;> first | rfl | cases h

/-- An exact result, if it is an integer of 64 bits. -/
def fitting (n : ℤ) : Option ℤ :=
  if FitsInt64 n then some n else none

/-- The exact result of an operation, if it is defined and fits.  Quotients are rounded toward zero,
and an exponent has at most 32 bits. -/
def result (a : ℤ) (s : Sign) (b : ℤ) : Option ℤ :=
  match s with
  | plus => fitting (a + b)
  | minus => fitting (a - b)
  | times => fitting (a * b)
  | divide => if b = 0 then none else fitting (a.tdiv b)
  | power => if 0 ≤ b ∧ b < 2 ^ 32 then fitting (a ^ b.toNat) else none

/-- A number that fits is its own value. -/
theorem fitting_eq_some {n v : ℤ} (h : fitting n = some v) : FitsInt64 n ∧ n = v := by
  unfold fitting at h
  split at h
  · next hfits => exact ⟨hfits, Option.some.inj h⟩
  · cases h

/-- Every result fits. -/
theorem fits_of_result {a b v : ℤ} {s : Sign} (h : result a s b = some v) : FitsInt64 v := by
  obtain ⟨n, hn⟩ : ∃ n, fitting n = some v := by
    cases s with
    | plus => exact ⟨_, h⟩
    | minus => exact ⟨_, h⟩
    | times => exact ⟨_, h⟩
    | divide =>
      rw [result] at h
      split at h
      · cases h
      · exact ⟨_, h⟩
    | power =>
      rw [result] at h
      split at h
      · exact ⟨_, h⟩
      · cases h
  obtain ⟨hfits, rfl⟩ := fitting_eq_some hn
  exact hfits

end Sign

/-- The tokens of which expressions are written. -/
inductive Token
  | number (n : ℕ)
  | sign (s : Sign)
  | opening
  | closing
  deriving DecidableEq, Repr

/-- The characters of a token; numbers are written in decimal. -/
def Token.chars : Token → List Char
  | number n => Nat.toDigits 10 n
  | sign s => [s.char]
  | opening => ['(']
  | closing => [')']

/-- Nothing but white space. -/
def IsBlank (cs : List Char) : Prop :=
  ∀ c ∈ cs, Text.whiteSpace.contains c = true

instance (cs : List Char) : Decidable (IsBlank cs) :=
  List.decidableBAll (fun c => Text.whiteSpace.contains c = true) cs

/-- **Spelling.**  A text consists of some tokens, with any white space before each of them and at
the end. -/
inductive Spells : List Token → List Char → Prop
  | nil {blank} : IsBlank blank → Spells [] blank
  | cons {blank token tokens rest} :
      IsBlank blank → Spells tokens rest → Spells (token :: tokens) (blank ++ token.chars ++ rest)

/-- White space and tokens in turn, and white space behind them, spell the tokens. -/
theorem spells_flatMap {last : List Char} (hlast : IsBlank last)
    (pieces : List (List Char × Token)) (h : ∀ piece ∈ pieces, IsBlank piece.1) :
    Spells (pieces.map Prod.snd)
      (pieces.flatMap (fun piece => piece.1 ++ piece.2.chars) ++ last) := by
  induction pieces with
  | nil => exact .nil hlast
  | cons piece pieces ih =>
    rw [List.map_cons, List.flatMap_cons, List.append_assoc]
    exact .cons (h piece List.mem_cons_self) (ih fun p hp => h p (List.mem_cons_of_mem _ hp))

/-- **Expressions.**  Operators are grouped as the tree says, with or without parentheses. -/
inductive Expression
  /-- A literal, which is not negative and fits 64 bits. -/
  | number (n : Fin (2 ^ 63))
  /-- An expression in parentheses. -/
  | group (inner : Expression)
  | apply (left : Expression) (sign : Sign) (right : Expression)
  deriving DecidableEq, Repr

namespace Expression

/-- What is written of an expression. -/
def tokens : Expression → List Token
  | number n => [.number n.val]
  | group inner => .opening :: (inner.tokens ++ [.closing])
  | apply left sign right => left.tokens ++ .sign sign :: right.tokens

/-- How deep parentheses are nested. -/
def depth : Expression → ℕ
  | number _ => 0
  | group inner => inner.depth + 1
  | apply left _ right => max left.depth right.depth

/-- The operators outside all parentheses. -/
def signs : Expression → List Sign
  | number _ => []
  | group _ => []
  | apply left sign right => left.signs ++ sign :: right.signs

/-- **Conventional readings.**  Outside parentheses, the operators on both sides of an operator bind
tighter than it, or as tight; in the latter case they stand on the left, or on the right for an
operator that is grouped to the right. -/
def IsConventional : Expression → Prop
  | number _ => True
  | group inner => inner.IsConventional
  | apply left sign right =>
    left.IsConventional ∧ right.IsConventional ∧
      (∀ p ∈ left.signs,
        sign.level < p.level ∨ sign.level = p.level ∧ sign.groupsRight = false) ∧
      ∀ q ∈ right.signs, sign.level < q.level ∨ sign.level = q.level ∧ sign.groupsRight = true

instance decidableIsConventional : (e : Expression) → Decidable e.IsConventional
  | number _ => .isTrue trivial
  | group inner => decidableIsConventional inner
  | apply left sign right =>
    have := decidableIsConventional left
    have := decidableIsConventional right
    inferInstanceAs (Decidable (left.IsConventional ∧ right.IsConventional ∧
      (∀ p ∈ left.signs,
        sign.level < p.level ∨ sign.level = p.level ∧ sign.groupsRight = false) ∧
      ∀ q ∈ right.signs, sign.level < q.level ∨ sign.level = q.level ∧ sign.groupsRight = true))

/-- What an expression is worth, if every step of the calculation is defined and fits. -/
def value : Expression → Option ℤ
  | number n => some n.val
  | group inner => inner.value
  | apply left sign right => do
    let a ← left.value
    let b ← right.value
    sign.result a b

variable {e left right operand : Expression} {sign : Sign} {v : ℤ}

/-- The value of an operation is the result of the operator for the values of both sides. -/
theorem value_apply_eq_some (h : (apply left sign right).value = some v) :
    ∃ a b, left.value = some a ∧ right.value = some b ∧ sign.result a b = some v := by
  rw [value] at h
  obtain ⟨a, ha, h⟩ := Option.bind_eq_some_iff.mp h
  obtain ⟨b, hb, h⟩ := Option.bind_eq_some_iff.mp h
  exact ⟨a, b, ha, hb, h⟩

/-- Every value fits. -/
theorem fits_of_value (h : e.value = some v) : FitsInt64 v := by
  induction e generalizing v with
  | number n =>
    obtain rfl := Option.some.inj h
    have := n.isLt
    exact ⟨by omega, by omega⟩
  | group inner ih => exact ih h
  | apply left sign right _ _ =>
    obtain ⟨a, b, _, _, hresult⟩ := value_apply_eq_some h
    exact Sign.fits_of_result hresult

/-! ## Conventional readings -/

/-- Puts an operator with a right-hand side behind an expression: into its last side where the
operator binds tighter than the one before that, or as tight and is grouped to the right. -/
def attach (sign : Sign) (operand : Expression) : Expression → Expression
  | apply left before right =>
    if before.level < sign.level ∨ before.level = sign.level ∧ before.groupsRight = true then
      apply left before (attach sign operand right)
    else apply (apply left before right) sign operand
  | other => apply other sign operand

/-- An operator that is attached follows the tokens in front of it, and its operand follows the
operator. -/
theorem tokens_attach (e : Expression) :
    (attach sign operand e).tokens = e.tokens ++ .sign sign :: operand.tokens := by
  induction e with
  | number n => rfl
  | group inner _ => rfl
  | apply left before right _ ih =>
    rw [attach]
    split
    · rw [tokens, ih, tokens, List.append_assoc, List.cons_append]
    · rw [tokens]

/-- An operator that is attached is the last one, if there is none in its operand. -/
theorem signs_attach (hoperand : operand.signs = []) (e : Expression) :
    (attach sign operand e).signs = e.signs ++ [sign] := by
  induction e with
  | number n => simp only [attach, signs, hoperand]
  | group inner _ => simp only [attach, signs, hoperand]
  | apply left before right _ ih =>
    rw [attach]
    split
    · rw [signs, ih, signs, List.append_assoc, List.cons_append]
    · rw [signs, hoperand]

/-- What is put behind a conventional reading is put where convention has it. -/
theorem isConventional_attach (hoperand : operand.signs = []) (hconv : operand.IsConventional)
    (h : e.IsConventional) : (attach sign operand e).IsConventional := by
  have hlone : ∀ other : Expression, other.signs = [] → other.IsConventional →
      (apply other sign operand).IsConventional := by
    intro other hother hconvOther
    refine ⟨hconvOther, hconv, ?_, ?_⟩
    · rw [hother]
      nofun
    · rw [hoperand]
      nofun
  induction e with
  | number n => exact hlone _ rfl trivial
  | group inner _ => exact hlone _ rfl h
  | apply left before right _ ih =>
    obtain ⟨hleft, hright, hbefore, hbehind⟩ := h
    rw [attach]
    by_cases htighter : before.level < sign.level ∨
        before.level = sign.level ∧ before.groupsRight = true
    · rw [if_pos htighter]
      refine ⟨hleft, ih hright, hbefore, ?_⟩
      rw [signs_attach hoperand]
      intro q hq
      rcases List.mem_append.mp hq with hq | hq
      · exact hbehind q hq
      · rwa [List.mem_singleton.mp hq]
    · rw [if_neg htighter]
      have hlevel : sign.level ≤ before.level :=
        not_lt.mp fun hlt => htighter (Or.inl hlt)
      -- Of two operators of one level, the new one is applied last.
      have hlast : ∀ p : Sign, before.level ≤ p.level →
          sign.level < p.level ∨ sign.level = p.level ∧ sign.groupsRight = false := by
        intro p hp
        rcases lt_or_eq_of_le (hlevel.trans hp) with hlt | heq
        · exact Or.inl hlt
        · have hsame : before.level = sign.level := le_antisymm (hp.trans heq.ge) hlevel
          have hnot : before.groupsRight = false :=
            Bool.eq_false_iff.mpr fun hright => htighter (Or.inr ⟨hsame, hright⟩)
          exact Or.inr ⟨heq, (Sign.groupsRight_eq hsame).symm.trans hnot⟩
      refine ⟨⟨hleft, hright, hbefore, hbehind⟩, hconv, ?_, by rw [hoperand]; nofun⟩
      intro p hp
      rw [signs] at hp
      rcases List.mem_append.mp hp with hp | hp
      · exact hlast p ((hbefore p hp).elim le_of_lt fun h => h.1.le)
      · rcases List.mem_cons.mp hp with rfl | hp
        · exact hlast p le_rfl
        · exact hlast p ((hbehind p hp).elim le_of_lt fun h => h.1.le)

/-- An expression has a conventional reading, also behind another one with an operator between
them. -/
theorem exists_isConventional_and_behind (e : Expression) :
    (∃ r : Expression, r.IsConventional ∧ r.tokens = e.tokens) ∧
      ∀ (l : Expression) (s : Sign), l.IsConventional →
        ∃ r : Expression, r.IsConventional ∧ r.tokens = l.tokens ++ .sign s :: e.tokens := by
  induction e with
  | number n =>
    exact ⟨⟨number n, trivial, rfl⟩, fun l s hl =>
      ⟨attach s (number n) l, isConventional_attach rfl trivial hl, tokens_attach l⟩⟩
  | group inner ih =>
    obtain ⟨r, hr, htokens⟩ := ih.1
    have hgroup : (group r).tokens = (group inner).tokens := by
      rw [tokens, tokens, htokens]
    refine ⟨⟨group r, hr, hgroup⟩, fun l s hl =>
      ⟨attach s (group r) l, isConventional_attach rfl hr hl, ?_⟩⟩
    rw [tokens_attach, hgroup]
  | apply left sign right ihLeft ihRight =>
    constructor
    · obtain ⟨l, hl, htokens⟩ := ihLeft.1
      obtain ⟨r, hr, htokens'⟩ := ihRight.2 l sign hl
      exact ⟨r, hr, by rw [htokens', htokens, tokens]⟩
    · intro l s hl
      obtain ⟨m, hm, htokens⟩ := ihLeft.2 l s hl
      obtain ⟨r, hr, htokens'⟩ := ihRight.2 m sign hm
      refine ⟨r, hr, ?_⟩
      rw [htokens', htokens, tokens, List.append_assoc, List.cons_append]

/-- **Conventional readings exist.**  Whatever is written has a conventional reading. -/
theorem exists_isConventional (e : Expression) :
    ∃ r : Expression, r.IsConventional ∧ r.tokens = e.tokens :=
  e.exists_isConventional_and_behind.1

/-! ## Nesting -/

/-- How many parentheses are open behind a token, and how many were at most. -/
def nest : ℕ × ℕ → Token → ℕ × ℕ
  | (opened, most), .opening => (opened + 1, max most (opened + 1))
  | (opened, most), .closing => (opened - 1, most)
  | state, _ => state

/-- Behind an expression as many parentheses are open as in front of it. -/
theorem foldl_nest {opened most : ℕ} (h : opened ≤ most) (e : Expression) :
    e.tokens.foldl nest (opened, most) = (opened, max most (opened + e.depth)) := by
  induction e generalizing opened most with
  | number n =>
    rw [depth, Nat.add_zero, Nat.max_eq_left h]
    rfl
  | group inner ih =>
    have hinner := ih (le_max_right most (opened + 1))
    rw [tokens, List.foldl_cons, List.foldl_append, nest, hinner, depth]
    show (opened + 1 - 1, _) = _
    have hmax : max (max most (opened + 1)) (opened + 1 + inner.depth) =
        max most (opened + (inner.depth + 1)) := by omega
    rw [hmax, Nat.add_sub_cancel]
  | apply left sign right ihLeft ihRight =>
    have hright := ihRight (h.trans (le_max_left most (opened + left.depth)))
    rw [tokens, List.foldl_append, ihLeft h, List.foldl_cons]
    show right.tokens.foldl nest (opened, _) = _
    have hmax : max (max most (opened + left.depth)) (opened + right.depth) =
        max most (opened + (apply left sign right).depth) := by
      rw [depth]
      omega
    rw [hright, hmax]

/-- Expressions that are written alike are nested equally deep. -/
theorem depth_eq_of_tokens {e r : Expression} (h : r.tokens = e.tokens) : r.depth = e.depth := by
  have he := foldl_nest (Nat.le_refl 0) e
  have hr := foldl_nest (Nat.le_refl 0) r
  rw [h, he] at hr
  have := (Prod.mk.inj hr).2
  omega

end Expression

end TypedGrammar.Calculator
