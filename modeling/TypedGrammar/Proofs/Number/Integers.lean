import Mathlib.Algebra.Order.Ring.Abs
import Mathlib.Algebra.Order.Ring.Int
import TypedGrammar.Number

/-!
# Integers of 64 bits

A number that is written in decimal is read back, and the arithmetic of 64-bit integers is exact
wherever its result fits.
-/

namespace TypedGrammar.Number

/-! ## Decimal -/

/-- The digits of a number are continued to the number. -/
theorem ofDigits_toDigits (n : ℕ) : ofDigits 0 (Nat.toDigits 10 n) = n := by
  have h : Nat.ofDigitChars 10 (Nat.toDigits 10 n) 0 = n := Nat.ofDigitChars_ten_toDigits
  rwa [Nat.ofDigitChars_eq_foldl] at h

/-- Digits have no sign. -/
theorem splitSign_of_digits {digits : List Char} (h : ∀ c ∈ digits, c.isDigit = true) :
    splitSign digits = (false, digits) := by
  cases digits with
  | nil => rfl
  | cons c rest =>
    have hc := h c List.mem_cons_self
    have hminus : c ≠ '-' := by
      rintro rfl
      cases hc
    have hplus : c ≠ '+' := by
      rintro rfl
      cases hc
    unfold splitSign
    split
    · next heq => exact absurd (List.cons.inj heq).1 hminus
    · next heq => exact absurd (List.cons.inj heq).1 hplus
    · rfl

theorem isDigit_of_mem_toDigits {n : ℕ} : ∀ c ∈ Nat.toDigits 10 n, c.isDigit = true :=
  fun _ hc => Nat.isDigit_of_mem_toDigits (by decide) (by decide) hc

/-- Digits behind a sign are read as a number with this sign. -/
theorem readInteger_of_splitSign {text : List Char} {negative : Bool} {n : ℕ}
    (h : splitSign text = (negative, Nat.toDigits 10 n)) :
    readInteger text = some (if negative then -(n : ℤ) else n) := by
  have hall : (Nat.toDigits 10 n).all Char.isDigit = true :=
    List.all_eq_true.mpr isDigit_of_mem_toDigits
  unfold readInteger
  rw [h]
  split
  · next heq => exact absurd (Prod.mk.inj heq).2 Nat.toDigits_ne_nil
  · next heq =>
    obtain ⟨rfl, rfl⟩ := Prod.mk.inj heq
    rw [if_pos hall, ofDigits_toDigits]

/-- The digits of a natural number are read as the number. -/
theorem readInteger_toDigits (n : ℕ) : readInteger (Nat.toDigits 10 n) = some (n : ℤ) :=
  readInteger_of_splitSign (splitSign_of_digits isDigit_of_mem_toDigits)

/-- A number that is written is read back. -/
theorem readInteger_toString (n : ℤ) : readInteger (toString n).toList = some n := by
  cases n with
  | ofNat n =>
    have htext : (toString (Int.ofNat n)).toList = Nat.toDigits 10 n := by
      show (toString n).toList = _
      rw [Nat.toString_eq_repr, Nat.toList_repr]
    rw [htext]
    exact readInteger_toDigits n
  | negSucc n =>
    have htext : (toString (Int.negSucc n)).toList = '-' :: Nat.toDigits 10 (n + 1) := by
      show ("-" ++ toString (n + 1)).toList = _
      rw [String.toList_append, Nat.toString_eq_repr, Nat.toList_repr]
      rfl
    have hsplit : splitSign ('-' :: Nat.toDigits 10 (n + 1)) = (true, Nat.toDigits 10 (n + 1)) :=
      rfl
    rw [htext]
    exact readInteger_of_splitSign hsplit

/-! ## Numbers that fit -/

/-- A number is one of the integers of 64 bits. -/
def FitsInt64 (n : ℤ) : Prop :=
  -2 ^ 63 ≤ n ∧ n < 2 ^ 63

instance (n : ℤ) : Decidable (FitsInt64 n) :=
  inferInstanceAs (Decidable (_ ∧ _))

variable {n : ℤ} {a b : Int64}

theorem FitsInt64.toInt_ofInt (h : FitsInt64 n) : (Int64.ofInt n).toInt = n :=
  Int64.toInt_ofInt_of_le h.1 h.2

theorem fitsInt64_toInt (a : Int64) : FitsInt64 a.toInt :=
  ⟨a.le_toInt, a.toInt_lt⟩

/-- There is an integer of 64 bits for every number that fits. -/
theorem FitsInt64.toInt64?_eq (h : FitsInt64 n) : toInt64? n = some (Int64.ofInt n) := by
  have hmin : Int64.minValue.toInt = -2 ^ 63 := rfl
  have hmax : Int64.maxValue.toInt = 2 ^ 63 - 1 := rfl
  have := h.1
  have := h.2
  rw [toInt64?, if_pos (by omega)]

/-- An integer of 64 bits that is written is read back. -/
theorem readInt64_toString (a : Int64) : readInt64 (toString a.toInt).toList = some a := by
  rw [readInt64, readInteger_toString, Option.bind_some, (fitsInt64_toInt a).toInt64?_eq,
    Int64.ofInt_toInt]

/-! ## Powers -/

/-- A large power fits only if its base is 0, 1 or -1. -/
theorem abs_lt_two_of_fits_pow {base : ℤ} {k : ℕ} (h : FitsInt64 (base ^ k)) (hk : 64 ≤ k) :
    |base| < 2 := by
  by_contra hlarge
  have hbase : 2 ≤ |base| := not_lt.mp hlarge
  have hpow : (2 : ℤ) ^ 64 ≤ |base ^ k| :=
    calc (2 : ℤ) ^ 64 ≤ 2 ^ k := pow_le_pow_right₀ (by decide) hk
      _ ≤ |base| ^ k := pow_le_pow_left₀ (by decide) hbase k
      _ = |base ^ k| := (abs_pow base k).symm
  have habs : |base ^ k| ≤ 2 ^ 63 := abs_le.mpr ⟨h.1, h.2.le⟩
  omega

/-- A power that fits is computed, for exponents of at most 32 bits. -/
theorem power?_eq (hexponent : 0 ≤ b.toInt ∧ b.toInt < 2 ^ 32)
    (h : FitsInt64 (a.toInt ^ b.toInt.toNat)) :
    power? a b = some (Int64.ofInt (a.toInt ^ b.toInt.toNat)) := by
  obtain ⟨k, hk⟩ := Int.eq_ofNat_of_zero_le hexponent.1
  have hsize : ¬ ((k : ℤ) < 0 ∨ (UInt32.size : ℤ) ≤ k) := by
    have hbound := hexponent.2
    have hvalue : UInt32.size = 2 ^ 32 := rfl
    omega
  rw [hk, Int.toNat_natCast] at h ⊢
  rw [power?, hk]
  simp only [if_neg hsize, Int.toNat_natCast]
  by_cases hzero : a.toInt = 0
  · rw [if_pos hzero, hzero]
    by_cases hk0 : k = 0
    · rw [hk0]
      rfl
    · rw [if_neg (by omega), zero_pow hk0]
      rfl
  by_cases hone : a.toInt = 1
  · rw [if_neg hzero, if_pos hone, hone, one_pow]
    rfl
  by_cases hminus : a.toInt = -1
  · rw [if_neg hzero, if_neg hone, if_pos hminus, hminus]
    by_cases heven : Even k
    · rw [if_pos (by obtain ⟨j, rfl⟩ := heven; omega), heven.neg_one_pow]
      rfl
    · have hodd := Nat.not_even_iff_odd.mp heven
      rw [if_neg (by obtain ⟨j, rfl⟩ := hodd; omega), hodd.neg_one_pow]
      rfl
  -- A larger base has no power with so large an exponent.
  have hsmall : ¬ (64 : ℤ) ≤ k := by
    intro hlarge
    have habs := abs_lt.mp (abs_lt_two_of_fits_pow h (by omega))
    omega
  rw [if_neg hzero, if_neg hone, if_neg hminus, if_neg hsmall]
  exact h.toInt64?_eq

end TypedGrammar.Number
