import Mathlib.Data.List.Forall2
import TypedGrammar.Matching.Matcher

/-!
# Likeness of matchers

Matchers put together in different ways may be one and the same: sequence and choice are
associative, also in what they remember of attempts that were given up.  Two matchers are alike if
they go the same way on every text, and differ in their values only as a relation says.
-/

namespace TypedGrammar

/-! ## Failures -/

namespace Failure

variable {e f g : Failure}

/-- A failure further on is the one that counts. -/
theorem further_of_lt (h : e.position < f.position) : e.further f = f :=
  if_pos h

/-- A failure further back does not count. -/
theorem further_of_gt (h : f.position < e.position) : e.further f = e := by
  rw [further, if_neg (Nat.lt_asymm h), if_pos h]

/-- Two failures at the same place expect what either did. -/
theorem further_of_eq (h : e.position = f.position) :
    e.further f =
      { e with expected := e.expected ++ f.expected.filter (!e.expected.contains ·) } := by
  rw [further, if_neg (by omega), if_neg (by omega)]

/-- Of two failures the one that counts is not before either. -/
theorem le_position_further (e f : Failure) : e.position ≤ (e.further f).position := by
  rcases Nat.lt_trichotomy e.position f.position with h | h | h
  · rw [further_of_lt h]
    exact Nat.le_of_lt h
  · exact Nat.le_of_eq (congrArg position (further_of_eq h)).symm
  · exact Nat.le_of_eq (congrArg position (further_of_gt h)).symm

/-- What three failures at one place expected is collected in the same order, whichever two are
joined first. -/
theorem collect_assoc (as bs cs : List (Option Char)) :
    (as ++ bs.filter (!as.contains ·)) ++
        cs.filter (!(as ++ bs.filter (!as.contains ·)).contains ·) =
      as ++ (bs ++ cs.filter (!bs.contains ·)).filter (!as.contains ·) := by
  rw [List.append_assoc, List.filter_append, List.filter_filter]
  congr 2
  refine List.filter_congr fun c _ => ?_
  by_cases ha : c ∈ as <;> by_cases hb : c ∈ bs <;> simp [ha, hb]

/-- Of three failures the same one is shown, whichever two are compared first. -/
theorem further_assoc (e f g : Failure) : (e.further f).further g = e.further (f.further g) := by
  rcases Nat.lt_trichotomy e.position f.position with hef | hef | hef
  · rw [further_of_lt hef, further_of_lt (Nat.lt_of_lt_of_le hef (le_position_further f g))]
  · rcases Nat.lt_trichotomy f.position g.position with hfg | hfg | hfg
    · have heg : e.position < g.position := by omega
      rw [further_of_lt hfg, further_of_lt heg, further_of_eq hef]
      exact further_of_lt heg
    · -- All three stand at one place.
      simp only [further, hef, hfg, Nat.lt_irrefl, if_false, collect_assoc]
    · have hge : g.position < e.position := by omega
      rw [further_of_gt hfg, further_of_eq hef]
      exact further_of_gt hge
  · rcases Nat.lt_trichotomy f.position g.position with hfg | hfg | hfg
    · rw [further_of_gt hef, further_of_lt hfg]
    · have hge : g.position < e.position := by omega
      have hjoined : (f.further g).position < e.position := by
        rw [further_of_eq hfg]
        exact hef
      rw [further_of_gt hef, further_of_gt hge, further_of_gt hjoined]
    · have hge : g.position < e.position := by omega
      rw [further_of_gt hef, further_of_gt hfg, further_of_gt hef, further_of_gt hge]

variable {earlier middle later : Option Failure}

@[simp] theorem remember_none (earlier : Option Failure) : remember earlier none = earlier :=
  rfl

@[simp] theorem none_remember (later : Option Failure) : remember none later = later := by
  cases later <;> rfl

/-- To compare with two remembered failures is to compare with one after the other. -/
theorem furtherThan_remember (e : Failure) (earlier later : Option Failure) :
    e.furtherThan (remember earlier later) = (e.furtherThan later).furtherThan earlier := by
  cases later with
  | none => rfl
  | some f =>
    cases earlier with
    | none => rfl
    | some g => exact (further_assoc e f g).symm

/-- Of three failures the same is remembered, from either end. -/
theorem remember_assoc (earlier middle later : Option Failure) :
    remember (remember earlier middle) later = remember earlier (remember middle later) := by
  cases later with
  | none => rfl
  | some e => exact congrArg some (furtherThan_remember e earlier middle)

end Failure

namespace Matcher

variable {α β γ : Type}

/-! ## Equations -/

/-- A value that is given first goes on to what follows. -/
theorem succeed_andThen (a : α) (f : α → Matcher β) : andThen (succeed a) f = f a := by
  funext start
  simp only [andThen, succeed]
  cases f a start with
  | matched b stop later =>
    simp only
    rw [Failure.none_remember]
  | failed e => rfl
  | stalled => rfl

/-- A value that is given last is that of the match. -/
theorem andThen_succeed (p : Matcher α) : andThen p succeed = p := by
  funext start
  rw [andThen]
  cases p start <;> rfl

/-- Of three matchers after each other, the same is matched and remembered, whichever two come
together. -/
theorem andThen_assoc (p : Matcher α) (f : α → Matcher β) (g : β → Matcher γ) :
    andThen (andThen p f) g = andThen p fun a => andThen (f a) g := by
  funext start
  simp only [andThen]
  cases p start with
  | matched a middle earlier =>
    simp only
    cases f a middle with
    | matched b stop later =>
      simp only
      cases g b stop with
      | matched c stop' last =>
        simp only
        rw [Failure.remember_assoc]
      | failed e =>
        simp only
        rw [Failure.furtherThan_remember]
      | stalled => rfl
    | failed e => rfl
    | stalled => rfl
  | failed e => rfl
  | stalled => rfl

/-- Three alternatives may be bracketed in either way. -/
theorem orElse_assoc (p q r : Matcher α) : orElse (orElse p q) r = orElse p (orElse q r) := by
  funext start
  simp only [orElse]
  cases p start with
  | failed e =>
    simp only
    cases q start with
    | failed f =>
      simp only
      cases r start with
      | failed g =>
        simp only
        rw [Failure.further_assoc]
      | _ => rfl
    | _ => rfl
  | _ => rfl

end Matcher

/-! ## Likeness -/

/-- Two outcomes are alike if nothing but their values tells them apart, and these are related. -/
inductive Outcome.Alike {α β : Type} (S : α → β → Prop) : Outcome α → Outcome β → Prop
  | matched {a b stop remembered} :
      S a b → Outcome.Alike S (.matched a stop remembered) (.matched b stop remembered)
  | failed {e} : Outcome.Alike S (.failed e) (.failed e)
  | stalled : Outcome.Alike S .stalled .stalled

namespace Matcher

variable {α β γ δ : Type} {S : α → β → Prop} {T : γ → δ → Prop} {p : Matcher α} {q : Matcher β}

/-- Two matchers are alike if they have like outcomes everywhere. -/
def Alike (S : α → β → Prop) (p : Matcher α) (q : Matcher β) : Prop :=
  ∀ start, Outcome.Alike S (p start) (q start)

/-- Related values are given alike. -/
theorem alike_succeed {a : α} {b : β} (h : S a b) : Alike S (succeed a) (succeed b) :=
  fun _ => .matched h

/-- The same refusal is alike. -/
theorem alike_fail (message : String) : Alike S (fail message) (fail message) :=
  fun _ => .failed

/-- Like matchers one after the other are alike. -/
theorem Alike.andThen {f : α → Matcher γ} {g : β → Matcher δ} (h : Alike S p q)
    (hnext : ∀ a b, S a b → Alike T (f a) (g b)) :
    Alike T (Matcher.andThen p f) (Matcher.andThen q g) := by
  intro start
  have hfirst := h start
  simp only [Matcher.andThen]
  generalize p start = first, q start = second at hfirst
  cases hfirst with
  | @matched a b middle earlier hab =>
    have hsecond := hnext a b hab middle
    simp only
    generalize f a middle = third, g b middle = fourth at hsecond
    cases hsecond with
    | matched h => exact .matched h
    | failed => exact .failed
    | stalled => exact .stalled
  | failed => exact .failed
  | stalled => exact .stalled

/-- Choices between like matchers are alike. -/
theorem Alike.orElse {p' : Matcher α} {q' : Matcher β} (h : Alike S p q) (h' : Alike S p' q') :
    Alike S (Matcher.orElse p p') (Matcher.orElse q q') := by
  intro start
  have hfirst := h start
  have hsecond := h' start
  simp only [Matcher.orElse]
  generalize p start = first, q start = second at hfirst
  cases hfirst with
  | matched hab => exact .matched hab
  | failed =>
    generalize p' start = third, q' start = fourth at hsecond
    cases hsecond with
    | matched h => exact .matched h
    | failed => exact .failed
    | stalled => exact .stalled
  | stalled => exact .stalled

/-- Like matches that may be missing are alike. -/
theorem Alike.optional (h : Alike S p q) :
    Alike (Option.Rel S) (Matcher.optional p) (Matcher.optional q) := by
  intro start
  have hfirst := h start
  simp only [Matcher.optional]
  generalize p start = first, q start = second at hfirst
  cases hfirst with
  | matched hab => exact .matched (.some hab)
  | failed => exact .matched .none
  | stalled => exact .stalled

/-- Like matchers are repeated alike. -/
theorem Alike.many (h : Alike S p q) : Alike (List.Forall₂ S) (Matcher.many p) (Matcher.many q) := by
  intro start
  -- The induction is on the text that remains: each match takes some of it.
  induction hn : start.remaining using Nat.strongRecOn generalizing start with
  | ind n ih =>
    have hfirst := h start
    rw [Matcher.many, Matcher.many]
    generalize p start = first, q start = second at hfirst
    cases hfirst with
    | @matched a b middle earlier hab =>
      simp only
      split
      · next hlt =>
        have hrest := ih middle.remaining (hn ▸ hlt) middle rfl
        generalize Matcher.many p middle = third, Matcher.many q middle = fourth at hrest
        cases hrest with
        | matched h => exact .matched (.cons hab h)
        | failed => exact .failed
        | stalled => exact .stalled
      · exact .stalled
    | failed => exact .matched .nil
    | stalled => exact .stalled

end Matcher

end TypedGrammar
