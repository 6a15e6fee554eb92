import TypedGrammar.Proofs.OrderedChoice.Evaluation
import TypedGrammar.Proofs.Shape.Parts

/-!
# Attempts

What is attempted on the way to a verdict, also where no verdict is ever reached: each attempt is
made while some rules are open, one inside the other.  Attempts never go back in the text, and all
shapes that are attempted are parts of the shapes of rules.
-/

namespace TypedGrammar

namespace Language

/-- One task tries another on its way, without opening a rule. -/
inductive Tries (language : Language) (room : ℕ∞) : Task → Cursor → Task → Cursor → Prop
  | reference {index start} :
      Tries language room (.shape (.term index)) start (.term index) start
  | sequence {items start} :
      Tries language room (.shape (.sequence items)) start (.all items) start
  | choice {shape others start} :
      Tries language room (.shape (.choice (shape :: others))) start (.first shape others) start
  | repeated {item bounds start} :
      Tries language room (.shape (.repeated item bounds)) start (.items item .empty false) start
  | separated {item delimiter bounds start} :
      Tries language room (.shape (.separated item delimiter bounds)) start
        (.items item delimiter bounds.allowTrailing) start
  | allHead {shape rest start} :
      Tries language room (.all (shape :: rest)) start (.shape shape) start
  | allTail {shape rest start middle trees} :
      language.Evaluates room (.shape shape) start (.matched trees middle) →
      Tries language room (.all (shape :: rest)) start (.all rest) middle
  | firstHead {shape others start} :
      Tries language room (.first shape others) start (.shape shape) start
  | firstTail {shape next others start} :
      language.Evaluates room (.shape shape) start .failed →
      Tries language room (.first shape (next :: others)) start (.first next others) start
  | item {item delimiter trailing start} :
      Tries language room (.items item delimiter trailing) start (.shape item) start
  | pairs {item delimiter trailing start middle trees} :
      language.Evaluates room (.shape item) start (.matched trees middle) →
      Tries language room (.items item delimiter trailing) start (.pairs item delimiter) middle
  | trailing {item delimiter start middle after trees more} :
      language.Evaluates room (.shape item) start (.matched trees middle) →
      language.Evaluates room (.pairs item delimiter) middle (.matched more after) →
      Tries language room (.items item delimiter true) start (.shape delimiter) after
  | pair {item delimiter start} :
      Tries language room (.pairs item delimiter) start (.all [delimiter, item]) start
  | nextPair {item delimiter start middle trees} :
      language.Evaluates room (.all [delimiter, item]) start (.matched trees middle) →
      Tries language room (.pairs item delimiter) start (.pairs item delimiter) middle

/-- **Attempts.**  With room for so many open rules, a task at a place attempts another one at
another place while `opened` more rules are open. -/
inductive Attempts (language : Language) : ℕ∞ → Task → Cursor → ℕ → Task → Cursor → Prop
  | here {room task start} : Attempts language room task start 0 task start
  | inside {room task start task' start' opened goal place} :
      language.Tries room task start task' start' →
      Attempts language room task' start' opened goal place →
      Attempts language room task start opened goal place
  | opens {room index term shape start opened goal place} :
      language.Defines index term shape → room ≠ 0 →
      Attempts language (room - 1) (.shape shape) start opened goal place →
      Attempts language room (.term index) start (opened + 1) goal place

variable {language : Language} {room : ℕ∞} {task goal : Task} {start place : Cursor}

/-! ## Places -/

/-- A terminal ends behind its start. -/
theorem ScansTerm.ends_ge {index : TermIndex} {verdict : Verdict}
    (h : language.ScansTerm index start verdict) : verdict.Ends (start ≤ ·) := by
  cases h with
  | token _ hskips hscans => exact hskips.le.trans hscans.le
  | _ => trivial

/-- No evaluation goes back. -/
theorem Evaluates.ends_ge {verdict : Verdict} (h : language.Evaluates room task start verdict) :
    verdict.Ends (start ≤ ·) := by
  induction h with
  | scan hscan => exact hscan.ends_ge
  | rule _ _ _ ih => exact Verdict.ends_map.mpr ih
  | refused | allFail | firstFail | itemsFail => trivial
  | empty | hint | noAlternative | allNil | pairsEnd => exact le_refl (α := Cursor) _
  | reference _ ih | sequence _ ih | choice _ ih | firstMatch _ ih | firstNext _ _ _ ih => exact ih
  | repeated _ ih | separated _ ih => exact ih.orNothing le_rfl
  | allCons _ _ ih ihRest =>
    refine Verdict.ends_map.mpr (ihRest.imp fun stop hstop => ?_)
    exact le_trans (α := Cursor) ih hstop
  | items _ _ ih ihPairs | itemsNoTrailing _ _ _ ih ihPairs _ | pairsNext _ _ ih ihPairs =>
    exact le_trans (α := Cursor) ih ihPairs
  | itemsTrailing _ _ _ ih ihPairs ihLast =>
    exact le_trans (α := Cursor) (le_trans (α := Cursor) ih ihPairs) ihLast

/-- A match never ends before its start. -/
theorem Evaluates.le {trees : List Tree} {stop : Cursor}
    (h : language.Evaluates room task start (.matched trees stop)) : start ≤ stop :=
  h.ends_ge

/-- What is tried is tried further on. -/
theorem Tries.le {task' : Task} {start' : Cursor}
    (h : language.Tries room task start task' start') : start ≤ start' := by
  cases h with
  | allTail h | pairs h | nextPair h => exact h.le
  | trailing h hpairs => exact h.le.trans hpairs.le
  | _ => exact le_rfl

/-- Attempts never go back in the text. -/
theorem Attempts.le {opened : ℕ} (h : language.Attempts room task start opened goal place) :
    start ≤ place := by
  induction h with
  | here => exact le_rfl
  | inside htry _ ih => exact htry.le.trans ih
  | opens _ _ _ ih => exact ih

/-! ## Chains of attempts -/

/-- With one rule more that is open, there is room for one less. -/
theorem sub_succ (room : ℕ∞) (opened : ℕ) : room - (opened + 1 : ℕ) = room - 1 - opened := by
  rw [Nat.cast_add, Nat.cast_one, add_comm, ← tsub_tsub]

theorem natCast_succ_sub_one (n : ℕ) : ((n + 1 : ℕ) : ℕ∞) - 1 = n := by
  norm_cast

theorem natCast_succ_ne_zero (n : ℕ) : ((n + 1 : ℕ) : ℕ∞) ≠ 0 :=
  Nat.cast_ne_zero.mpr (Nat.succ_ne_zero n)

/-- No more rules are opened than there is room for. -/
theorem Attempts.opened_le {opened : ℕ}
    (h : language.Attempts room task start opened goal place) : opened ≤ room := by
  induction h with
  | here => exact zero_le
  | inside _ _ ih => exact ih
  | @opens room _ _ _ _ _ _ _ _ hroom _ ih =>
    have hone : 1 ≤ room := Order.one_le_iff_ne_zero.mpr hroom
    rw [Nat.cast_add, Nat.cast_one, ← tsub_add_cancel_of_le hone]
    exact add_le_add_left ih 1

/-- What is attempted first opens no more than what follows. -/
theorem Attempts.trans {opened opened' : ℕ} {middle : Task} {between : Cursor}
    (h : language.Attempts room task start opened middle between)
    (h' : language.Attempts (room - opened) middle between opened' goal place) :
    language.Attempts room task start (opened + opened') goal place := by
  induction h with
  | here => rwa [Nat.cast_zero, tsub_zero, ← Nat.zero_add opened'] at h'
  | inside htry _ ih => exact .inside htry (ih h')
  | @opens room index term shape start opened goal place hdef hroom _ ih =>
    rw [Nat.add_right_comm]
    rw [sub_succ] at h'
    exact .opens hdef hroom (ih h')

/-- A rule that is not refused is open while its shape is attempted. -/
theorem Attempts.open {opened : ℕ} {index : TermIndex} {term : Term} {shape : Shape}
    (h : language.Attempts room task start opened (.term index) place)
    (hdef : language.Defines index term shape) (hne : room - opened ≠ 0) :
    language.Attempts room task start (opened + 1) (.shape shape) place :=
  h.trans (.opens hdef hne .here)

/-! ## The shapes of rules -/

/-- A shape is a part of the shape of a rule, or empty. -/
def HasPart (language : Language) (part : Shape) : Prop :=
  part = .empty ∨ ∃ index term shape, language.Defines index term shape ∧ part ∈ shape.parts

/-- The shape of a rule is a part of the language. -/
theorem Defines.hasPart {index : TermIndex} {term : Term} {shape : Shape}
    (h : language.Defines index term shape) : language.HasPart shape :=
  Or.inr ⟨index, term, shape, h, shape.self_mem_parts⟩

theorem HasPart.trans {shape part : Shape} (h : language.HasPart shape)
    (hpart : part ∈ shape.parts) : language.HasPart part := by
  rcases h with rfl | ⟨index, term, whole, hdef, hshape⟩
  · obtain rfl := List.mem_singleton.mp hpart
    exact Or.inl rfl
  · exact Or.inr ⟨index, term, whole, hdef, Shape.parts_trans hshape hpart⟩

/-- The item and the delimiter of a repetition are parts of rules if the repetition is. -/
theorem HasPart.repetition {shape item delimiter : Shape} (h : language.HasPart shape)
    (hrepetition : shape.repetition? = some (item, delimiter)) :
    language.HasPart item ∧ language.HasPart delimiter := by
  obtain ⟨hitem, hdelimiter⟩ := Shape.mem_parts_of_repetition hrepetition
  refine ⟨h.trans hitem, ?_⟩
  rcases hdelimiter with rfl | hdelimiter
  · exact Or.inl rfl
  · exact h.trans hdelimiter

/-- All shapes of a task are parts of the shapes of rules. -/
def Covers (language : Language) : Task → Prop
  | .term _ => True
  | .shape shape => language.HasPart shape
  | .all shapes => ∀ shape ∈ shapes, language.HasPart shape
  | .first shape others => ∀ alternative ∈ shape :: others, language.HasPart alternative
  | .items item delimiter _ | .pairs item delimiter =>
    ∃ part, language.HasPart part ∧ part.repetition? = some (item, delimiter)

/-- What is tried is covered, if the task is. -/
theorem Tries.covers {task' : Task} {start' : Cursor}
    (h : language.Tries room task start task' start') (htask : language.Covers task) :
    language.Covers task' := by
  cases h with
  | reference => trivial
  | sequence => exact fun shape hshape => htask.trans (Shape.mem_parts_of_sequence hshape)
  | choice => exact fun shape hshape => htask.trans (Shape.mem_parts_of_choice hshape)
  | repeated => exact ⟨_, htask, rfl⟩
  | separated => exact ⟨_, htask, rfl⟩
  | allHead => exact htask _ List.mem_cons_self
  | allTail => exact fun shape hshape => htask shape (List.mem_cons_of_mem _ hshape)
  | firstHead => exact htask _ List.mem_cons_self
  | firstTail => exact fun shape hshape => htask shape (List.mem_cons_of_mem _ hshape)
  | item =>
    obtain ⟨part, hpart, hrepetition⟩ := htask
    exact (hpart.repetition hrepetition).1
  | pairs => exact htask
  | trailing =>
    obtain ⟨part, hpart, hrepetition⟩ := htask
    exact (hpart.repetition hrepetition).2
  | pair =>
    obtain ⟨part, hpart, hrepetition⟩ := htask
    obtain ⟨hitem, hdelimiter⟩ := hpart.repetition hrepetition
    intro shape hshape
    simp only [List.mem_cons, List.not_mem_nil, or_false] at hshape
    rcases hshape with rfl | rfl
    · exact hdelimiter
    · exact hitem
  | nextPair => exact htask

/-- Only parts of the shapes of rules are attempted. -/
theorem Attempts.covers {opened : ℕ}
    (h : language.Attempts room task start opened goal place) (htask : language.Covers task) :
    language.Covers goal := by
  induction h with
  | here => exact htask
  | inside htry _ ih => exact ih (htry.covers htask)
  | opens hdef _ _ ih => exact ih hdef.hasPart

end Language

end TypedGrammar
