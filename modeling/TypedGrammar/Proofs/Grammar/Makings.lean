import TypedGrammar.Proofs.Grammar.Positions
import TypedGrammar.Proofs.Tree.Paths

/-!
# Makings

Reading with a record: whenever a maker is called, it is noted at which position of the tree, for
which occurrence, and what came of it.  The result is that of reading, and if it is a success, then
the positions at which makers were called are known from the tree alone, each of them was called
once, and what it made is what the rule above was given.
-/

namespace TypedGrammar

/-- A call of a maker.  A position is the path to it: the numbers of the children to go to. -/
structure Making where
  path : List ℕ
  occurrence : Occurrence
  result : Except Error Node

/-- The call, seen from above the child with a number. -/
def Making.under (number : ℕ) (making : Making) : Making :=
  { making with path := number :: making.path }

theorem Making.under_inj {number other : ℕ} {making making' : Making}
    (h : making.under number = making'.under other) : number = other ∧ making = making' := by
  obtain ⟨path, occurrence, result⟩ := making
  obtain ⟨path', occurrence', result'⟩ := making'
  simp only [under, Making.mk.injEq, List.cons.injEq] at h
  obtain ⟨⟨rfl, rfl⟩, rfl, rfl⟩ := h
  exact ⟨rfl, rfl⟩

/-- What a step comes to, and the calls during the step. -/
structure Recorded (α : Type) where
  makings : List Making
  result : Except Error α

namespace Recorded

variable {α β : Type}

/-- A step without calls. -/
def quiet (result : Except Error α) : Recorded α :=
  ⟨[], result⟩

/-- One step after the other, unless the first one fails. -/
def andThen (step : Recorded α) (next : α → Recorded β) : Recorded β :=
  match step.result with
  | .ok a => ⟨step.makings ++ (next a).makings, (next a).result⟩
  | .error e => ⟨step.makings, .error e⟩

/-- The step, seen from above the child with a number. -/
def under (number : ℕ) (step : Recorded α) : Recorded α :=
  ⟨step.makings.map (Making.under number), step.result⟩

/-- The call of a maker. -/
def call (maker : Maker) (occurrence : Occurrence) : Recorded Node :=
  ⟨[⟨[], occurrence, maker.make occurrence⟩], maker.make occurrence⟩

variable {step : Recorded α} {next : α → Recorded β}

@[simp] theorem result_quiet (result : Except Error α) : (quiet result).result = result :=
  rfl

@[simp] theorem result_andThen (step : Recorded α) (next : α → Recorded β) :
    (step.andThen next).result = step.result >>= fun a => (next a).result := by
  unfold andThen
  cases step.result <;> rfl

@[simp] theorem result_under (number : ℕ) (step : Recorded α) :
    (step.under number).result = step.result :=
  rfl

@[simp] theorem result_call (maker : Maker) (occurrence : Occurrence) :
    (call maker occurrence).result = maker.make occurrence :=
  rfl

/-- Two steps that succeed have the calls of both. -/
theorem makings_andThen {a : α} (h : step.result = .ok a) :
    (step.andThen next).makings = step.makings ++ (next a).makings := by
  unfold andThen
  rw [h]

end Recorded

namespace Reading

open TypedGrammar.Tree

/-- The node of a token, with a record. -/
def recordToken (reading : Reading) (kind : TreeKind) (offset : ℕ) (text : String) :
    Recorded (Option Node) :=
  (Recorded.quiet (reading.term kind)).andThen fun term =>
    if term.flags.has .punctuation || term.flags.has .noNode then .quiet (.ok none)
    else
      match reading.maker? kind with
      | some maker =>
        (Recorded.call maker ⟨term, reading.locate offset, some text, []⟩).andThen fun node =>
          .quiet (.ok (some node))
      | none => .quiet (.ok none)

mutual

/-- The node of a tree, with a record. -/
def record (reading : Reading) (depth offset : ℕ) : Tree → Recorded (Option Node)
  | .token kind text => reading.recordToken kind offset text
  | .node kind children =>
    (Recorded.quiet (reading.term kind)).andThen fun term =>
      if term.flags.has .noNode then .quiet (.ok none)
      else
        let location := reading.locateTree offset (.node kind children)
        if nestingLimit < depth then .quiet (.error (.rejectedAt location nestingMessage))
        else
          (recordParts reading (depth + 1) offset 0 children).andThen fun parts =>
            (Recorded.call ((reading.maker? kind).getD .sequence)
              ⟨term, location, none, parts⟩).andThen fun node => .quiet (.ok (some node))

/-- The parts that trees stand for, with a record.  The first of the trees has a number, and so do
those behind it. -/
def recordParts (reading : Reading) (depth offset number : ℕ) : List Tree → Recorded (List Part)
  | [] => .quiet (.ok [])
  | tree :: rest =>
    if tree.isTrivia then
      recordParts reading depth (offset + tree.byteLength) (number + 1) rest
    else
      (Recorded.quiet (reading.term tree.kind)).andThen fun term =>
        ((record reading depth offset tree).under number).andThen fun made =>
          (recordParts reading depth (offset + tree.byteLength) (number + 1) rest).andThen
            fun others => .quiet (.ok (⟨term, made⟩ :: others))

end

variable {reading : Reading} {tree : Tree} {trees : List Tree} {depth offset number : ℕ}
  {made : Option Node} {parts : List Part} {kind : TreeKind} {children : List Tree} {text : String}

/-! ## The result -/

theorem result_recordToken (reading : Reading) (kind : TreeKind) (offset : ℕ) (text : String) :
    (reading.recordToken kind offset text).result = reading.tokenNode kind offset text := by
  unfold recordToken tokenNode
  rw [Recorded.result_andThen, Recorded.result_quiet]
  congr 1
  funext term
  split
  · rfl
  · cases reading.maker? kind with
    | none => rfl
    | some maker => rw [Recorded.result_andThen, Recorded.result_call]; rfl

mutual

/-- **Reading with a record is reading.** -/
theorem result_record (reading : Reading) (depth offset : ℕ) : ∀ tree : Tree,
    (reading.record depth offset tree).result = reading.node depth offset tree
  | .token kind text => by rw [record, node, result_recordToken]
  | .node kind children => by
    rw [record, node, Recorded.result_andThen, Recorded.result_quiet]
    congr 1
    funext term
    split
    · rfl
    · split
      · rfl
      · rw [Recorded.result_andThen, result_recordParts reading (depth + 1) offset 0 children]
        congr 1
        funext parts
        rw [Recorded.result_andThen]
        rfl

theorem result_recordParts (reading : Reading) (depth offset number : ℕ) : ∀ trees : List Tree,
    (reading.recordParts depth offset number trees).result = reading.parts depth offset trees
  | [] => by rw [recordParts, Reading.parts]; rfl
  | tree :: rest => by
    rw [recordParts, Reading.parts]
    split
    · exact result_recordParts reading depth _ (number + 1) rest
    · rw [Recorded.result_andThen, Recorded.result_quiet]
      congr 1
      funext term
      rw [Recorded.result_andThen, Recorded.result_under, result_record reading depth offset tree]
      congr 1
      funext made
      rw [Recorded.result_andThen, result_recordParts reading depth _ (number + 1) rest]
      rfl

end

/-! ## Calls and successes -/

/-- A token that is read calls its maker once, or has no node. -/
theorem makings_recordToken (h : (reading.recordToken kind offset text).result = .ok made) :
    ((∃ term maker node, reading.term kind = .ok term ∧ term.flags.has .punctuation = false ∧
        term.flags.has .noNode = false ∧ reading.maker? kind = some maker ∧
        maker.make ⟨term, reading.locate offset, some text, []⟩ = .ok node ∧ made = some node ∧
        (reading.recordToken kind offset text).makings =
          [⟨[], ⟨term, reading.locate offset, some text, []⟩, .ok node⟩]) ∨
      made = none ∧ (reading.recordToken kind offset text).makings = [] ∧
        ∀ term, reading.term kind = .ok term → term.flags.has .punctuation = true ∨
          term.flags.has .noNode = true ∨ reading.maker? kind = none) := by
  rw [recordToken] at h ⊢
  rw [Recorded.result_andThen] at h
  obtain ⟨term, hterm, h⟩ := bind_eq_ok h
  rw [Recorded.makings_andThen hterm, Recorded.quiet, List.nil_append]
  have hsame : ∀ other, reading.term kind = .ok other → other = term := fun other hother =>
    Except.ok.inj (hother.symm.trans hterm)
  split at h
  · next hdropped =>
    rw [if_pos hdropped]
    rw [Bool.or_eq_true] at hdropped
    refine Or.inr ⟨(Except.ok.inj h).symm, rfl, fun other hother => ?_⟩
    obtain rfl := hsame other hother
    exact hdropped.imp_right Or.inl
  · next hkept =>
    rw [if_neg hkept]
    rw [Bool.not_eq_true, Bool.or_eq_false_iff] at hkept
    split at h
    · next maker hmaker =>
      rw [Recorded.result_andThen] at h
      obtain ⟨node, hnode, h⟩ := bind_eq_ok h
      rw [Recorded.makings_andThen hnode, Recorded.call, ← Recorded.result_call, hnode]
      exact Or.inl ⟨term, maker, node, hterm, hkept.1, hkept.2, hmaker, hnode,
        (Except.ok.inj h).symm, rfl⟩
    · next hmaker =>
      exact Or.inr ⟨(Except.ok.inj h).symm, rfl, fun _ _ => Or.inr (Or.inr hmaker)⟩

/-- A rule that is read calls its maker once, after all calls below it, or it is not shown. -/
theorem makings_record_node (h : (reading.record depth offset (.node kind children)).result =
      .ok made) :
    ∃ term, reading.term kind = .ok term ∧
      (term.flags.has .noNode = true ∧ made = none ∧
          (reading.record depth offset (.node kind children)).makings = [] ∨
        ∃ parts node, term.flags.has .noNode = false ∧
          (reading.recordParts (depth + 1) offset 0 children).result = .ok parts ∧
          reading.ruleNode kind
            ⟨term, reading.locateTree offset (.node kind children), none, parts⟩ = .ok node ∧
          made = some node ∧
          (reading.record depth offset (.node kind children)).makings =
            (reading.recordParts (depth + 1) offset 0 children).makings ++
              [⟨[], ⟨term, reading.locateTree offset (.node kind children), none, parts⟩,
                .ok node⟩]) := by
  rw [record] at h ⊢
  rw [Recorded.result_andThen] at h
  obtain ⟨term, hterm, h⟩ := bind_eq_ok h
  rw [Recorded.makings_andThen hterm, Recorded.quiet, List.nil_append]
  refine ⟨term, hterm, ?_⟩
  split at h
  · next hhidden =>
    rw [if_pos hhidden]
    exact Or.inl ⟨hhidden, (Except.ok.inj h).symm, rfl⟩
  · next hshown =>
    rw [if_neg hshown]
    split at h
    · cases h
    · next hdepth =>
      rw [if_neg hdepth]
      rw [Recorded.result_andThen] at h
      obtain ⟨parts, hparts, h⟩ := bind_eq_ok h
      rw [Recorded.result_andThen] at h
      obtain ⟨node, hnode, h⟩ := bind_eq_ok h
      rw [Recorded.makings_andThen hparts, Recorded.makings_andThen hnode, Recorded.call,
        ← Recorded.result_call, hnode]
      exact Or.inr ⟨parts, node, Bool.eq_false_iff.mpr hshown, hparts, hnode,
        (Except.ok.inj h).symm, rfl⟩

/-- The calls for some trees are those for the first one and those for the others. -/
theorem makings_recordParts_cons (htrivia : tree.isTrivia = false)
    (h : (reading.recordParts depth offset number (tree :: trees)).result = .ok parts) :
    ∃ part others, reading.term tree.kind = .ok part.term ∧
      (reading.record depth offset tree).result = .ok part.node ∧
      (reading.recordParts depth (offset + tree.byteLength) (number + 1) trees).result =
        .ok others ∧
      parts = part :: others ∧
      (reading.recordParts depth offset number (tree :: trees)).makings =
        (reading.record depth offset tree).makings.map (Making.under number) ++
          (reading.recordParts depth (offset + tree.byteLength) (number + 1) trees).makings := by
  rw [recordParts, if_neg (Bool.eq_false_iff.mp htrivia)] at h ⊢
  rw [Recorded.result_andThen] at h
  obtain ⟨term, hterm, h⟩ := bind_eq_ok h
  rw [Recorded.result_andThen] at h
  obtain ⟨made, hmade, h⟩ := bind_eq_ok h
  rw [Recorded.result_andThen] at h
  obtain ⟨others, hothers, h⟩ := bind_eq_ok h
  refine ⟨⟨term, made⟩, others, hterm, hmade, hothers, (Except.ok.inj h).symm, ?_⟩
  rw [Recorded.makings_andThen hterm, Recorded.makings_andThen hmade,
    Recorded.makings_andThen hothers]
  simp only [Recorded.quiet, List.nil_append, List.append_nil]
  rfl

end Reading

end TypedGrammar
