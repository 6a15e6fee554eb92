import TypedGrammar.Proofs.Tree.Parts

/-!
# Paths

A part of a tree is found by the numbers of the children that lead to it.  All children are counted,
trivia included.  Positions come one after the other, children before parents and from left to
right, and so many bytes of the text stand before what is at a position.
-/

namespace TypedGrammar

/-! ## Parts at paths -/

namespace Tree

/-- The part to which a path leads. -/
def at? : Tree → List ℕ → Option Tree
  | tree, [] => some tree
  | .token _ _, _ :: _ => none
  | .node _ children, number :: path => (children[number]?).bind fun child => at? child path

/-- The trees that are not trivia, with their numbers. -/
def numberedParts (number : ℕ) : List Tree → List (ℕ × Tree)
  | [] => []
  | tree :: rest =>
    if tree.isTrivia then numberedParts (number + 1) rest
    else (number, tree) :: numberedParts (number + 1) rest

variable {number : ℕ} {trees : List Tree} {place : ℕ × Tree}

theorem mem_numberedParts : place ∈ numberedParts number trees ↔
    ∃ k, place.1 = number + k ∧ trees[k]? = some place.2 ∧ place.2.isTrivia = false := by
  induction trees generalizing number with
  | nil => simp [numberedParts]
  | cons tree rest ih =>
    have hcons : place ∈ numberedParts number (tree :: rest) ↔
        place = (number, tree) ∧ tree.isTrivia = false ∨
          place ∈ numberedParts (number + 1) rest := by
      rw [numberedParts]
      split <;> simp [*]
    rw [hcons, ih]
    constructor
    · rintro (⟨rfl, htrivia⟩ | ⟨k, hnumber, hget, htrivia⟩)
      · exact ⟨0, rfl, rfl, htrivia⟩
      · exact ⟨k + 1, by omega, hget, htrivia⟩
    · rintro ⟨_ | k, hnumber, hget, htrivia⟩
      · obtain rfl := Option.some.inj hget
        exact Or.inl ⟨Prod.ext hnumber rfl, htrivia⟩
      · exact Or.inr ⟨k, by omega, hget, htrivia⟩

theorem le_of_mem_numberedParts (h : place ∈ numberedParts number trees) : number ≤ place.1 := by
  obtain ⟨k, hnumber, _⟩ := mem_numberedParts.mp h
  omega

/-- If numbers begin at zero, then they are those of the children of a rule. -/
theorem mem_numberedParts_zero : place ∈ numberedParts 0 trees ↔
    trees[place.1]? = some place.2 ∧ place.2.isTrivia = false := by
  rw [mem_numberedParts]
  simp only [Nat.zero_add, exists_eq_left']

end Tree

/-! ## Postorder -/

namespace Tree

/-- **Postorder.**  A position comes before another one if it is below the other one, or if it is to
the left where their ways part. -/
inductive Precedes : List ℕ → List ℕ → Prop
  | parent {number path} : Precedes (number :: path) []
  | left {number number' path path'} (h : number < number') :
    Precedes (number :: path) (number' :: path')
  | inside {number path path'} (h : Precedes path path') :
    Precedes (number :: path) (number :: path')

/-- How many bytes of a tree stand before the part at a path. -/
def bytesBefore : Tree → List ℕ → ℕ
  | _, [] => 0
  | .token _ _, _ :: _ => 0
  | .node _ children, number :: path =>
    byteLengthOfAll (children.take number) +
      (children[number]?).elim 0 fun child => bytesBefore child path

variable {root sub : Tree} {kind : TreeKind} {children : List Tree} {path path' : List ℕ}
  {number : ℕ}

/-! ### The order -/

/-- No two positions come before each other. -/
theorem Precedes.asymm (h : Precedes path path') : ¬ Precedes path' path := by
  induction h with
  | parent => nofun
  | left hlt =>
    intro h
    cases h with
    | left hgt => exact Nat.lt_asymm hlt hgt
    | inside => exact Nat.lt_irrefl _ hlt
  | inside _ ih =>
    intro h
    cases h with
    | left hlt => exact Nat.lt_irrefl _ hlt
    | inside h => exact ih h

/-! ### One step further -/

@[simp] theorem at?_nil (root : Tree) : root.at? [] = some root := by
  cases root <;> rfl

@[simp] theorem bytesBefore_nil (root : Tree) : root.bytesBefore [] = 0 := by
  cases root <;> rfl

/-- From a rule, a path goes on to one of its children. -/
theorem at?_concat (h : root.at? path = some (.node kind children)) (number : ℕ) :
    root.at? (path ++ [number]) = children[number]? := by
  induction path generalizing root with
  | nil =>
    rw [at?_nil] at h
    obtain rfl := Option.some.inj h
    rw [List.nil_append, at?]
    simp
  | cons first path ih =>
    cases root with
    | token => cases h
    | node outer others =>
      obtain ⟨child, hchild, h⟩ := Option.bind_eq_some_iff.mp h
      rw [List.cons_append, at?, hchild, Option.bind_some, ih h]

/-- Before a child there is what is before the rule, and the children before it. -/
theorem bytesBefore_concat (h : root.at? path = some (.node kind children)) (number : ℕ) :
    root.bytesBefore (path ++ [number]) =
      root.bytesBefore path + byteLengthOfAll (children.take number) := by
  induction path generalizing root with
  | nil =>
    rw [at?_nil] at h
    obtain rfl := Option.some.inj h
    rw [List.nil_append, bytesBefore_nil, Nat.zero_add, bytesBefore]
    cases children[number]? <;> simp
  | cons first path ih =>
    cases root with
    | token => cases h
    | node outer others =>
      obtain ⟨child, hchild, h⟩ := Option.bind_eq_some_iff.mp h
      rw [List.cons_append, bytesBefore, bytesBefore, hchild, Option.elim_some, Option.elim_some,
        ih h, Nat.add_assoc]

/-! ### The text -/

@[simp] theorem textOfAll_append (trees more : List Tree) :
    textOfAll (trees ++ more) = textOfAll trees ++ textOfAll more := by
  induction trees with
  | nil => rw [List.nil_append, textOfAll, String.empty_append]
  | cons tree rest ih => rw [List.cons_append, textOfAll, textOfAll, ih, String.append_assoc]

/-- **Place in the text.**  The text of what is at a position is part of the text of the tree,
behind as many bytes as there are before it. -/
theorem exists_text_eq (h : root.at? path = some sub) : ∃ before behind,
    root.text = before ++ sub.text ++ behind ∧ before.utf8ByteSize = root.bytesBefore path := by
  induction path generalizing root with
  | nil =>
    rw [at?_nil] at h
    obtain rfl := Option.some.inj h
    exact ⟨"", "", by simp, by simp⟩
  | cons number path ih =>
    cases root with
    | token => cases h
    | node outer children =>
      obtain ⟨child, hchild, h⟩ := Option.bind_eq_some_iff.mp h
      obtain ⟨before, behind, htext, hsize⟩ := ih h
      obtain ⟨hlt, hget⟩ := List.getElem?_eq_some_iff.mp hchild
      have hchildren : children = children.take number ++ child :: children.drop (number + 1) := by
        rw [← hget, List.getElem_cons_drop, List.take_append_drop]
      refine ⟨textOfAll (children.take number) ++ before,
        behind ++ textOfAll (children.drop (number + 1)), ?_, ?_⟩
      · rw [Tree.text]
        conv_lhs => rw [hchildren]
        rw [textOfAll_append, textOfAll, htext]
        simp only [String.append_assoc]
      · have hfront := byteLength_eq (.node .document (children.take number))
        rw [String.utf8ByteSize_append, hsize, bytesBefore, hchild, Option.elim_some]
        exact congrArg (· + _) hfront.symm

end Tree

end TypedGrammar
