import TypedGrammar.Proofs.Tree.Parts

/-!
# Trees without their trivia

Trees may differ in nothing but the white space and the comments between their tokens.  The tokens
that are not trivia are then the same, but may stand at other offsets.
-/

namespace TypedGrammar

namespace Tree

mutual

/-- The tree without the trivia below it. -/
def withoutTrivia : Tree → Tree
  | .token kind text => .token kind text
  | .node kind children => .node kind (withoutTriviaOfAll children)

/-- The trees that are not trivia, without the trivia below them. -/
def withoutTriviaOfAll : List Tree → List Tree
  | [] => []
  | tree :: rest =>
    if tree.isTrivia then withoutTriviaOfAll rest
    else tree.withoutTrivia :: withoutTriviaOfAll rest

end

/-- Of tokens that follow each other from an offset on, those that are not trivia, each with the
offset at which it stands. -/
def standing (offset : ℕ) : List Token → List (ℕ × Token)
  | [] => []
  | head :: rest =>
    if head.kind = .trivia then standing (offset + head.text.utf8ByteSize) rest
    else (offset, head) :: standing (offset + head.text.utf8ByteSize) rest

variable {trees more later : List Tree} {tokens front rest : List Token} {d : ℕ}

theorem withoutTriviaOfAll_append (trees more : List Tree) :
    withoutTriviaOfAll (trees ++ more) = withoutTriviaOfAll trees ++ withoutTriviaOfAll more := by
  induction trees with
  | nil => rfl
  | cons tree rest ih =>
    rw [List.cons_append, withoutTriviaOfAll, withoutTriviaOfAll, ih]
    by_cases htrivia : tree.isTrivia
    · rw [if_pos htrivia, if_pos htrivia]
    · rw [if_neg htrivia, if_neg htrivia, List.cons_append]

theorem extent_cons (token : Token) (rest : List Token) :
    extent (token :: rest) = token.text.utf8ByteSize + extent rest := by
  rw [extent, List.map_cons, String.join_cons, String.utf8ByteSize_append]
  rfl

/-- Behind trivia, tokens stand further back. -/
theorem standing_append_of_trivia (h : ∀ token ∈ front, token.kind = .trivia) (offset : ℕ) :
    standing offset (front ++ rest) = standing (offset + extent front) rest := by
  induction front generalizing offset with
  | nil => rw [List.nil_append, extent_nil, Nat.add_zero]
  | cons head front ih =>
    rw [List.cons_append, standing, if_pos (h head List.mem_cons_self),
      ih fun t ht => h t (List.mem_cons_of_mem _ ht), extent_cons, Nat.add_assoc]

theorem standing_add (offset d : ℕ) (tokens : List Token) :
    standing (offset + d) tokens =
      (standing offset tokens).map fun place => (place.1 + d, place.2) := by
  induction tokens generalizing offset with
  | nil => rw [standing, standing, List.map_nil]
  | cons head rest ih =>
    rw [standing, standing, Nat.add_right_comm, ih]
    by_cases htrivia : head.kind = .trivia
    · rw [if_pos htrivia, if_pos htrivia]
    · rw [if_neg htrivia, if_neg htrivia, List.map_cons]

/-! ## More trivia before the first token -/

/-- The first trees differ from the others in trivia only, and have `d` bytes more of it before the
first token. -/
structure Delayed (d : ℕ) (later trees : List Tree) : Prop where
  withoutTrivia_eq : withoutTriviaOfAll later = withoutTriviaOfAll trees
  tokens_eq : ∃ front front' rest, tokensOfAll later = front' ++ rest ∧
    tokensOfAll trees = front ++ rest ∧ (∀ token ∈ front', token.kind = .trivia) ∧
    (∀ token ∈ front, token.kind = .trivia) ∧ extent front' = extent front + d

namespace Delayed

theorem append (h : Delayed d later trees) (more : List Tree) :
    Delayed d (later ++ more) (trees ++ more) := by
  obtain ⟨htrivia, front, front', rest, hlater, htrees, hfront', hfront, hextent⟩ := h
  refine ⟨?_, front, front', rest ++ tokensOfAll more, ?_, ?_, hfront', hfront, hextent⟩
  · rw [withoutTriviaOfAll_append, withoutTriviaOfAll_append, htrivia]
  · rw [tokensOfAll_append, hlater, List.append_assoc]
  · rw [tokensOfAll_append, htrees, List.append_assoc]

/-- Trees without tokens may stand before. -/
theorem prepend (h : Delayed d later trees) (hmore : tokensOfAll more = []) :
    Delayed d (more ++ later) (more ++ trees) := by
  obtain ⟨htrivia, front, front', rest, hlater, htrees, hfront', hfront, hextent⟩ := h
  refine ⟨?_, front, front', rest, ?_, ?_, hfront', hfront, hextent⟩
  · rw [withoutTriviaOfAll_append, withoutTriviaOfAll_append, htrivia]
  · rw [tokensOfAll_append, hmore, List.nil_append, hlater]
  · rw [tokensOfAll_append, hmore, List.nil_append, htrees]

theorem node (h : Delayed d later trees) (kind : TreeKind) :
    Delayed d [.node kind later] [.node kind trees] := by
  obtain ⟨htrivia, front, front', rest, hlater, htrees, hfront', hfront, hextent⟩ := h
  refine ⟨?_, front, front', rest, ?_, ?_, hfront', hfront, hextent⟩
  · simp only [withoutTriviaOfAll, withoutTrivia, htrivia]
    rfl
  · rw [tokensOfAll, Tree.tokens, tokensOfAll, List.append_nil, hlater]
  · rw [tokensOfAll, Tree.tokens, tokensOfAll, List.append_nil, htrees]

/-- The tokens stand `d` bytes further back. -/
theorem standing_eq (h : Delayed d later trees) (offset : ℕ) :
    standing offset (tokensOfAll later) =
      (standing offset (tokensOfAll trees)).map fun place => (place.1 + d, place.2) := by
  obtain ⟨_, front, front', rest, hlater, htrees, hfront', hfront, hextent⟩ := h
  rw [hlater, htrees, standing_append_of_trivia hfront', standing_append_of_trivia hfront, hextent,
    ← Nat.add_assoc, standing_add]

end Delayed

end Tree

end TypedGrammar
