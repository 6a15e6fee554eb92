import Mathlib.Data.List.Basic
import TypedGrammar.Tree.Basic

/-!
# Parts of trees

Induction over trees, the tokens of a tree in the order of the text, its parts, and how deep its
nodes are nested.
-/

namespace TypedGrammar

namespace Tree

/-- **Induction over trees.**  What holds of the children of a node carries over to the node. -/
@[induction_eliminator]
theorem induction {motive : Tree → Prop} (token : ∀ kind text, motive (.token kind text))
    (node : ∀ kind children, (∀ child ∈ children, motive child) → motive (.node kind children))
    (tree : Tree) : motive tree := by
  refine Tree.rec (motive_2 := fun trees => ∀ t ∈ trees, motive t) token node ?_ ?_ tree
  · intro t ht
    cases ht
  · intro head tail hhead htail t ht
    rcases List.mem_cons.mp ht with rfl | ht
    · exact hhead
    · exact htail t ht

/-! ## Tokens -/

/-- A token: what it stands for, and its text. -/
structure Token where
  kind : TreeKind
  text : String
  deriving DecidableEq, Repr

mutual

/-- The tokens of a tree, in the order of the text. -/
def tokens : Tree → List Token
  | .token kind text => [⟨kind, text⟩]
  | .node _ children => tokensOfAll children

/-- The tokens of a list of trees. -/
def tokensOfAll : List Tree → List Token
  | [] => []
  | tree :: rest => tree.tokens ++ tokensOfAll rest

end

@[simp] theorem tokensOfAll_append (trees more : List Tree) :
    tokensOfAll (trees ++ more) = tokensOfAll trees ++ tokensOfAll more := by
  induction trees with
  | nil => rfl
  | cons tree rest ih =>
    rw [List.cons_append, tokensOfAll, tokensOfAll, ih, List.append_assoc]

theorem textOfAll_eq_join_of {trees : List Tree}
    (h : ∀ tree ∈ trees, tree.text = String.join (tree.tokens.map Token.text)) :
    textOfAll trees = String.join ((tokensOfAll trees).map Token.text) := by
  induction trees with
  | nil => rfl
  | cons tree rest ih =>
    rw [textOfAll, tokensOfAll, List.map_append, String.join_append,
      h tree List.mem_cons_self, ih fun t ht => h t (List.mem_cons_of_mem _ ht)]

/-- The text of a tree is that of its tokens. -/
theorem text_eq_join (tree : Tree) : tree.text = String.join (tree.tokens.map Token.text) := by
  induction tree with
  | token kind text =>
    rw [Tree.text, tokens, List.map_singleton, String.join_cons, String.join_nil,
      String.append_empty]
  | node kind children ih =>
    rw [Tree.text, tokens]
    exact textOfAll_eq_join_of ih

/-! ## Lengths -/

theorem byteLengthOfAll_append (trees more : List Tree) :
    byteLengthOfAll (trees ++ more) = byteLengthOfAll trees + byteLengthOfAll more := by
  induction trees with
  | nil => rw [List.nil_append, byteLengthOfAll, Nat.zero_add]
  | cons tree rest ih =>
    rw [List.cons_append, byteLengthOfAll, byteLengthOfAll, ih, Nat.add_assoc]

/-- The length of a tree is that of its text. -/
theorem byteLength_eq (tree : Tree) : tree.byteLength = tree.text.utf8ByteSize := by
  induction tree with
  | token kind text => rfl
  | node kind children ih =>
    rw [byteLength, Tree.text]
    induction children with
    | nil => rfl
    | cons child rest ihRest =>
      rw [byteLengthOfAll, textOfAll, String.utf8ByteSize_append, ih child List.mem_cons_self,
        ihRest fun t ht => ih t (List.mem_cons_of_mem _ ht)]

/-- The length of some trees is that of the texts of their tokens. -/
theorem byteLengthOfAll_eq (trees : List Tree) :
    byteLengthOfAll trees =
      (String.join ((tokensOfAll trees).map Token.text)).utf8ByteSize := by
  rw [← textOfAll_eq_join_of fun tree _ => text_eq_join tree]
  exact byteLength_eq (.node .document trees)

/-- How many bytes of a text some tokens take. -/
def extent (tokens : List Token) : ℕ :=
  (String.join (tokens.map Token.text)).utf8ByteSize

@[simp] theorem extent_nil : extent [] = 0 := by
  rw [extent, List.map_nil, String.join_nil, String.utf8ByteSize_empty]

@[simp] theorem extent_append (tokens more : List Token) :
    extent (tokens ++ more) = extent tokens + extent more := by
  rw [extent, List.map_append, String.join_append, String.utf8ByteSize_append]
  rfl

/-- The length of a tree is that of its tokens. -/
theorem byteLength_eq_extent (tree : Tree) : tree.byteLength = extent tree.tokens := by
  rw [byteLength_eq, text_eq_join, extent]

/-! ## Nesting -/

mutual

/-- How deep nodes are nested in a tree. -/
def height : Tree → ℕ
  | .token _ _ => 0
  | .node _ children => heightOfAll children + 1

/-- How deep nodes are nested in the deepest tree of a list. -/
def heightOfAll : List Tree → ℕ
  | [] => 0
  | tree :: rest => max tree.height (heightOfAll rest)

end

theorem heightOfAll_le_iff {trees : List Tree} {n : ℕ} :
    heightOfAll trees ≤ n ↔ ∀ tree ∈ trees, tree.height ≤ n := by
  induction trees with
  | nil => simp [heightOfAll]
  | cons tree rest ih =>
    rw [heightOfAll, Nat.max_le, ih, List.forall_mem_cons]

/-- The children of a node are nested less deep. -/
theorem height_lt_of_mem (kind : TreeKind) {children : List Tree} {child : Tree}
    (h : child ∈ children) : child.height < (node kind children).height := by
  rw [height]
  exact Nat.lt_succ_of_le (heightOfAll_le_iff.mp (Nat.le_refl _) child h)

end Tree

end TypedGrammar
