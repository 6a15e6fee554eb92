import TypedGrammar.Node.Maker
import TypedGrammar.Diagnostic

/-!
# Layers of nodes

Whatever node is made from nodes that were made: no sequence in it consists of exactly one
sequence, and no optional and no brace in it holds a sequence of exactly one node.  So a tower of
sequences has one layer at most, and to unwrap a sequence once is to unwrap it entirely.  All nodes
of value trees are made in this way.
-/

namespace TypedGrammar

namespace Node

/-- Nodes without needless layers, down to the last one of them. -/
inductive IsTidy : Node → Prop
  | sequence (location : Location) {children : List Node} (h : ∀ n ∈ children, IsTidy n)
    (hsole : ∀ l ns, children ≠ [.sequence l ns]) : IsTidy (.sequence location children)
  | absent (location : Location) : IsTidy (.absent location)
  | present (location : Location) {inner : Node} (h : IsTidy inner)
    (hsole : ∀ l n, inner ≠ .sequence l [n]) : IsTidy (.present location inner)
  | brace (location : Location) (opening closing : Option String) {nested : Node}
    (h : IsTidy nested) (hsole : ∀ l n, nested ≠ .sequence l [n]) :
    IsTidy (.brace location opening closing nested)
  | identifier (location : Location) (symbol : String) : IsTidy (.identifier location symbol)
  | key (location : Location) (value : Value) (name text : String) (flags : Flags)
    (precedence : Option Precedence) : IsTidy (.key location value name text flags precedence)
  | constant (location : Location) (value : Value) : IsTidy (.constant location value)
  | literal (location : Location) (value : Value) (raw : String) :
    IsTidy (.literal location value raw)
  | list (location : Location) (element : ValueType) {children : List Node}
    (h : ∀ n ∈ children, IsTidy n) : IsTidy (.list location element children)
  | declared (location : Location) (owner : DeclaredNode) (value : Value) {children : List Node}
    (h : ∀ n ∈ children, IsTidy n) : IsTidy (.declared location owner value children)

/-- A node that is made from an occurrence, all nodes of which are made. -/
inductive IsMade : Node → Prop
  | make {node : Node} (maker : Maker) (occurrence : Occurrence)
    (h : maker.make occurrence = .ok node) (hnodes : ∀ n ∈ occurrence.nodes, IsMade n) :
    IsMade node

variable {node : Node} {nodes : List Node} {location : Location}

/-! ## The constructors -/

theorem IsTidy.children (h : IsTidy (.sequence location nodes)) :
    (∀ n ∈ nodes, n.IsTidy) ∧ ∀ l ns, nodes ≠ [.sequence l ns] := by
  cases h with
  | sequence _ h hsole => exact ⟨h, hsole⟩

/-- Under a tidy sequence there is no other one to be taken away. -/
theorem towerTopOf_of_isTidy (h : IsTidy (.sequence location nodes)) :
    towerTopOf nodes = nodes := by
  obtain ⟨_, hsole⟩ := h.children
  match nodes with
  | [] | _ :: _ :: _ => rw [towerTopOf]; nofun
  | [only] =>
    rw [towerTopOf]
    cases only with
    | sequence l ns => exact absurd rfl (hsole l ns)
    | _ => rw [towerTop]; nofun

/-- A sequence of tidy nodes takes over the children of its only child, if that is a sequence. -/
theorem isTidy_ofSequence (h : ∀ n ∈ nodes, n.IsTidy) : (ofSequence location nodes).IsTidy := by
  unfold ofSequence
  match nodes with
  | [.sequence l ns] =>
    have honly := h _ List.mem_cons_self
    obtain ⟨hchildren, hsole⟩ := honly.children
    rw [towerTopOf, towerTop, towerTopOf_of_isTidy honly]
    exact .sequence location hchildren hsole
  | [] => exact .sequence location h nofun
  | first :: second :: rest => exact .sequence location h nofun
  | [.absent _] | [.present _ _] | [.brace _ _ _ _] | [.identifier _ _] | [.key _ _ _ _ _ _]
  | [.constant _ _] | [.literal _ _ _] | [.list _ _ _] | [.declared _ _ _ _] =>
    exact .sequence location h nofun

/-- What is left of a tidy node is not a sequence of one node. -/
theorem isTidy_soleOrSelf (h : node.IsTidy) :
    node.soleOrSelf.IsTidy ∧ ∀ l n, node.soleOrSelf ≠ .sequence l [n] := by
  match node with
  | .sequence l [only] =>
    obtain ⟨hchildren, hsole⟩ := h.children
    exact ⟨hchildren only List.mem_cons_self,
      fun l' n heq => hsole l' [n] (congrArg (fun m => [m]) heq)⟩
  | .sequence l [] | .sequence l (_ :: _ :: _) | .absent _ | .present _ _ | .brace _ _ _ _
  | .identifier _ _ | .key _ _ _ _ _ _ | .constant _ _ | .literal _ _ _ | .list _ _ _
  | .declared _ _ _ _ => exact ⟨h, nofun⟩

theorem isTidy_ofOptional {inner : Option Node} (h : ∀ n, inner = some n → n.IsTidy) :
    (ofOptional location inner).IsTidy := by
  cases inner with
  | none => exact .absent location
  | some n =>
    obtain ⟨htidy, hsole⟩ := isTidy_soleOrSelf (h n rfl)
    exact .present location htidy hsole

end Node

namespace Occurrence

variable {occurrence : Occurrence}

/-- Nodes of an occurrence are those of its parts. -/
theorem mem_nodes {node : Node} :
    node ∈ occurrence.nodes ↔ ∃ part ∈ occurrence.parts, part.node = some node :=
  List.mem_filterMap

variable (h : ∀ n ∈ occurrence.nodes, n.IsTidy)
include h

theorem isTidy_toSequence : occurrence.toSequence.IsTidy :=
  Node.isTidy_ofSequence h

theorem isTidy_toOptional : occurrence.toOptional.IsTidy := by
  refine Node.isTidy_ofOptional fun n hn => ?_
  split at hn
  · cases hn
  · next part hparts => exact h n (mem_nodes.mpr ⟨part, hparts ▸ List.mem_cons_self, hn⟩)
  · obtain rfl := Option.some.inj hn
    exact isTidy_toSequence h

theorem isTidy_toBrace : occurrence.toBrace.IsTidy := by
  have hbare : ∀ opening closing, (Node.brace occurrence.location opening closing
      occurrence.toSequence.soleOrSelf).IsTidy := fun opening closing =>
    have ⟨htidy, hsole⟩ := Node.isTidy_soleOrSelf (isTidy_toSequence h)
    .brace _ _ _ htidy hsole
  unfold toBrace
  split
  · next opening middle closing hparts =>
    split
    · have hmiddle : (middle.node.getD (Node.ofSequence occurrence.location [])).IsTidy := by
        cases hnode : middle.node with
        | none => exact Node.isTidy_ofSequence fun n hn => absurd hn List.not_mem_nil
        | some n => exact h n (mem_nodes.mpr ⟨middle, by simp [hparts], hnode⟩)
      obtain ⟨htidy, hsole⟩ := Node.isTidy_soleOrSelf hmiddle
      exact .brace _ _ _ htidy hsole
    · exact hbare none none
  · exact hbare none none

end Occurrence

/-- **One step.**  Every maker makes tidy nodes of tidy nodes. -/
theorem Maker.isTidy_of_make {maker : Maker} {occurrence : Occurrence} {node : Node}
    (hmake : maker.make occurrence = .ok node) (h : ∀ n ∈ occurrence.nodes, n.IsTidy) :
    node.IsTidy := by
  cases maker with
  | sequence =>
    obtain rfl := Except.ok.inj hmake
    exact Occurrence.isTidy_toSequence h
  | optional =>
    obtain rfl := Except.ok.inj hmake
    exact Occurrence.isTidy_toOptional h
  | brace =>
    obtain rfl := Except.ok.inj hmake
    exact Occurrence.isTidy_toBrace h
  | list element =>
    obtain rfl := Except.ok.inj hmake
    exact .list _ _ fun n hn => h n (List.mem_filter.mp hn).1
  -- The first node below is handed on as it is.
  | first =>
    rw [make] at hmake
    split at hmake
    · next first rest hnodes =>
      obtain rfl := Except.ok.inj hmake
      exact h _ (hnodes ▸ List.mem_cons_self)
    · cases hmake
  | key value precedence =>
    obtain rfl := Except.ok.inj hmake
    exact .key _ _ _ _ _ _
  | constant type =>
    rw [make] at hmake
    split at hmake
    · obtain ⟨value, _, rfl⟩ := map_eq_ok hmake
      exact .constant _ _
    · cases hmake
  | identifier symbol =>
    obtain ⟨name, _, rfl⟩ := map_eq_ok hmake
    exact .identifier _ _
  | literal read =>
    obtain ⟨⟨value, raw⟩, _, rfl⟩ := map_eq_ok hmake
    exact .literal _ _ _
  | declared owner value =>
    obtain ⟨result, _, rfl⟩ := map_eq_ok hmake
    exact .declared _ _ _ h

/-- **Nodes that are made are tidy.** -/
theorem Node.IsMade.isTidy {node : Node} (h : node.IsMade) : node.IsTidy := by
  induction h with
  | make maker occurrence hmake _ ih => exact Maker.isTidy_of_make hmake ih

end TypedGrammar
