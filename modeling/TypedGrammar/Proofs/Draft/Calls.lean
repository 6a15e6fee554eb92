import TypedGrammar.Proofs.Draft.Declarations
import TypedGrammar.Proofs.Draft.Laws

/-!
# Calls

The steps by which rules are put together.  The evaluation of a rule consists of such calls and of
the definitions of node types, so it keeps what they keep.
-/

namespace TypedGrammar

/-- A step by which a rule is put together, other than the definition of a node type. -/
inductive Call
  | identifier (type : IdentifierDeclaration)
  | literal (type : LiteralDeclaration)
  | constant (type : ConstantDeclaration)
  | operator (type : OperatorDeclaration)
  | key (request : KeyRequest)
  | braces (opening : String) (inside : Shape) (closing : String) (omissible : Bool)
  | optional (shape : Shape)
  | list (element : ValueType) (shape : Shape) (delimiter : Option Shape) (bounds : Bounds)
  | withoutNode (shape : Shape)
  | custom (name : String) (shape : Shape) (maker : Maker)

namespace Call

/-- Makes the call. -/
def run : Call → Drafting Shape
  | identifier type => .term <$> Drafting.identifier type
  | literal type => .term <$> Drafting.literal type
  | constant type => .term <$> Drafting.constant type
  | operator type => .term <$> Drafting.operator type
  | key request => .term <$> Drafting.key request
  | braces opening inside closing omissible => Drafting.braces opening inside closing omissible
  | optional shape => Drafting.optional shape
  | list element shape delimiter bounds => Drafting.list element shape delimiter bounds
  | withoutNode shape => Drafting.withoutNode shape
  | custom name shape maker => Drafting.custom name shape maker

/-- The declaration that a call is about. -/
def declaration? : Call → Option TypeDeclaration
  | identifier type => some (.identifier type)
  | literal type => some (.literal type)
  | constant type => some (.constant type)
  | operator type => some (.operator type)
  | _ => none

end Call

namespace Rule

mutual

/-- The declarations that a rule names, besides node types. -/
def declarations : Rule → List TypeDeclaration
  | shape _ => []
  | hint _ => []
  | node _ => []
  | identifier type => [.identifier type]
  | literal type => [.literal type]
  | constant type => [.constant type]
  | operator type => [.operator type]
  | key _ => []
  | braces _ inside _ _ => declarations inside
  | optional inner => declarations inner
  | withoutNode inner => declarations inner
  | list _ item _ => declarations item
  | listOf _ item delimiter _ => declarations item ++ declarations delimiter
  | custom _ inner _ => declarations inner
  | all items => declarationsOfAll items
  | followedBy first second => declarations first ++ declarations second
  | firstOf items => declarationsOfAll items
  | star item => declarations item
  | plus item => declarations item
  | orEmpty inner => declarations inner
  | sequence items => declarationsOfAll items
  | choice items => declarationsOfAll items
  | repeated item _ => declarations item
  | separated item delimiter _ => declarations item ++ declarations delimiter
  | fail _ _ => []
  | attempt inner => declarations inner

/-- The declarations that the rules of a list name. -/
def declarationsOfAll : List Rule → List TypeDeclaration
  | [] => []
  | rule :: rest => declarations rule ++ declarationsOfAll rest

end

open Drafting

variable {R : Draft → Draft → Prop} [Std.Refl R] [IsTrans Draft R] {P : TypeDeclaration → Prop}
  {define : ℕ → Drafting TermIndex}

mutual

/-- **Evaluation of rules.**  The evaluation of a rule keeps what is kept by the definitions of node
types, and by all calls about declarations that the rule may name. -/
theorem follows_eval (hcall : ∀ call : Call, (∀ d, call.declaration? = some d → P d) →
      call.run.Follows R) (hdefine : ∀ number, (define number).Follows R) :
    ∀ rule : Rule, (∀ d ∈ rule.declarations, P d) → (rule.eval define).Follows R
  | shape s, _ => follows_pure s
  | hint h, _ => follows_pure (Shape.hint h)
  | node number, _ => follows_map (hdefine number)
  | identifier type, h => hcall (.identifier type) fun _ hd =>
    h _ (List.mem_singleton.mpr (Option.some.inj hd).symm)
  | literal type, h => hcall (.literal type) fun _ hd =>
    h _ (List.mem_singleton.mpr (Option.some.inj hd).symm)
  | constant type, h => hcall (.constant type) fun _ hd =>
    h _ (List.mem_singleton.mpr (Option.some.inj hd).symm)
  | operator type, h => hcall (.operator type) fun _ hd =>
    h _ (List.mem_singleton.mpr (Option.some.inj hd).symm)
  | key request, _ => hcall (.key request) fun _ hd => nomatch hd
  | braces opening inside closing omissible, h =>
    follows_bind (follows_eval hcall hdefine inside h) fun shape =>
      hcall (.braces opening shape closing omissible) fun _ hd => nomatch hd
  | optional inner, h =>
    follows_bind (follows_eval hcall hdefine inner h) fun shape =>
      hcall (.optional shape) fun _ hd => nomatch hd
  | withoutNode inner, h =>
    follows_bind (follows_eval hcall hdefine inner h) fun shape =>
      hcall (.withoutNode shape) fun _ hd => nomatch hd
  | list element item bounds, h =>
    follows_bind (follows_eval hcall hdefine item h) fun shape =>
      hcall (.list element shape none bounds) fun _ hd => nomatch hd
  | listOf element item delimiter bounds, h =>
    have ⟨hitem, hdelimiter⟩ := List.forall_mem_append.mp h
    follows_bind (follows_eval hcall hdefine item hitem) fun shape =>
      follows_bind (follows_eval hcall hdefine delimiter hdelimiter) fun d =>
        hcall (.list element shape (some d) bounds) fun _ hd => nomatch hd
  | custom name inner maker, h =>
    follows_bind (follows_eval hcall hdefine inner h) fun shape =>
      hcall (.custom name shape maker) fun _ hd => nomatch hd
  | all items, h =>
    follows_bind (follows_evalAll hcall hdefine items h) fun _ => follows_pure _
  | followedBy first second, h =>
    have ⟨hfirst, hsecond⟩ := List.forall_mem_append.mp h
    follows_bind (follows_eval hcall hdefine first hfirst) fun _ =>
      follows_bind (follows_eval hcall hdefine second hsecond) fun _ => follows_pure _
  | firstOf items, h => by
    refine follows_bind (follows_evalAll hcall hdefine items h) fun shapes => ?_
    split
    · exact follows_pure _
    · exact follows_pure _
  | star item, h | plus item, h | orEmpty item, h | repeated item _, h =>
    follows_bind (follows_eval hcall hdefine item h) fun _ => follows_pure _
  | sequence items, h | choice items, h =>
    follows_bind (follows_evalAll hcall hdefine items h) fun _ => follows_pure _
  | separated item delimiter _, h =>
    have ⟨hitem, hdelimiter⟩ := List.forall_mem_append.mp h
    follows_bind (follows_eval hcall hdefine item hitem) fun _ =>
      follows_bind (follows_eval hcall hdefine delimiter hdelimiter) fun _ => follows_pure _
  | fail _ _, _ => follows_throw _
  | attempt inner, h =>
    follows_tryCatch (follows_eval hcall hdefine inner h) fun _ => follows_pure _

theorem follows_evalAll (hcall : ∀ call : Call, (∀ d, call.declaration? = some d → P d) →
      call.run.Follows R) (hdefine : ∀ number, (define number).Follows R) :
    ∀ rules : List Rule, (∀ d ∈ declarationsOfAll rules, P d) → (evalAll define rules).Follows R
  | [], _ => follows_pure []
  | rule :: rest, h =>
    have ⟨hrule, hrest⟩ := List.forall_mem_append.mp h
    follows_bind (follows_eval hcall hdefine rule hrule) fun _ =>
      follows_bind (follows_evalAll hcall hdefine rest hrest) fun _ => follows_pure _

end

end Rule

end TypedGrammar
