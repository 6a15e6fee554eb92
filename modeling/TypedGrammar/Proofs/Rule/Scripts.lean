import TypedGrammar.Proofs.Draft.Definitions

/-!
# Scripts

What the rule of a node type does to a draft, step by step: it makes calls, refers to node types,
and may look at what became of a part before it goes on.  Every rule has a script, whose run is the
evaluation of the rule; and so has what is left to do after the shape of a node type is stored.
-/

namespace TypedGrammar

namespace Drafting

variable {α : Type}

/-- The outcome of a step as the result of a step that does not fail. -/
def observe (p : Drafting α) : Drafting (Except Error α) :=
  tryCatch (.ok <$> p) fun e => return .error e

@[simp] theorem runOn_observe (p : Drafting α) (draft : Draft) :
    (observe p).runOn draft = (.ok (p.runOn draft).1, (p.runOn draft).2) := by
  unfold observe
  rw [runOn_tryCatch, runOn_map]
  rcases p.runOn draft with ⟨_ | a, after⟩ <;> rfl

/-- A step is what it does to each draft. -/
theorem ext_runOn {p q : Drafting α} (h : ∀ draft, p.runOn draft = q.runOn draft) : p = q :=
  funext h

end Drafting

/-- What is done to a draft for a shape. -/
inductive Script
  | done (shape : Shape)
  | fail (e : Error)
  | call (call : Call)
  | setFlags (index : TermIndex) (flags : Flags) (on : Bool)
  /-- Refers to a node type. -/
  | node (number : ℕ)
  /-- Goes on with the shape of a first part, unless that fails. -/
  | andThen (first : Script) (next : Shape → Script)
  /-- Goes on with the shape of a part, or with its error. -/
  | attempt (body : Script) (handler : Error → Script) (next : Shape → Script)

/-- Does what the script says; `define` yields the term of a node type. -/
def Script.run (define : ℕ → Drafting TermIndex) : Script → Drafting Shape
  | done shape => return shape
  | fail e => throw e
  | call c => c.run
  | setFlags index flags on => do
    Drafting.setFlags index flags on
    return .empty
  | node number => .term <$> define number
  | andThen first next => do (next (← first.run define)).run define
  | attempt body handler next => do
    match ← Drafting.observe (body.run define) with
    | .ok shape => (next shape).run define
    | .error e => (handler e).run define

namespace Rule

mutual

/-- What the rule does. -/
def script : Rule → Script
  | shape s => .done s
  | hint h => .done (.hint h)
  | node number => .node number
  | identifier type => .call (.identifier type)
  | literal type => .call (.literal type)
  | constant type => .call (.constant type)
  | operator type => .call (.operator type)
  | key request => .call (.key request)
  | braces opening inside closing omissible =>
    .andThen (script inside) fun s => .call (.braces opening s closing omissible)
  | optional inner => .andThen (script inner) fun s => .call (.optional s)
  | withoutNode inner => .andThen (script inner) fun s => .call (.withoutNode s)
  | list element item bounds =>
    .andThen (script item) fun s => .call (.list element s none bounds)
  | listOf element item delimiter bounds =>
    .andThen (script item) fun s =>
      .andThen (script delimiter) fun d => .call (.list element s (some d) bounds)
  | custom name inner maker => .andThen (script inner) fun s => .call (.custom name s maker)
  | all items => scriptAll items fun shapes => .done (shapes.foldl (· ++ ·) .empty)
  | followedBy first second =>
    .andThen (script first) fun a => .andThen (script second) fun b => .done (a ++ b)
  | firstOf items => scriptAll items fun shapes =>
    match shapes with
    | [] => .done .empty
    | first :: rest => .done (rest.foldl (· ||| ·) first)
  | star item => .andThen (script item) fun s => .done s.star
  | plus item => .andThen (script item) fun s => .done s.plus
  | orEmpty inner => .andThen (script inner) fun s => .done s.orEmpty
  | sequence items => scriptAll items fun shapes => .done (.sequence shapes)
  | choice items => scriptAll items fun shapes => .done (.choice shapes)
  | repeated item bounds => .andThen (script item) fun s => .done (.repeated s bounds)
  | separated item delimiter bounds =>
    .andThen (script item) fun s =>
      .andThen (script delimiter) fun d => .done (.separated s d bounds)
  | fail name message => .fail (.rule name message)
  | attempt inner => .attempt (script inner) (fun _ => .done .empty) .done

/-- What the rules of a list do, one after the other, and what is done with their shapes. -/
def scriptAll : List Rule → (List Shape → Script) → Script
  | [], next => next []
  | rule :: rest, next =>
    .andThen (script rule) fun s => scriptAll rest fun shapes => next (s :: shapes)

end

variable (define : ℕ → Drafting TermIndex)

mutual

/-- **Rules as scripts.**  The evaluation of a rule is the run of its script. -/
theorem run_script : ∀ rule : Rule, rule.script.run define = rule.eval define
  | shape _ | hint _ | node _ | identifier _ | literal _ | constant _ | operator _ | key _
  | fail _ _ => rfl
  | braces _ inner _ _ | optional inner | withoutNode inner | list _ inner _ | custom _ inner _ => by
    simp only [script, Script.run, eval, run_script inner]
    rfl
  | star inner | plus inner | orEmpty inner | repeated inner _ => by
    simp only [script, Script.run, eval, run_script inner]
  | listOf _ item delimiter _ => by
    simp only [script, Script.run, eval, run_script item, run_script delimiter]
    rfl
  | followedBy first second | separated first second _ => by
    simp only [script, Script.run, eval, run_script first, run_script second]
  | all items | sequence items | choice items => by
    rw [script, run_scriptAll items, eval]
    rfl
  | firstOf items => by
    rw [script, run_scriptAll items, eval]
    congr 1
    funext shapes
    cases shapes <;> rfl
  | attempt inner => by
    refine Drafting.ext_runOn fun draft => ?_
    rw [script, Script.run, run_script inner, eval, Drafting.runOn_bind, Drafting.runOn_observe,
      Drafting.runOn_tryCatch]
    rcases (inner.eval define).runOn draft with ⟨_ | s, after⟩ <;> rfl

theorem run_scriptAll : ∀ (rules : List Rule) (next : List Shape → Script),
    (scriptAll rules next).run define =
      evalAll define rules >>= fun shapes => (next shapes).run define
  | [], next => rfl
  | rule :: rest, next => by
    simp only [scriptAll, Script.run, evalAll, run_script rule, bind_assoc, pure_bind]
    congr 1
    funext s
    exact run_scriptAll rest fun shapes => next (s :: shapes)

end

end Rule

namespace Afterthought

/-- What an afterthought does. -/
def script (index : TermIndex) : Afterthought → Script
  | setFlags flags on => .setFlags index flags on
  | evaluate rule => rule.script

/-- What afterthoughts do, one after the other. -/
def scriptAll (index : TermIndex) : List Afterthought → Script
  | [] => .done .empty
  | thought :: rest => .andThen (thought.script index) fun _ => scriptAll index rest

variable (define : ℕ → Drafting TermIndex) (index : TermIndex)

theorem run_scriptAll (thoughts : List Afterthought) :
    (scriptAll index thoughts).run define = do
      thoughts.forM (·.run define index)
      return .empty := by
  induction thoughts with
  | nil => rfl
  | cons thought rest ih =>
    show ((thought.script index).run define >>= fun _ => (scriptAll index rest).run define) =
      (thought.run define index >>= fun _ => rest.forM (·.run define index)) >>= fun _ => _
    rw [ih, bind_assoc]
    cases thought with
    | setFlags flags on =>
      show (Drafting.setFlags index flags on >>= fun _ => pure Shape.empty) >>= _ = _
      rw [bind_assoc]
      rfl
    | evaluate rule =>
      show rule.script.run define >>= _ = (fun _ => ()) <$> rule.eval define >>= _
      rw [Rule.run_script, bind_map_left]

end Afterthought

namespace NodeDeclaration

/-- What the afterthoughts of a node type do. -/
def afterScript (type : NodeDeclaration) (index : TermIndex) : Script :=
  Afterthought.scriptAll index type.afterthoughts

end NodeDeclaration

namespace Drafting

/-- To fill in a node type is to run the script of its rule, to store the shape, and to run the
script of its afterthoughts. -/
theorem fillNode_eq (define : ℕ → Drafting TermIndex) (type : NodeDeclaration) (index : TermIndex) :
    fillNode define type index = do
      setShape index (← type.rule.script.run define)
      let _ ← (type.afterScript index).run define
      return index := by
  unfold fillNode NodeDeclaration.afterScript
  rw [Rule.run_script, Afterthought.run_scriptAll]
  simp only [bind_assoc, pure_bind]

end Drafting

end TypedGrammar
