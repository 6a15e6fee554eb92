import Mathlib.Data.Finset.Card
import Mathlib.Data.Finset.Range
import TypedGrammar.Proofs.Rule.NodeTypes
import TypedGrammar.Proofs.Rule.Scripts

/-!
# Performances

What is done in the course of a script, and of the scripts of the node types that it refers to.  A
node type is registered before the script of its rule is performed, so a script that refers to a
node type under way finds it, and however the rules refer to each other, the performance comes to an
end: whenever another rule is begun, there is one node type less that is not registered.

The record of a performance says when the rule of a node type was begun, when its afterthoughts
were, and when an error was caught.  Nothing bounds how many definitions may be under way; that the
bounded definition of a node type does the same, under any bound that is large enough, is proved.
-/

namespace TypedGrammar

/-- What happens in the course of a script. -/
inductive Happening
  /-- The rule of a node type is begun. -/
  | rule (typeName : String)
  /-- The afterthoughts of a node type are begun. -/
  | afterthoughts (typeName : String)
  /-- An error is caught. -/
  | caught
  deriving DecidableEq

/-- **Performances.**  A script is performed on a draft, with a record of what happens, an outcome,
and a draft after it. -/
inductive Performs (types : Array NodeDeclaration) :
    Script → Draft → List Happening → Except Error Shape → Draft → Prop
  | done {shape : Shape} {draft : Draft} : Performs types (.done shape) draft [] (.ok shape) draft
  | fail {e : Error} {draft : Draft} : Performs types (.fail e) draft [] (.error e) draft
  | call {call : Call} {draft after : Draft} {result : Except Error Shape}
      (h : call.run.runOn draft = (result, after)) :
      Performs types (.call call) draft [] result after
  | setFlags {index : TermIndex} {flags : Flags} {on : Bool} {draft after : Draft}
      {result : Except Error Unit}
      (h : (Drafting.setFlags index flags on).runOn draft = (result, after)) :
      Performs types (.setFlags index flags on) draft [] (result.map fun _ => .empty) after
  /-- There is no node type with the number. -/
  | unknown {number : ℕ} {draft : Draft} (h : types[number]? = none) :
      Performs types (.node number) draft []
        (.error (.invalidState s!"node type {number} is not declared")) draft
  /-- The node type is registered already. -/
  | found {number : ℕ} {type : NodeDeclaration} {index : TermIndex} {draft : Draft}
      (htype : types[number]? = some type)
      (h : draft.declared.lookup type.typeName = some index) :
      Performs types (.node number) draft [] (.ok (.term index)) draft
  /-- The node type cannot be registered. -/
  | refused {number : ℕ} {type : NodeDeclaration} {draft after : Draft} {e : Error}
      (htype : types[number]? = some type) (hnew : draft.declared.lookup type.typeName = none)
      (h : (Drafting.declare type.typeName type.pending).runOn draft = (.error e, after)) :
      Performs types (.node number) draft [] (.error e) after
  /-- The node type is registered, and its rule fails. -/
  | ruleFails {number : ℕ} {type : NodeDeclaration} {index : TermIndex}
      {draft entered after : Draft} {e : Error} {trace : List Happening}
      (htype : types[number]? = some type) (hnew : draft.declared.lookup type.typeName = none)
      (h : (Drafting.declare type.typeName type.pending).runOn draft = (.ok index, entered))
      (rule : Performs types type.rule.script entered trace (.error e) after) :
      Performs types (.node number) draft (.rule type.typeName :: trace) (.error e) after
  /-- The node type is registered and gets the shape of its rule, and its afterthoughts follow. -/
  | defined {number : ℕ} {type : NodeDeclaration} {index : TermIndex} {shape : Shape}
      {draft entered middle after : Draft} {last : Except Error Shape}
      {trace further : List Happening}
      (htype : types[number]? = some type) (hnew : draft.declared.lookup type.typeName = none)
      (h : (Drafting.declare type.typeName type.pending).runOn draft = (.ok index, entered))
      (rule : Performs types type.rule.script entered trace (.ok shape) middle)
      (afterthoughts : Performs types (type.afterScript index)
        (middle.modifyTerm index (·.withShape shape)) further last after) :
      Performs types (.node number) draft
        (.rule type.typeName :: (trace ++ .afterthoughts type.typeName :: further))
        (last.map fun _ => .term index) after
  | andThen {first : Script} {next : Shape → Script} {shape : Shape} {draft middle after : Draft}
      {result : Except Error Shape} {trace further : List Happening}
      (begin : Performs types first draft trace (.ok shape) middle)
      (rest : Performs types (next shape) middle further result after) :
      Performs types (.andThen first next) draft (trace ++ further) result after
  | firstFails {first : Script} {next : Shape → Script} {draft after : Draft} {e : Error}
      {trace : List Happening} (begin : Performs types first draft trace (.error e) after) :
      Performs types (.andThen first next) draft trace (.error e) after
  | attempt {body : Script} {handler : Error → Script} {next : Shape → Script} {shape : Shape}
      {draft middle after : Draft} {result : Except Error Shape} {trace further : List Happening}
      (begin : Performs types body draft trace (.ok shape) middle)
      (rest : Performs types (next shape) middle further result after) :
      Performs types (.attempt body handler next) draft (trace ++ further) result after
  /-- The error of a part is caught. -/
  | caught {body : Script} {handler : Error → Script} {next : Shape → Script} {e : Error}
      {draft middle after : Draft} {result : Except Error Shape} {trace further : List Happening}
      (begin : Performs types body draft trace (.error e) middle)
      (rest : Performs types (handler e) middle further result after) :
      Performs types (.attempt body handler next) draft (trace ++ .caught :: further) result after

namespace Performs

variable {types : Array NodeDeclaration} {script : Script} {draft after : Draft}
  {trace : List Happening} {result : Except Error Shape}

/-! ## Uniqueness -/

/-- What a reference to a node type does once it is registered: its rule fails, or it gets its shape
and its afterthoughts follow. -/
theorem node_cases {number : ℕ} {type : NodeDeclaration} {index : TermIndex} {entered : Draft}
    (h : Performs types (.node number) draft trace result after)
    (htype : types[number]? = some type) (hnew : draft.declared.lookup type.typeName = none)
    (hdeclare : (Drafting.declare type.typeName type.pending).runOn draft = (.ok index, entered)) :
    (∃ e inner, Performs types type.rule.script entered inner (.error e) after ∧
      trace = .rule type.typeName :: inner ∧ result = .error e) ∨
    ∃ shape middle last inner further,
      Performs types type.rule.script entered inner (.ok shape) middle ∧
      Performs types (type.afterScript index)
        (middle.modifyTerm index (·.withShape shape)) further last after ∧
      trace = .rule type.typeName :: (inner ++ .afterthoughts type.typeName :: further) ∧
      result = last.map fun _ => .term index := by
  cases h with
  | unknown h' => cases htype.symm.trans h'
  | found htype' h' =>
    obtain rfl := Option.some.inj (htype.symm.trans htype')
    cases hnew.symm.trans h'
  | refused htype' _ h' =>
    obtain rfl := Option.some.inj (htype.symm.trans htype')
    cases hdeclare.symm.trans h'
  | ruleFails htype' _ h' rule =>
    obtain rfl := Option.some.inj (htype.symm.trans htype')
    obtain ⟨rfl, rfl⟩ := Drafting.ok_inj (hdeclare.symm.trans h')
    exact .inl ⟨_, _, rule, rfl, rfl⟩
  | defined htype' _ h' rule afterthoughts =>
    obtain rfl := Option.some.inj (htype.symm.trans htype')
    obtain ⟨rfl, rfl⟩ := Drafting.ok_inj (hdeclare.symm.trans h')
    exact .inr ⟨_, _, _, _, _, rule, afterthoughts, rfl, rfl⟩

/-- A script is performed in one way only. -/
theorem unique {trace' : List Happening} {result' : Except Error Shape} {after' : Draft}
    (h : Performs types script draft trace result after)
    (h' : Performs types script draft trace' result' after') :
    trace = trace' ∧ result = result' ∧ after = after' := by
  -- The second performance is taken apart as the first one is: wherever they could part, what
  -- decides the way is a lookup, a call, or the outcome of a part that is performed in one way.
  induction h generalizing trace' result' after' with
  | done =>
    cases h'
    exact ⟨rfl, rfl, rfl⟩
  | fail =>
    cases h'
    exact ⟨rfl, rfl, rfl⟩
  | call h =>
    cases h' with
    | call h' =>
      obtain ⟨rfl, rfl⟩ := Prod.mk.inj (h.symm.trans h')
      exact ⟨rfl, rfl, rfl⟩
  | setFlags h =>
    cases h' with
    | setFlags h' =>
      obtain ⟨rfl, rfl⟩ := Prod.mk.inj (h.symm.trans h')
      exact ⟨rfl, rfl, rfl⟩
  | unknown h =>
    cases h' with
    | unknown => exact ⟨rfl, rfl, rfl⟩
    | found htype' | refused htype' | ruleFails htype' | defined htype' =>
      cases h.symm.trans htype'
  | found htype h =>
    cases h' with
    | unknown h' => cases htype.symm.trans h'
    | found htype' h' =>
      obtain rfl := Option.some.inj (htype.symm.trans htype')
      obtain rfl := Option.some.inj (h.symm.trans h')
      exact ⟨rfl, rfl, rfl⟩
    | refused htype' hnew' | ruleFails htype' hnew' | defined htype' hnew' =>
      obtain rfl := Option.some.inj (htype.symm.trans htype')
      cases h.symm.trans hnew'
  | refused htype hnew h =>
    cases h' with
    | unknown h' => cases htype.symm.trans h'
    | found htype' h' =>
      obtain rfl := Option.some.inj (htype.symm.trans htype')
      cases hnew.symm.trans h'
    | refused htype' _ h' =>
      obtain rfl := Option.some.inj (htype.symm.trans htype')
      obtain ⟨hresult, rfl⟩ := Prod.mk.inj (h.symm.trans h')
      obtain rfl := Except.error.inj hresult
      exact ⟨rfl, rfl, rfl⟩
    | ruleFails htype' _ h' | defined htype' _ h' =>
      obtain rfl := Option.some.inj (htype.symm.trans htype')
      cases h.symm.trans h'
  | ruleFails htype hnew h _ ih =>
    rcases h'.node_cases htype hnew h with
      ⟨e', inner, rule', rfl, rfl⟩ | ⟨_, _, _, _, _, rule', _, rfl, rfl⟩
    · obtain ⟨rfl, hresult, rfl⟩ := ih rule'
      obtain rfl := Except.error.inj hresult
      exact ⟨rfl, rfl, rfl⟩
    · cases (ih rule').2.1
  | defined htype hnew h _ _ ihRule ihAfterthoughts =>
    rcases h'.node_cases htype hnew h with
      ⟨_, _, rule', rfl, rfl⟩ | ⟨_, _, _, _, _, rule', afterthoughts', rfl, rfl⟩
    · cases (ihRule rule').2.1
    · obtain ⟨rfl, hshape, rfl⟩ := ihRule rule'
      obtain rfl := Except.ok.inj hshape
      obtain ⟨rfl, rfl, rfl⟩ := ihAfterthoughts afterthoughts'
      exact ⟨rfl, rfl, rfl⟩
  | andThen _ _ ihBegin ihRest =>
    cases h' with
    | andThen begin' rest' =>
      obtain ⟨rfl, hshape, rfl⟩ := ihBegin begin'
      obtain rfl := Except.ok.inj hshape
      obtain ⟨rfl, rfl, rfl⟩ := ihRest rest'
      exact ⟨rfl, rfl, rfl⟩
    | firstFails begin' => cases (ihBegin begin').2.1
  | firstFails _ ih =>
    cases h' with
    | andThen begin' => cases (ih begin').2.1
    | firstFails begin' =>
      obtain ⟨rfl, hresult, rfl⟩ := ih begin'
      exact ⟨rfl, hresult, rfl⟩
  | attempt _ _ ihBegin ihRest =>
    cases h' with
    | attempt begin' rest' =>
      obtain ⟨rfl, hshape, rfl⟩ := ihBegin begin'
      obtain rfl := Except.ok.inj hshape
      obtain ⟨rfl, rfl, rfl⟩ := ihRest rest'
      exact ⟨rfl, rfl, rfl⟩
    | caught begin' => cases (ihBegin begin').2.1
  | caught _ _ ihBegin ihRest =>
    cases h' with
    | attempt begin' => cases (ihBegin begin').2.1
    | caught begin' rest' =>
      obtain ⟨rfl, hresult, rfl⟩ := ihBegin begin'
      obtain rfl := Except.error.inj hresult
      obtain ⟨rfl, rfl, rfl⟩ := ihRest rest'
      exact ⟨rfl, rfl, rfl⟩

end Performs

/-! ## Performances as runs -/

namespace Draft

variable {draft old new entered middle : Draft} {type : NodeDeclaration} {index : TermIndex}

/-- A run leaves consistent drafts consistent. -/
theorem RunsTo.isConsistent (h : old.RunsTo new) (hold : old.IsConsistent) : new.IsConsistent := by
  obtain ⟨events, hrun⟩ := h []
  have hstart : Session.IsConsistent ⟨old, []⟩ :=
    ⟨hold, List.nodup_nil, fun _ hmem => absurd hmem List.not_mem_nil,
      fun _ hmem => absurd hmem List.not_mem_nil⟩
  exact (hrun.keeps hstart).1.draft

/-- The node type has been registered just now. -/
structure Enters (draft entered : Draft) (type : NodeDeclaration) (index : TermIndex) : Prop where
  grows : draft.Grows entered
  consistent : entered.IsConsistent
  lookup : entered.declared.lookup type.typeName = some index
  entry : entered.entries[index.value]? = some type.pending

/-- A declaration that succeeds enters the node type. -/
theorem enters_of_declare (hdraft : draft.IsConsistent)
    (hnew : draft.declared.lookup type.typeName = none)
    (h : (Drafting.declare type.typeName type.pending).runOn draft = (.ok index, entered)) :
    draft.Enters entered type index := by
  obtain ⟨hgrows, hok⟩ := Drafting.grows_declare hnew type.pending_hasMaker
  obtain ⟨hknown, hentry, _⟩ := hok index entered h
  rw [h] at hgrows
  exact ⟨hgrows, hgrows.consistent hdraft, hknown, hentry⟩

/-- A node type that was registered still waits for its shape after a run, and may get one. -/
theorem Enters.stored (h : draft.Enters entered type index) (hruns : entered.RunsTo middle)
    (shape : Shape) :
    (∃ entry, middle.entries[index.value]? = some entry ∧ entry.kind = .rule none) ∧
      (middle.modifyTerm index (·.withShape shape)).IsConsistent := by
  obtain ⟨entry, hentry, hpending, _⟩ := hruns.pending h.consistent h.lookup h.entry rfl
  exact ⟨⟨entry, hentry, hpending⟩, (hruns.isConsistent h.consistent).withShape hentry hpending⟩

end Draft

namespace Performs

variable {types : Array NodeDeclaration} {script : Script} {draft after : Draft}
  {trace : List Happening} {result : Except Error Shape}

/-- A performance is a run. -/
theorem runsTo (h : Performs types script draft trace result after) : draft.RunsTo after := by
  induction h with
  | done | fail | unknown | found => exact Std.Refl.refl _
  | @call call draft after result h =>
    have hruns := call.follows_runsTo draft
    rwa [h] at hruns
  | @setFlags index flags on draft after result h =>
    have hruns := Drafting.setFlags_runsTo index flags on draft
    rwa [h] at hruns
  | refused _ hnew h => exact fun _ => ⟨_, (Session.Step.refused hnew h).run⟩
  | ruleFails _ hnew h _ ih =>
    intro frames
    obtain ⟨events, hrun⟩ := ih (⟨_, _, false⟩ :: frames)
    exact ⟨_, ((Session.Step.enter hnew h).run.trans hrun).step .abandon⟩
  | @defined _ type index shape _ _ _ _ last _ _ _ hnew h _ _ ihRule ihAfterthoughts =>
    intro frames
    obtain ⟨events, hrun⟩ := ihRule (⟨type.typeName, index, false⟩ :: frames)
    obtain ⟨further, hrun'⟩ := ihAfterthoughts (⟨type.typeName, index, true⟩ :: frames)
    have hstored := ((Session.Step.enter hnew h).run.trans hrun).step (.store shape)
    cases last with
    | error e => exact ⟨_, (hstored.trans hrun').step .abandon⟩
    | ok _ => exact ⟨_, (hstored.trans hrun').step .finish⟩
  | andThen _ _ ihBegin ihRest | attempt _ _ ihBegin ihRest | caught _ _ ihBegin ihRest =>
    exact IsTrans.trans _ _ _ ihBegin ihRest
  | firstFails _ ih => exact ih

end Performs

/-! ## Existence -/

namespace Drafting

variable {types : Array NodeDeclaration} {old new : Draft} {number : ℕ} {type : NodeDeclaration}
  {index : TermIndex}

/-- The numbers of the node types that are not registered. -/
def undeclared (types : Array NodeDeclaration) (draft : Draft) : Finset ℕ :=
  (Finset.range types.size).filter fun number =>
    ∃ type, types[number]? = some type ∧ draft.declared.lookup type.typeName = none

/-- A run does not leave more node types undeclared. -/
theorem undeclared_subset
    (hkeeps : ∀ typeName index, old.declared.lookup typeName = some index →
      new.declared.lookup typeName = some index) :
    undeclared types new ⊆ undeclared types old := by
  intro number hnumber
  obtain ⟨hlt, type, htype, hnew⟩ := Finset.mem_filter.mp hnumber
  refine Finset.mem_filter.mpr ⟨hlt, type, htype, ?_⟩
  cases hold : old.declared.lookup type.typeName with
  | none => rfl
  | some index => cases (hkeeps _ _ hold).symm.trans hnew

/-- There is one less when a node type is registered. -/
theorem card_undeclared_lt (htype : types[number]? = some type)
    (hold : old.declared.lookup type.typeName = none)
    (hnew : new.declared.lookup type.typeName = some index)
    (hkeeps : ∀ typeName index, old.declared.lookup typeName = some index →
      new.declared.lookup typeName = some index) :
    (undeclared types new).card < (undeclared types old).card := by
  refine Finset.card_lt_card ((Finset.ssubset_iff_of_subset (undeclared_subset hkeeps)).mpr ?_)
  refine ⟨number, Finset.mem_filter.mpr ⟨?_, type, htype, hold⟩, fun hmem => ?_⟩
  · exact Finset.mem_range.mpr (Array.getElem?_eq_some_iff.mp htype).1
  · obtain ⟨_, found, hfound, hnone⟩ := Finset.mem_filter.mp hmem
    obtain rfl := Option.some.inj (htype.symm.trans hfound)
    cases hnew.symm.trans hnone

/-- No more node types are undeclared than there are. -/
theorem card_undeclared_le (types : Array NodeDeclaration) (draft : Draft) :
    (undeclared types draft).card ≤ types.size :=
  (Finset.card_filter_le _ _).trans_eq (Finset.card_range _)

end Drafting

namespace Performs

open Drafting

/-- A performance leaves no more node types to register than there were. -/
theorem remains {types : Array NodeDeclaration} {script : Script} {old new : Draft}
    {trace : List Happening} {result : Except Error Shape} {bound : ℕ}
    (h : Performs types script old trace result new) (hold : old.IsConsistent)
    (hbound : (undeclared types old).card < bound) :
    new.IsConsistent ∧ (undeclared types new).card < bound := by
  refine ⟨h.runsTo.isConsistent hold, ?_⟩
  refine (Finset.card_le_card (undeclared_subset fun typeName index hknown => ?_)).trans_lt hbound
  exact h.runsTo.declared hold hknown

end Performs

namespace Script

open Drafting

variable {types : Array NodeDeclaration} {script : Script} {draft entered : Draft}
  {depth number : ℕ} {type : NodeDeclaration} {index : TermIndex}

/-- Scripts are performed as they run with bounded definitions. -/
def RunPerforms (types : Array NodeDeclaration) (depth : ℕ) : Prop :=
  ∀ (script : Script) (draft : Draft), draft.IsConsistent →
    (undeclared types draft).card < depth →
      ∃ trace, Performs types script draft trace
        ((script.run (defineNodeWithin types depth)).runOn draft).1
        ((script.run (defineNodeWithin types depth)).runOn draft).2

/-- To fill in a node type is to perform the scripts of its rule and of its afterthoughts. -/
theorem performs_fillNode (hscripts : RunPerforms types depth)
    (htype : types[number]? = some type) (hnew : draft.declared.lookup type.typeName = none)
    (hdeclare : (declare type.typeName type.pending).runOn draft = (.ok index, entered))
    (henters : draft.Enters entered type index)
    (hdepth : (undeclared types entered).card < depth) :
    ∃ trace, Performs types (.node number) draft trace
      (((fillNode (defineNodeWithin types depth) type index).runOn entered).1.map .term)
      ((fillNode (defineNodeWithin types depth) type index).runOn entered).2 := by
  obtain ⟨trace, hrule⟩ := hscripts type.rule.script entered henters.consistent hdepth
  rw [fillNode_eq, runOn_bind]
  rcases hrun : (type.rule.script.run (defineNodeWithin types depth)).runOn entered with
    ⟨e | shape, middle⟩
  · rw [hrun] at hrule
    exact ⟨_, .ruleFails htype hnew hdeclare hrule⟩
  · rw [hrun] at hrule
    obtain ⟨_, hstored⟩ := henters.stored hrule.runsTo shape
    have hless := (hrule.remains henters.consistent hdepth).2
    obtain ⟨further, hafter⟩ := hscripts (type.afterScript index) _ hstored hless
    simp only
    rw [runOn_bind, runOn_setShape]
    simp only
    rw [runOn_bind]
    rcases hlast : ((type.afterScript index).run (defineNodeWithin types depth)).runOn
      (middle.modifyTerm index (·.withShape shape)) with ⟨e | _, last⟩
    · rw [hlast] at hafter
      exact ⟨_, .defined htype hnew hdeclare hrule hafter⟩
    · rw [hlast] at hafter
      exact ⟨_, .defined htype hnew hdeclare hrule hafter⟩

/-- A node type is found, or declared and then filled. -/
theorem defineNodeWithin_succ (htype : types[number]? = some type) :
    defineNodeWithin types (depth + 1) number =
      declaredOr type.typeName (declare type.typeName type.pending >>=
        fillNode (defineNodeWithin types depth) type) := by
  rw [defineNodeWithin, htype]
  rfl

/-- The definition of a node type is performed, if all scripts are that it may need. -/
theorem performs_node (hscripts : RunPerforms types depth) (hdraft : draft.IsConsistent)
    (hdepth : (undeclared types draft).card ≤ depth) :
    ∃ trace, Performs types (.node number) draft trace
      (((defineNodeWithin types (depth + 1) number).runOn draft).1.map .term)
      ((defineNodeWithin types (depth + 1) number).runOn draft).2 := by
  cases htype : types[number]? with
  | none =>
    rw [defineNodeWithin, htype]
    exact ⟨_, .unknown htype⟩
  | some type =>
    rw [defineNodeWithin_succ htype, runOn_declaredOr]
    cases hlookup : draft.declared.lookup type.typeName with
    | some index => exact ⟨_, .found htype hlookup⟩
    | none =>
      simp only
      rw [runOn_bind]
      rcases hdeclare : (declare type.typeName type.pending).runOn draft with ⟨e | index, entered⟩
      · exact ⟨_, .refused htype hlookup hdeclare⟩
      · have henters := Draft.enters_of_declare hdraft hlookup hdeclare
        have hless := card_undeclared_lt htype hlookup henters.lookup
          fun typeName index => henters.grows.known (.declared typeName) index
        exact performs_fillNode hscripts htype hlookup hdeclare henters (hless.trans_le hdepth)

/-- **Definitions come to an end.**  What a script does with bounded definitions is performed, if
there are fewer node types to register than the bound. -/
theorem runPerforms (types : Array NodeDeclaration) (depth : ℕ) : RunPerforms types depth := by
  -- Only a reference to a node type uses up the bound; all other scripts get by with their parts.
  induction depth with
  | zero => exact fun _ _ _ hdepth => absurd hdepth (Nat.not_lt_zero _)
  | succ depth ihDepth =>
    intro script draft hdraft hdepth
    induction script generalizing draft with
    | done shape => exact ⟨[], .done⟩
    | fail e => exact ⟨[], .fail⟩
    | call call => exact ⟨[], .call rfl⟩
    | setFlags index flags on =>
      rw [run, runOn_bind]
      rcases hrun : (Drafting.setFlags index flags on).runOn draft with ⟨e | _, after⟩
      · exact ⟨[], .setFlags hrun⟩
      · exact ⟨[], .setFlags hrun⟩
    | node number =>
      rw [run, runOn_map]
      exact performs_node ihDepth hdraft (Nat.le_of_lt_succ hdepth)
    | andThen first next ihFirst ihNext =>
      obtain ⟨trace, hbegin⟩ := ihFirst draft hdraft hdepth
      rw [run, runOn_bind]
      rcases hrun : (first.run (defineNodeWithin types (depth + 1))).runOn draft with
        ⟨e | shape, middle⟩
      · rw [hrun] at hbegin
        exact ⟨trace, .firstFails hbegin⟩
      · rw [hrun] at hbegin
        obtain ⟨hmiddle, hless⟩ := hbegin.remains hdraft hdepth
        obtain ⟨further, hrest⟩ := ihNext shape middle hmiddle hless
        exact ⟨trace ++ further, .andThen hbegin hrest⟩
    | attempt body handler next ihBody ihHandler ihNext =>
      obtain ⟨trace, hbegin⟩ := ihBody draft hdraft hdepth
      rw [run, runOn_bind, runOn_observe]
      rcases hrun : (body.run (defineNodeWithin types (depth + 1))).runOn draft with
        ⟨e | shape, middle⟩
      · rw [hrun] at hbegin
        obtain ⟨hmiddle, hless⟩ := hbegin.remains hdraft hdepth
        obtain ⟨further, hrest⟩ := ihHandler e middle hmiddle hless
        exact ⟨trace ++ .caught :: further, .caught hbegin hrest⟩
      · rw [hrun] at hbegin
        obtain ⟨hmiddle, hless⟩ := hbegin.remains hdraft hdepth
        obtain ⟨further, hrest⟩ := ihNext shape middle hmiddle hless
        exact ⟨trace ++ further, .attempt hbegin hrest⟩

end Script

/-! ## Once only -/

namespace Draft

variable {draft old new entered : Draft} {type : NodeDeclaration} {index : TermIndex}

/-- How many declarations with a name are registered. -/
def registrations (draft : Draft) (typeName : String) : ℕ :=
  if (draft.declared.lookup typeName).isSome then 1 else 0

/-- Registrations are never taken back. -/
theorem registrations_le (hkeeps : ∀ typeName index, old.declared.lookup typeName = some index →
      new.declared.lookup typeName = some index) (typeName : String) :
    old.registrations typeName ≤ new.registrations typeName := by
  unfold registrations
  cases hold : old.declared.lookup typeName with
  | none => exact Nat.zero_le _
  | some index => rw [hkeeps _ _ hold]

theorem RunsTo.registrations_le (h : old.RunsTo new) (hold : old.IsConsistent)
    (typeName : String) : old.registrations typeName ≤ new.registrations typeName :=
  Draft.registrations_le (fun _ _ hknown => h.declared hold hknown) typeName

/-- A node type is registered once at most. -/
theorem registrations_le_one (draft : Draft) (typeName : String) :
    draft.registrations typeName ≤ 1 := by
  unfold registrations
  split
  · exact Nat.le_refl 1
  · exact Nat.zero_le 1

/-- To register a node type makes room for one beginning of its rule and of its afterthoughts. -/
theorem Enters.count_add_registrations_le (h : draft.Enters entered type index)
    (hnew : draft.declared.lookup type.typeName = none) {mark : Happening} {typeName : String}
    (hmark : mark = .rule typeName ∨ mark = .afterthoughts typeName) :
    [.rule type.typeName, .afterthoughts type.typeName].count mark +
      draft.registrations typeName ≤ entered.registrations typeName := by
  by_cases hname : type.typeName = typeName
  · subst hname
    have hcount : [Happening.rule type.typeName, .afterthoughts type.typeName].count mark = 1 := by
      rcases hmark with rfl | rfl <;> simp
    simp [hcount, registrations, hnew, h.lookup]
  · have hcount : [Happening.rule type.typeName, .afterthoughts type.typeName].count mark = 0 := by
      rcases hmark with rfl | rfl <;> simp [hname]
    rw [hcount, Nat.zero_add]
    exact registrations_le (fun name index => h.grows.known (.declared name) index) typeName

end Draft

namespace Performs

open Draft

variable {types : Array NodeDeclaration} {script : Script} {draft after : Draft}
  {trace : List Happening} {result : Except Error Shape} {typeName : String} {mark : Happening}

/-- **Once only.**  For each beginning of the rule of a node type, and of its afterthoughts, the
node type has come to be registered in the course of the performance. -/
theorem count_add_registrations_le (h : Performs types script draft trace result after)
    (hdraft : draft.IsConsistent) (hmark : mark = .rule typeName ∨ mark = .afterthoughts typeName) :
    trace.count mark + draft.registrations typeName ≤ after.registrations typeName := by
  have hcaught : mark ≠ .caught := by
    rcases hmark with rfl | rfl <;> simp
  -- What is begun was registered before it, so it cannot be registered, and begun, again.
  induction h with
  | done | fail | unknown | found => rw [List.count_nil, Nat.zero_add]
  | @call call draft after _ h =>
    have hruns := call.follows_runsTo draft
    rw [h] at hruns
    rw [List.count_nil, Nat.zero_add]
    exact hruns.registrations_le hdraft typeName
  | @setFlags index flags on draft after _ h =>
    have hruns := Drafting.setFlags_runsTo index flags on draft
    rw [h] at hruns
    rw [List.count_nil, Nat.zero_add]
    exact hruns.registrations_le hdraft typeName
  | @refused _ type draft after _ _ hnew h =>
    have hgrows := (Drafting.grows_declare hnew type.pending_hasMaker).1
    rw [h] at hgrows
    rw [List.count_nil, Nat.zero_add]
    exact registrations_le (fun name index => hgrows.known (.declared name) index) typeName
  | ruleFails _ hnew h _ ih =>
    have henters := enters_of_declare hdraft hnew h
    have hbegin := henters.count_add_registrations_le hnew hmark
    have hrule := ih henters.consistent
    simp only [List.count_cons, List.count_nil] at hbegin ⊢
    omega
  | @defined _ _ _ shape _ _ middle _ _ _ _ _ hnew h hrule _ ihRule ihAfterthoughts =>
    have henters := enters_of_declare hdraft hnew h
    have hbegin := henters.count_add_registrations_le hnew hmark
    have hfirst := ihRule henters.consistent
    have hlast : List.count mark _ + middle.registrations typeName ≤ _ :=
      ihAfterthoughts (henters.stored hrule.runsTo shape).2
    simp only [List.count_cons, List.count_append, List.count_nil] at hbegin ⊢
    omega
  | andThen hbegin _ ihBegin ihRest | attempt hbegin _ ihBegin ihRest =>
    have hfirst := ihBegin hdraft
    have hrest := ihRest (hbegin.runsTo.isConsistent hdraft)
    rw [List.count_append]
    omega
  | caught hbegin _ ihBegin ihRest =>
    have hfirst := ihBegin hdraft
    have hrest := ihRest (hbegin.runsTo.isConsistent hdraft)
    rw [List.count_append, List.count_cons_of_ne (Ne.symm hcaught)]
    omega
  | firstFails _ ih => exact ih hdraft

/-- Each callback runs once at most. -/
theorem count_le_one (h : Performs types script draft trace result after)
    (hdraft : draft.IsConsistent) (hmark : mark = .rule typeName ∨ mark = .afterthoughts typeName) :
    trace.count mark ≤ 1 := by
  have hcount := h.count_add_registrations_le hdraft hmark
  have hone := after.registrations_le_one typeName
  omega

end Performs

end TypedGrammar
