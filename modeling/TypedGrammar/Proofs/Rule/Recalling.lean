import TypedGrammar.Proofs.Draft.Interning
import TypedGrammar.Proofs.Rule.Regrouping

/-!
# Rules that are evaluated again

A rule whose evaluation succeeded once has the same shape ever after, and its evaluation registers
nothing more, if it consists of things that are asked for: declarations, key terms, optionals, lists
and braces are found in the tables in which they were noted.  The same is true of every rule from
which it differs only in how sums and choices are grouped.
-/

namespace TypedGrammar

namespace Draft

variable {old new later : Draft}

/-- What was known, and key terms that were registered, are found again. -/
structure Remembers (old new : Draft) : Prop where
  known : ∀ request index, old.known? request = some index → new.known? request = some index
  keys : old.KeepsKeys new

/-- A draft remembers itself. -/
theorem Remembers.refl (draft : Draft) : draft.Remembers draft :=
  ⟨fun _ _ h => h, fun _ _ h => h⟩

/-- What is remembered for a while and then for another is remembered for both. -/
theorem Remembers.trans (h : old.Remembers new) (h' : new.Remembers later) :
    old.Remembers later :=
  ⟨fun _ _ hknown => h'.known _ _ (h.known _ _ hknown),
    fun _ _ hkey => h'.keys _ _ (h.keys _ _ hkey)⟩

/-- A draft that grows remembers. -/
theorem Grows.remembers (h : old.Grows new) : old.Remembers new :=
  ⟨h.known, h.keys⟩

/-- The tables do not depend on what the entries are. -/
theorem remembers_modifyTerm (draft : Draft) (index : TermIndex) (change : Term → Term) :
    draft.Remembers (draft.modifyTerm index change) :=
  ⟨fun _ _ h => h, fun _ _ h => h⟩

instance : Std.Refl Remembers :=
  ⟨Remembers.refl⟩

instance : IsTrans Draft Remembers :=
  ⟨fun _ _ _ => Remembers.trans⟩

end Draft

namespace Session

variable {first second : Session} {events : List Event}

/-- Each step of a run remembers. -/
theorem Step.remembers (h : Step first events second) : first.draft.Remembers second.draft := by
  cases h with
  | @call draft _ _ _ call h =>
    have hgrows := call.follows_grows draft
    rw [h] at hgrows
    exact hgrows.remembers
  | setFlags h | flagsRefused h =>
    rw [Drafting.runOn_setFlags] at h
    split at h <;> obtain ⟨_, rfl⟩ := Prod.mk.inj h
    · exact .refl _
    · dsimp only
      exact Draft.remembers_modifyTerm _ _ _
  | @refused _ _ _ type _ hnew h | @enter _ _ _ type _ hnew h =>
    have hgrows := (Drafting.grows_declare hnew type.pending_hasMaker).1
    rw [h] at hgrows
    exact hgrows.remembers
  | store =>
    dsimp only
    exact Draft.remembers_modifyTerm _ _ _
  | found | finish | abandon => exact .refl _

/-- What was known is found again after any run. -/
theorem Run.remembers (h : Run first events second) : first.draft.Remembers second.draft := by
  induction h with
  | refl => exact .refl _
  | step _ hstep ih => exact ih.trans hstep.remembers

end Session

/-- A run remembers. -/
theorem Draft.RunsTo.remembers {old new : Draft} (h : old.RunsTo new) : old.Remembers new := by
  obtain ⟨_, hrun⟩ := h []
  exact hrun.remembers

namespace Drafting

variable {α β : Type} {p : Drafting α} {draft after : Draft} {request : Request}
  {index : TermIndex}

/-- **Recall.**  Once the step has succeeded, it has the same result ever after, and changes
nothing. -/
structure Recalls (p : Drafting α) : Prop where
  remembers : p.Follows Draft.Remembers
  again : ∀ (draft : Draft) a after later, p.runOn draft = (.ok a, after) →
    after.Remembers later → p.runOn later = (.ok a, later)

/-- Giving an answer recalls it. -/
theorem recalls_pure (a : α) : Recalls (pure a : Drafting α) where
  remembers := follows_pure a
  again _ _ _ _ h _ := by
    obtain ⟨rfl, _⟩ := ok_inj h
    rfl

/-- A failure has no answer to recall. -/
theorem recalls_throw (e : Error) : Recalls (throw e : Drafting α) where
  remembers := follows_throw e
  again _ _ _ _ h _ := nomatch h

/-- Steps one after the other recall their answers, if each does. -/
theorem recalls_bind {f : α → Drafting β} (hp : p.Recalls) (hf : ∀ a, (f a).Recalls) :
    (p >>= f).Recalls where
  remembers := follows_bind hp.remembers fun a => (hf a).remembers
  again draft b after later h hlater := by
    obtain ⟨a, middle, hfirst, hsecond⟩ := bind_ok h
    have hmiddle : middle.Remembers after := by
      have := (hf a).remembers middle
      rwa [hsecond] at this
    rw [runOn_bind, hp.again draft a middle later hfirst (hmiddle.trans hlater)]
    exact (hf a).again middle b after later hsecond hlater

/-- An answer that is turned into something else is recalled as this. -/
theorem recalls_map {f : α → β} (hp : p.Recalls) : (f <$> p).Recalls := by
  have hmap : f <$> p = p >>= fun a => pure (f a) := map_eq_pure_bind f p
  rw [hmap]
  exact recalls_bind hp fun a => recalls_pure (f a)

/-- A declaration that is known is found. -/
theorem runOn_declaredOr_of_known {typeName : String} {make : Drafting TermIndex}
    (h : draft.known? (.declared typeName) = some index) :
    (declaredOr typeName make).runOn draft = (.ok index, draft) := by
  have hlookup : draft.declared.lookup typeName = some index := h
  rw [runOn_declaredOr, hlookup]

/-- A step that answers a request, and finds what is known. -/
theorem recalls_of_answers {p : Drafting Shape} (hanswers : Answers request p)
    (hfinds : ∀ (draft : Draft) index, draft.known? request = some index →
      p.runOn draft = (.ok (.term index), draft)) : p.Recalls where
  remembers draft := (hanswers draft).1.remembers
  again draft shape after later h hlater := by
    obtain ⟨index, rfl, hknown⟩ := (hanswers draft).2 shape (congrArg Prod.fst h)
    rw [h] at hknown
    exact hfinds later index (hlater.known _ _ hknown)

/-- A key term is found again by requests that agree with themselves. -/
theorem recalls_key {request : KeyRequest} (hself : request.agrees request = true) :
    (key request).Recalls where
  remembers draft := (follows_key request draft).remembers
  again draft index after later h hlater := by
    obtain ⟨found, hfound⟩ := runOn_key_of_hasKey ((hasKey_of_key hself h).mono hlater.keys)
    have hknown := hlater.known _ _ (known_of_key h)
    obtain rfl := Option.some.inj (hknown.symm.trans (known_of_key hfound))
    exact hfound

/-- Braces are recalled. -/
theorem recalls_braces (opening : String) (inside : Shape) (closing : String) (omissible : Bool) :
    (braces opening inside closing omissible).Recalls := by
  refine recalls_of_answers (answers_braces opening inside closing omissible) ?_
  intro draft index h
  have hlookup : draft.braces.lookup ⟨opening, inside, closing, omissible⟩ = some index := h
  rw [runOn_braces, hlookup]

/-- An optional part is recalled. -/
theorem recalls_optional (shape : Shape) : (optional shape).Recalls := by
  refine recalls_of_answers (answers_optional shape) fun draft index h => ?_
  have hlookup : draft.optionals.lookup shape = some index := h
  rw [runOn_optional, hlookup]

/-- A list is recalled. -/
theorem recalls_list (element : ValueType) (shape : Shape) (delimiter : Option Shape)
    (bounds : Bounds) : (list element shape delimiter bounds).Recalls := by
  refine recalls_of_answers (answers_list element shape delimiter bounds) fun draft index h => ?_
  have hlookup : draft.lists.lookup ⟨element, shape, delimiter, bounds⟩ = some index := h
  rw [runOn_list, hlookup]

/-- The calls for declarations of terminals are found again. -/
theorem recalls_declaration {p : Drafting TermIndex} {typeName : String}
    {make : Drafting TermIndex} (hp : p = declaredOr typeName make)
    (hanswers : Answers (.declared typeName) (.term <$> p)) : (Shape.term <$> p).Recalls := by
  refine recalls_of_answers hanswers fun draft index h => ?_
  rw [runOn_map, hp, runOn_declaredOr_of_known h]
  rfl

variable {types : Array NodeDeclaration} {number : ℕ}

/-- A node type that is defined is known. -/
theorem known_of_defineNode {type : NodeDeclaration} (htype : types[number]? = some type)
    (h : (defineNode types number).runOn draft = (.ok index, after)) :
    after.known? (.declared type.typeName) = some index := by
  unfold defineNode at h
  rw [defineNodeWithin, htype] at h
  simp only at h
  rw [runOn_declaredOr] at h
  split at h
  · next found hlookup =>
    obtain ⟨rfl, rfl⟩ := ok_inj h
    exact hlookup
  · next hnew =>
    have hfill : (declare type.typeName type.pending >>=
        fillNode (defineNodeWithin types types.size) type).runOn draft = (.ok index, after) := h
    obtain ⟨first, middle, hdeclare, hfill⟩ := bind_ok hfill
    obtain ⟨hknown, _⟩ := (grows_declare hnew type.pending_hasMaker).2 first middle hdeclare
    -- The index that was declared is the one that is returned, and it stays known meanwhile.
    obtain ⟨events, hrun⟩ := exists_run_fillNode (defineNodeWithin_runsTo types types.size) type
      first middle []
    rw [hfill] at hrun
    obtain ⟨_, _, _, hfill⟩ := bind_ok hfill
    obtain ⟨_, _, _, hfill⟩ := bind_ok hfill
    obtain ⟨_, _, _, hfill⟩ := bind_ok hfill
    obtain ⟨rfl, _⟩ := ok_inj hfill
    exact hrun.remembers.known _ _ hknown

/-- A node type is found again once it is defined. -/
theorem recalls_defineNode (types : Array NodeDeclaration) (number : ℕ) :
    (defineNode types number).Recalls where
  remembers draft := (defineNodeWithin_runsTo types (types.size + 1) number draft).remembers
  again draft index after later h hlater := by
    cases htype : types[number]? with
    | none =>
      unfold defineNode at h
      rw [defineNodeWithin, htype] at h
      cases h
    | some type =>
      have hknown := hlater.known _ _ (known_of_defineNode htype h)
      unfold defineNode
      rw [defineNodeWithin, htype]
      exact runOn_declaredOr_of_known hknown

end Drafting

namespace Rule

open Drafting

mutual

/-- The rule consists of things that are found again when they are asked for.  What is matched
without nodes and what has a maker of its own are other terms each time, and what failed may succeed
later; a key term whose value is not equal to itself is refused the second time. -/
def IsLasting : Rule → Prop
  | key request => request.agrees request = true
  | braces _ inside _ _ => IsLasting inside
  | optional inner => IsLasting inner
  | withoutNode _ => False
  | list _ item _ => IsLasting item
  | listOf _ item delimiter _ => IsLasting item ∧ IsLasting delimiter
  | custom _ _ _ => False
  | all items => AreLasting items
  | followedBy first second => IsLasting first ∧ IsLasting second
  | firstOf items => AreLasting items
  | star item => IsLasting item
  | plus item => IsLasting item
  | orEmpty inner => IsLasting inner
  | sequence items => AreLasting items
  | choice items => AreLasting items
  | repeated item _ => IsLasting item
  | separated item delimiter _ => IsLasting item ∧ IsLasting delimiter
  | attempt _ => False
  | _ => True

/-- The rules of a list consist of things that are found again when they are asked for. -/
def AreLasting : List Rule → Prop
  | [] => True
  | rule :: rest => IsLasting rule ∧ AreLasting rest

end

variable {types : Array NodeDeclaration}

mutual

/-- **Rules that are evaluated again** have the same shape, and register nothing more. -/
theorem recalls_eval : ∀ rule : Rule, rule.IsLasting → (rule.eval (defineNode types)).Recalls
  | shape s, _ => recalls_pure s
  | hint h, _ => recalls_pure (Shape.hint h)
  | node number, _ => recalls_map (recalls_defineNode types number)
  | identifier type, _ => recalls_declaration rfl (answers_declare _ fun _ => rfl)
  | literal type, _ => recalls_declaration rfl (answers_declare _ fun _ => rfl)
  | constant type, _ =>
    recalls_declaration rfl (@Call.answers (.constant type) _ rfl)
  | operator type, _ =>
    recalls_declaration rfl (@Call.answers (.operator type) _ rfl)
  | key request, h => recalls_map (recalls_key h)
  | braces opening inside closing omissible, h =>
    recalls_bind (recalls_eval inside h) fun shape => recalls_braces opening shape closing omissible
  | optional inner, h => recalls_bind (recalls_eval inner h) recalls_optional
  | list element item bounds, h =>
    recalls_bind (recalls_eval item h) fun shape => recalls_list element shape none bounds
  | listOf element item delimiter bounds, h =>
    recalls_bind (recalls_eval item h.1) fun shape =>
      recalls_bind (recalls_eval delimiter h.2) fun d => recalls_list element shape (some d) bounds
  | all items, h => recalls_bind (recalls_evalAll items h) fun _ => recalls_pure _
  | followedBy first second, h =>
    recalls_bind (recalls_eval first h.1) fun _ =>
      recalls_bind (recalls_eval second h.2) fun _ => recalls_pure _
  | firstOf items, h => by
    rw [eval_firstOf]
    exact recalls_bind (recalls_evalAll items h) fun _ => recalls_pure _
  | star item, h | plus item, h | orEmpty item, h | repeated item _, h =>
    recalls_bind (recalls_eval item h) fun _ => recalls_pure _
  | sequence items, h | choice items, h =>
    recalls_bind (recalls_evalAll items h) fun _ => recalls_pure _
  | separated item delimiter _, h =>
    recalls_bind (recalls_eval item h.1) fun _ =>
      recalls_bind (recalls_eval delimiter h.2) fun _ => recalls_pure _
  | fail _ _, _ => recalls_throw _

/-- The rules of a list are recalled one after the other. -/
theorem recalls_evalAll : ∀ rules : List Rule, AreLasting rules →
    (evalAll (defineNode types) rules).Recalls
  | [], _ => recalls_pure []
  | rule :: rest, h =>
    recalls_bind (recalls_eval rule h.1) fun _ =>
      recalls_bind (recalls_evalAll rest h.2) fun _ => recalls_pure _

end

/-! ## Regrouped rules -/

/-- The first rule is a single term wherever its evaluation succeeds, and the second is the same
term at any later time, when its evaluation registers nothing. -/
def SharesTerm (types : Array NodeDeclaration) (r s : Rule) : Prop :=
  ∀ (draft after : Draft) (shape : Shape),
    (r.eval (defineNode types)).runOn draft = (.ok shape, after) →
      ∃ index, shape = .term index ∧ ∀ frames events later,
        Session.Run ⟨after, frames⟩ events later →
          (s.eval (defineNode types)).runOn later.draft = (.ok (.term index), later.draft)

variable {r s : Rule}

/-- Rules that regroup each other share a term, if they are answered by terms. -/
theorem sharesTerm_of_regroups
    (hterm : ∀ (draft after : Draft) shape, (r.eval (defineNode types)).runOn draft =
      (.ok shape, after) → ∃ index, shape = .term index)
    (h : r.Regroups s) (hcomposed : r.IsComposed) (hlasting : r.IsLasting) :
    SharesTerm types r s := by
  intro draft after shape hrun
  obtain ⟨index, rfl⟩ := hterm draft after shape hrun
  refine ⟨index, rfl, fun frames events later hlater => ?_⟩
  rw [← h.eval_eq hcomposed]
  exact (recalls_eval r hlasting).again draft _ after later.draft hrun hlater.remembers

/-- **The algebra of shapes.**  On shapes that are put together by the operators, sums are
associative with the empty shape as their unit, and choices are associative; and these are the
shapes in which everything is spliced.  So rules that differ only in how sums and choices are
grouped are evaluated in the same way, and optionals, lists and braces of them are one and the same
term: the one that was made for the first of them, whenever the other one is evaluated. -/
theorem algebra_of_shapes :
    (∀ a b c : Shape, a.IsComposed → b.IsComposed → c.IsComposed →
      a ++ b ++ c = a ++ (b ++ c) ∧ .empty ++ a = a ∧ a ++ .empty = a ∧
        a ||| b ||| c = a ||| (b ||| c)) ∧
    (∀ s : Shape, s.IsComposed ↔ ∀ part ∈ s.parts, part.IsSpliced) ∧
    ∀ r s : Rule, r.Regroups s → r.IsComposed →
      (∀ define, r.eval define = s.eval define) ∧
      (r.IsLasting → ∀ types,
        SharesTerm types (.optional r) (.optional s) ∧
        (∀ element bounds,
          SharesTerm types (.list element r bounds) (.list element s bounds)) ∧
        (∀ element bounds (d e : Rule), d.Regroups e → d.IsComposed → d.IsLasting →
          SharesTerm types (.listOf element r d bounds) (.listOf element s e bounds)) ∧
        ∀ opening closing omissible,
          SharesTerm types (.braces opening r closing omissible)
            (.braces opening s closing omissible)) := by
  refine ⟨fun a b c ha hb hc => ⟨Shape.append_assoc ha.isSpliced hb.isSpliced hc.isSpliced,
    Shape.empty_append ha.isSpliced, Shape.append_empty ha.isSpliced, Shape.or_assoc a b c⟩,
    fun s => Shape.isComposed_iff_isNormal,
    fun r s h hr => ⟨fun define => h.eval_eq hr, fun hlasting types => ?_⟩⟩
  refine ⟨?_, fun element bounds => ?_, fun element bounds d e h' hd hlasting' => ?_,
    fun opening closing omissible => ?_⟩
  · refine sharesTerm_of_regroups (fun draft after shape hrun => ?_) (.optional h) hr hlasting
    obtain ⟨inner, middle, _, hrun⟩ := bind_ok hrun
    exact exists_term_of_answers (answers_optional inner) hrun
  · refine sharesTerm_of_regroups (fun draft after shape hrun => ?_) (.list element bounds h) hr
      hlasting
    obtain ⟨item, middle, _, hrun⟩ := bind_ok hrun
    exact exists_term_of_answers (answers_list element item none bounds) hrun
  · refine sharesTerm_of_regroups (fun draft after shape hrun => ?_) (.listOf element bounds h h')
      ⟨hr, hd⟩ ⟨hlasting, hlasting'⟩
    obtain ⟨item, middle, _, hrun⟩ := bind_ok hrun
    obtain ⟨delimiter, last, _, hrun⟩ := bind_ok hrun
    exact exists_term_of_answers (answers_list element item (some delimiter) bounds) hrun
  · refine sharesTerm_of_regroups (fun draft after shape hrun => ?_)
      (.braces opening closing omissible h) hr hlasting
    obtain ⟨inside, middle, _, hrun⟩ := bind_ok hrun
    exact exists_term_of_answers (answers_braces opening inside closing omissible) hrun

/-! ### Three terms

The sum of three terms, grouped from the left and from the right, in an optional part. -/

/-- A rule that refers to a term by number. -/
def termRule (n : ℕ) : Rule :=
  .shape (.term (.ofNat n))

/-- The first two of three terms are a group. -/
def leftGrouped : Rule :=
  .all [.all [termRule 0, termRule 1], termRule 2]

/-- The last two of three terms are a group. -/
def rightGrouped : Rule :=
  .all [termRule 0, .all [termRule 1, termRule 2]]

/-- Either way of grouping three terms comes from the sum of all. -/
theorem regroups_threeTerms : leftGrouped.Regroups rightGrouped :=
  .trans (.sum [] [termRule 0, termRule 1] [termRule 2])
    (.symm (.sum [termRule 0] [termRule 1, termRule 2] []))

/-- The grouped rule is composed, since terms are. -/
theorem isComposed_leftGrouped : leftGrouped.IsComposed := by
  simp [leftGrouped, termRule, IsComposed, AreComposed, Shape.IsComposed.term]

/-- The grouped rule is lasting, since its terms are there already. -/
theorem isLasting_leftGrouped : leftGrouped.IsLasting := by
  simp [leftGrouped, termRule, IsLasting, AreLasting]

/-- The optional part is registered once, for either grouping, with the three terms as one
sequence among its alternatives. -/
theorem algebra_of_shapes_threeTerms :
    ∃ after : Draft, ((optional leftGrouped).eval (defineNode #[])).runOn .empty =
        (.ok (.term (.ofNat 0)), after) ∧
      ((optional rightGrouped).eval (defineNode #[])).runOn after =
        (.ok (.term (.ofNat 0)), after) ∧
      (Shape.term (.ofNat 0) ++ .term (.ofNat 1)).IsSpliced ∧
      Shape.term (.ofNat 0) ++ .term (.ofNat 1) ++ .term (.ofNat 2) =
        Shape.term (.ofNat 0) ++ (.term (.ofNat 1) ++ .term (.ofNat 2)) := by
  obtain ⟨hlaws, hnormal, hrules⟩ := algebra_of_shapes
  obtain ⟨_, hshares⟩ := hrules leftGrouped rightGrouped regroups_threeTerms isComposed_leftGrouped
  obtain ⟨hoptional, _⟩ := hshares isLasting_leftGrouped #[]
  have hfirst : ((optional leftGrouped).eval (defineNode #[])).runOn .empty =
      (.ok (.term (.ofNat 0)), _) := rfl
  obtain ⟨index, hindex, hlater⟩ := hoptional _ _ _ hfirst
  obtain rfl := Shape.term.inj hindex
  have hcomposed : (Shape.term (.ofNat 0) ++ .term (.ofNat 1)).IsComposed :=
    .append (.term _) (.term _)
  exact ⟨_, hfirst, hlater [] [] _ (.refl _), (hnormal _).mp hcomposed _ (Shape.self_mem_parts _),
    (hlaws _ _ _ (.term _) (.term _) (.term _)).1⟩

end Rule

end TypedGrammar
