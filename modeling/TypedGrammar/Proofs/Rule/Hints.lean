import TypedGrammar.Proofs.Draft.ParallelCalls

/-!
# Rules without hints

A hint matches nothing and has no node, but it is an item of the sequence in which it stands.  So
a hint next to a single term makes two items of one, and where single terms are treated in another
way than other shapes, as in lists and braces, the rule is another one without the hint.

Where it makes no such difference, a rule with hints and the same rule without them are evaluated in
parallel: they register terms that stand for each other, and their shapes match alike.
-/

namespace TypedGrammar

namespace Rule

/-! ## Leaving out hints -/

mutual

/-- The rule with nothing in place of hints. -/
def withoutHints : Rule → Rule
  | hint _ => shape .empty
  | braces opening inside closing omissible =>
    braces opening (withoutHints inside) closing omissible
  | optional inner => optional (withoutHints inner)
  | withoutNode inner => withoutNode (withoutHints inner)
  | list element item bounds => list element (withoutHints item) bounds
  | listOf element item delimiter bounds =>
    listOf element (withoutHints item) (withoutHints delimiter) bounds
  | custom name inner maker => custom name (withoutHints inner) maker
  | all items => all (withoutHintsOfAll items)
  | followedBy first second => followedBy (withoutHints first) (withoutHints second)
  | firstOf items => firstOf (withoutHintsOfAll items)
  | star item => star (withoutHints item)
  | plus item => plus (withoutHints item)
  | orEmpty inner => orEmpty (withoutHints inner)
  | sequence items => sequence (withoutHintsOfAll items)
  | choice items => choice (withoutHintsOfAll items)
  | repeated item bounds => repeated (withoutHints item) bounds
  | separated item delimiter bounds =>
    separated (withoutHints item) (withoutHints delimiter) bounds
  | attempt inner => attempt (withoutHints inner)
  | other => other

/-- The rules of a list with nothing in place of hints. -/
def withoutHintsOfAll : List Rule → List Rule
  | [] => []
  | rule :: rest => withoutHints rule :: withoutHintsOfAll rest

end

/-! ## Forms -/

/-- The form of a single term. -/
def termForm : Shape :=
  .term (.ofNat 0)

/-- The first of several shapes that matches. -/
def anyOf : List Shape → Shape
  | [] => .empty
  | first :: rest => rest.foldl (· ||| ·) first

/-- What becomes of pairs of forms, with hints and without. -/
def ofPairs (f : List Shape → Shape) (forms : List (Shape × Shape)) : Shape × Shape :=
  (f (forms.map Prod.fst), f (forms.map Prod.snd))

mutual

/-- The forms that the shape of a rule can have, each with its form when hints are left out.  There
are several only because what is attempted may fail. -/
def forms : Rule → List (Shape × Shape)
  | shape s => [(s.form, s.form)]
  | hint h => [(.hint h, .empty)]
  | all items => (formsOfAll items).map (ofPairs fun shapes => shapes.foldl (· ++ ·) .empty)
  | followedBy first second =>
    (forms first).flatMap fun x => (forms second).map fun y => (x.1 ++ y.1, x.2 ++ y.2)
  | firstOf items => (formsOfAll items).map (ofPairs anyOf)
  | star item => (forms item).map fun x => (x.1.star, x.2.star)
  | plus item => (forms item).map fun x => (x.1.plus, x.2.plus)
  | orEmpty inner => (forms inner).map fun x => (x.1.orEmpty, x.2.orEmpty)
  | sequence items => (formsOfAll items).map (ofPairs .sequence)
  | choice items => (formsOfAll items).map (ofPairs .choice)
  | repeated item bounds => (forms item).map fun x => (.repeated x.1 bounds, .repeated x.2 bounds)
  | separated item delimiter bounds =>
    (forms item).flatMap fun x => (forms delimiter).map fun y =>
      (.separated x.1 y.1 bounds, .separated x.2 y.2 bounds)
  | fail _ _ => []
  | attempt inner => (.empty, .empty) :: forms inner
  | _ => [(termForm, termForm)]

/-- The forms that the shapes of the rules of a list can have. -/
def formsOfAll : List Rule → List (List (Shape × Shape))
  | [] => [[]]
  | rule :: rest => (forms rule).flatMap fun x => (formsOfAll rest).map (x :: ·)

end

/-! ## Conditions -/

/-- With hints and without, the shape of the rule is a single term, or it is not. -/
def GroupsAlike (rule : Rule) : Prop :=
  ∀ x ∈ rule.forms, x.1.term?.isSome = x.2.term?.isSome

/-- With hints and without, the shape of the rule is a choice without alternatives, or it is not. -/
def ChoosesAlike (rule : Rule) : Prop :=
  ∀ x ∈ rule.forms, x.1.alternatives = [] ↔ x.2.alternatives = []

instance (rule : Rule) : Decidable rule.GroupsAlike :=
  inferInstanceAs (Decidable (∀ x ∈ rule.forms, x.1.term?.isSome = x.2.term?.isSome))

instance (rule : Rule) : Decidable rule.ChoosesAlike :=
  inferInstanceAs (Decidable (∀ x ∈ rule.forms, x.1.alternatives = [] ↔ x.2.alternatives = []))

mutual

/-- No hint decides whether something is a single term where this matters, namely in lists and in
braces, nor whether an alternative is a choice of nothing.  Shapes at hand refer to no terms, as
their numbers may be others without hints, and makers do not look at names. -/
def IsHintSafe : Rule → Prop
  | shape s => s.references = []
  | braces _ inside _ omissible =>
    inside.IsHintSafe ∧ inside.GroupsAlike ∧ (omissible = true → inside.ChoosesAlike)
  | optional inner => inner.IsHintSafe ∧ inner.ChoosesAlike
  | withoutNode inner => inner.IsHintSafe
  | list _ item _ => item.IsHintSafe ∧ item.GroupsAlike
  | listOf _ item delimiter _ => item.IsHintSafe ∧ item.GroupsAlike ∧ delimiter.IsHintSafe
  | custom _ inner maker => inner.IsHintSafe ∧ maker.IgnoresNames
  | all items => AllHintSafe items
  | followedBy first second => first.IsHintSafe ∧ second.IsHintSafe
  | firstOf items => AllHintSafe items ∧ ∀ item ∈ items, item.ChoosesAlike
  | star item => item.IsHintSafe
  | plus item => item.IsHintSafe
  | orEmpty inner => inner.IsHintSafe ∧ inner.ChoosesAlike
  | sequence items => AllHintSafe items
  | choice items => AllHintSafe items
  | repeated item _ => item.IsHintSafe
  | separated item delimiter _ => item.IsHintSafe ∧ delimiter.IsHintSafe
  | attempt inner => inner.IsHintSafe
  | _ => True

/-- All rules of a list are hint-safe. -/
def AllHintSafe : List Rule → Prop
  | [] => True
  | rule :: rest => rule.IsHintSafe ∧ AllHintSafe rest

end

mutual

/-- A rule in which there are no hints has each form also without hints. -/
theorem forms_same_of_withoutHints_eq :
    ∀ rule : Rule, rule.withoutHints = rule → ∀ x ∈ rule.forms, x.1 = x.2
  | shape s, _, x, hx => by rw [List.mem_singleton.mp hx]
  | hint _, h, _, _ => nomatch h
  | all items, h, x, hx => by
    obtain ⟨xs, hxs, rfl⟩ := List.mem_map.mp hx
    exact congrArg _ (formsOfAll_same_of_withoutHints_eq items (Rule.all.inj h) xs hxs)
  | followedBy first second, h, x, hx => by
    obtain ⟨y, hy, hx⟩ := List.mem_flatMap.mp hx
    obtain ⟨z, hz, rfl⟩ := List.mem_map.mp hx
    rw [withoutHints, Rule.followedBy.injEq] at h
    show y.1 ++ z.1 = y.2 ++ z.2
    rw [forms_same_of_withoutHints_eq first h.1 y hy, forms_same_of_withoutHints_eq second h.2 z hz]
  | firstOf items, h, x, hx => by
    obtain ⟨xs, hxs, rfl⟩ := List.mem_map.mp hx
    exact congrArg anyOf (formsOfAll_same_of_withoutHints_eq items (Rule.firstOf.inj h) xs hxs)
  | star item, h, x, hx => by
    obtain ⟨y, hy, rfl⟩ := List.mem_map.mp hx
    exact congrArg Shape.star (forms_same_of_withoutHints_eq item (Rule.star.inj h) y hy)
  | plus item, h, x, hx => by
    obtain ⟨y, hy, rfl⟩ := List.mem_map.mp hx
    exact congrArg Shape.plus (forms_same_of_withoutHints_eq item (Rule.plus.inj h) y hy)
  | orEmpty inner, h, x, hx => by
    obtain ⟨y, hy, rfl⟩ := List.mem_map.mp hx
    exact congrArg Shape.orEmpty (forms_same_of_withoutHints_eq inner (Rule.orEmpty.inj h) y hy)
  | sequence items, h, x, hx => by
    obtain ⟨xs, hxs, rfl⟩ := List.mem_map.mp hx
    exact congrArg Shape.sequence
      (formsOfAll_same_of_withoutHints_eq items (Rule.sequence.inj h) xs hxs)
  | choice items, h, x, hx => by
    obtain ⟨xs, hxs, rfl⟩ := List.mem_map.mp hx
    exact congrArg Shape.choice
      (formsOfAll_same_of_withoutHints_eq items (Rule.choice.inj h) xs hxs)
  | repeated item bounds, h, x, hx => by
    obtain ⟨y, hy, rfl⟩ := List.mem_map.mp hx
    rw [withoutHints, Rule.repeated.injEq] at h
    exact congrArg (Shape.repeated · bounds) (forms_same_of_withoutHints_eq item h.1 y hy)
  | separated item delimiter bounds, h, x, hx => by
    obtain ⟨y, hy, hx⟩ := List.mem_flatMap.mp hx
    obtain ⟨z, hz, rfl⟩ := List.mem_map.mp hx
    rw [withoutHints, Rule.separated.injEq] at h
    show Shape.separated y.1 z.1 bounds = .separated y.2 z.2 bounds
    rw [forms_same_of_withoutHints_eq item h.1 y hy,
      forms_same_of_withoutHints_eq delimiter h.2.1 z hz]
  | fail _ _, _, _, hx => absurd hx List.not_mem_nil
  | attempt inner, h, x, hx => by
    rcases List.mem_cons.mp hx with rfl | hx
    · rfl
    · exact forms_same_of_withoutHints_eq inner (Rule.attempt.inj h) x hx
  | node _, _, x, hx | identifier _, _, x, hx | literal _, _, x, hx | constant _, _, x, hx
  | operator _, _, x, hx | key _, _, x, hx | braces _ _ _ _, _, x, hx | optional _, _, x, hx
  | withoutNode _, _, x, hx | list _ _ _, _, x, hx | listOf _ _ _ _, _, x, hx
  | custom _ _ _, _, x, hx => by rw [List.mem_singleton.mp hx]

/-- The forms of rules without hints are the same on both sides. -/
theorem formsOfAll_same_of_withoutHints_eq :
    ∀ rules : List Rule, withoutHintsOfAll rules = rules →
      ∀ xs ∈ formsOfAll rules, xs.map Prod.fst = xs.map Prod.snd
  | [], _, xs, hxs => by rw [List.mem_singleton.mp hxs]; rfl
  | rule :: rest, h, xs, hxs => by
    obtain ⟨y, hy, hxs⟩ := List.mem_flatMap.mp hxs
    obtain ⟨ys, hys, rfl⟩ := List.mem_map.mp hxs
    rw [withoutHintsOfAll, List.cons.injEq] at h
    rw [List.map_cons, List.map_cons, forms_same_of_withoutHints_eq rule h.1 y hy,
      formsOfAll_same_of_withoutHints_eq rest h.2 ys hys]

end

/-- Where a rule has no hints, they make no difference to its choices. -/
theorem choosesAlike_of_withoutHints_eq {rule : Rule} (h : rule.withoutHints = rule) :
    rule.ChoosesAlike :=
  fun x hx => by rw [forms_same_of_withoutHints_eq rule h x hx]

/-! ## Evaluation -/

/-- Two shapes are alike, and their forms are among those of the rule. -/
structure ShapesAlike (rule : Rule) (R : TermIndex → TermIndex → Prop) (s t : Shape) : Prop where
  alike : s.Alike R t
  forms : (s.form, t.form) ∈ rule.forms

/-- Two rows of shapes are alike, rule by rule. -/
inductive RowsAlike (R : TermIndex → TermIndex → Prop) : List Rule → List Shape → List Shape → Prop
  | nil : RowsAlike R [] [] []
  | cons {rule : Rule} {rules : List Rule} {s t : Shape} {ss ts : List Shape} :
      rule.ShapesAlike R s t → RowsAlike R rules ss ts →
        RowsAlike R (rule :: rules) (s :: ss) (t :: ts)

section Alike

variable {R R' : TermIndex → TermIndex → Prop} {rule : Rule} {rules : List Rule} {s t : Shape}
  {ss ts : List Shape}

/-- Shapes that are alike still are once more terms are related. -/
theorem ShapesAlike.mono (h : rule.ShapesAlike R s t) (hR : R ≤ R') : rule.ShapesAlike R' s t :=
  ⟨h.alike.mono hR, h.forms⟩

/-- Where hints do not group, both shapes are single terms or neither is. -/
theorem ShapesAlike.isSome_eq (h : rule.ShapesAlike R s t) (hrule : rule.GroupsAlike) :
    s.term?.isSome = t.term?.isSome := by
  rw [← Shape.isSome_term?_form s, ← Shape.isSome_term?_form t]
  exact hrule _ h.forms

/-- Where hints do not choose, both shapes have alternatives or neither has. -/
theorem ShapesAlike.alternatives_iff (h : rule.ShapesAlike R s t) (hrule : rule.ChoosesAlike) :
    s.alternatives = [] ↔ t.alternatives = [] := by
  rw [← Shape.alternatives_form_eq_nil, hrule _ h.forms, Shape.alternatives_form_eq_nil]

/-- Rows of shapes that are alike still are once more terms are related. -/
theorem RowsAlike.mono (h : RowsAlike R rules ss ts) (hR : R ≤ R') : RowsAlike R' rules ss ts := by
  induction h with
  | nil => exact .nil
  | cons hfirst _ ih => exact .cons (hfirst.mono hR) ih

/-- The shapes of a row are alike one by one. -/
theorem RowsAlike.forall₂ (h : RowsAlike R rules ss ts) : List.Forall₂ (Shape.Alike R) ss ts := by
  induction h with
  | nil => exact .nil
  | cons hfirst _ ih => exact .cons hfirst.alike ih

/-- The shapes of a row have alternatives on both sides or on neither. -/
theorem RowsAlike.forall₂_alternatives (h : RowsAlike R rules ss ts)
    (hrules : ∀ rule ∈ rules, rule.ChoosesAlike) :
    List.Forall₂ (fun s t => s.Alike R t ∧ (s.alternatives = [] ↔ t.alternatives = [])) ss ts := by
  induction h with
  | nil => exact .nil
  | cons hfirst _ ih =>
    rw [List.forall_mem_cons] at hrules
    exact .cons ⟨hfirst.alike, hfirst.alternatives_iff hrules.1⟩ (ih hrules.2)

/-- The forms of a row are among those of its rules. -/
theorem RowsAlike.exists_forms (h : RowsAlike R rules ss ts) :
    ∃ forms ∈ formsOfAll rules, forms.map Prod.fst = ss.map Shape.form ∧
      forms.map Prod.snd = ts.map Shape.form := by
  induction h with
  | nil => exact ⟨[], List.mem_singleton.mpr rfl, rfl, rfl⟩
  | @cons rule rules s t ss ts hfirst _ ih =>
    obtain ⟨forms, hmem, hleft, hright⟩ := ih
    refine ⟨(s.form, t.form) :: forms, ?_, congrArg _ hleft, congrArg _ hright⟩
    rw [formsOfAll]
    exact List.mem_flatMap.mpr ⟨_, hfirst.forms, List.mem_map.mpr ⟨forms, hmem, rfl⟩⟩

/-- What is put together from a row has a form that is put together from those of its rules. -/
theorem RowsAlike.mem_map_ofPairs {f : List Shape → Shape} (h : RowsAlike R rules ss ts)
    (hform : ∀ shapes, (f shapes).form = f (shapes.map Shape.form)) :
    ((f ss).form, (f ts).form) ∈ (formsOfAll rules).map (ofPairs f) := by
  obtain ⟨forms, hmem, hleft, hright⟩ := h.exists_forms
  refine List.mem_map.mpr ⟨forms, hmem, ?_⟩
  rw [ofPairs, hleft, hright, hform, hform]

/-- The form of a choice between shapes is the choice between their forms. -/
theorem form_anyOf (shapes : List Shape) : (anyOf shapes).form = anyOf (shapes.map Shape.form) := by
  cases shapes with
  | nil => rfl
  | cons first rest => exact Shape.form_foldl_or first rest

/-- Choices between like shapes are alike, if both have alternatives or neither has. -/
theorem alike_anyOf
    (h : List.Forall₂ (fun s t => s.Alike R t ∧ (s.alternatives = [] ↔ t.alternatives = [])) ss ts) :
    (anyOf ss).Alike R (anyOf ts) := by
  cases h with
  | nil => exact Shape.alike_empty
  | cons hfirst hrest => exact Shape.alike_foldl_or hfirst.1 hfirst.2 hrest

end Alike

open Drafting

/-- The result of a call is a single term. -/
theorem shapesAlike_of_sameTerm {R : TermIndex → TermIndex → Prop} {rule : Rule} {s t : Shape}
    (hrule : rule.forms = [(termForm, termForm)]) (h : SameTerm R s t) :
    rule.ShapesAlike R s t := by
  obtain ⟨i, j, rfl, rfl, hij⟩ := h
  refine ⟨Shape.alike_term hij, ?_⟩
  rw [hrule]
  exact List.mem_singleton.mpr rfl

/-- No call shrinks the draft. -/
theorem Call.follows_sizeLe (call : Call) : call.run.Follows Draft.SizeLe :=
  call.follows_grows.imp fun _ _ hgrows => hgrows.size_le

section Eval

variable {define define' : ℕ → Drafting TermIndex}

/-- Evaluating a rule does not shrink the draft, if defining node types does not. -/
theorem eval_sizeLe (hsize : ∀ number, (define number).Follows Draft.SizeLe) (rule : Rule) :
    (rule.eval define).Follows Draft.SizeLe :=
  follows_eval (P := fun _ => True) (fun call _ => Call.follows_sizeLe call) hsize rule
    fun _ _ => trivial

/-- Evaluating some rules does not shrink the draft, if defining node types does not. -/
theorem evalAll_sizeLe (hsize : ∀ number, (define number).Follows Draft.SizeLe)
    (rules : List Rule) : (evalAll define rules).Follows Draft.SizeLe :=
  follows_evalAll (P := fun _ => True) (fun call _ => Call.follows_sizeLe call) hsize rules
    fun _ _ => trivial

/-- Node types are defined in parallel. -/
structure NodesAlike (R : TermIndex → TermIndex → Prop) (define define' : ℕ → Drafting TermIndex) :
    Prop where
  parallel : ∀ number, Parallel R (fun R => R) (define number) (define' number)
  left : ∀ number, (define number).Follows Draft.SizeLe
  right : ∀ number, (define' number).Follows Draft.SizeLe

variable {R : TermIndex → TermIndex → Prop}

/-- A single term is the result on either side. -/
theorem parallel_term {rule : Rule} {p q : Drafting TermIndex}
    (hrule : rule.forms = [(termForm, termForm)]) (h : Parallel R (fun R => R) p q) :
    Parallel R rule.ShapesAlike (.term <$> p) (.term <$> q) :=
  h.map fun _ _ i j hij => shapesAlike_of_sameTerm hrule ⟨i, j, rfl, rfl, hij⟩

/-- A call is made with the result of a rule. -/
theorem parallel_call {rule outer : Rule} {p q : Drafting Shape} {f g : Shape → Drafting Shape}
    (houter : outer.forms = [(termForm, termForm)]) (h : Parallel R rule.ShapesAlike p q)
    (hf : ∀ s, (f s).Follows Draft.SizeLe) (hg : ∀ t, (g t).Follows Draft.SizeLe)
    (hcall : ∀ R' s t, R ≤ R' → rule.ShapesAlike R' s t → Parallel R' SameTerm (f s) (g t)) :
    Parallel R outer.ShapesAlike (p >>= f) (q >>= g) :=
  h.bind hf hg fun R' hR s t hlike => (hcall R' s t hR hlike).imp fun _ _ _ _ hsame =>
    shapesAlike_of_sameTerm houter hsame

/-- A shape is put together from the results of rules. -/
theorem parallel_shape {α : Type} {V : (TermIndex → TermIndex → Prop) → α → α → Prop} {outer : Rule}
    {p q : Drafting α} (f : α → Shape) (h : Parallel R V p q)
    (hshape : ∀ R' x y, V R' x y → outer.ShapesAlike R' (f x) (f y)) :
    Parallel R outer.ShapesAlike (p >>= fun x => pure (f x)) (q >>= fun y => pure (f y)) :=
  h.bind (fun _ => follows_pure _) (fun _ => follows_pure _) fun R' _ x y hxy =>
    parallel_pure fun _ hR => (hshape R' x y hxy).mono hR

/-- The form of an optional shape is the optional form. -/
theorem Shape.form_orEmpty (shape : Shape) : shape.orEmpty.form = shape.form.orEmpty :=
  Shape.form_or shape .empty

mutual

/-- **Evaluation without hints.**  Where hints make no difference to what is registered, a rule is
evaluated in parallel with and without them. -/
theorem parallel_eval (hnodes : NodesAlike R define define') :
    ∀ rule : Rule, rule.IsHintSafe →
      Parallel R rule.ShapesAlike (rule.eval define) (rule.withoutHints.eval define')
  | shape s, h => parallel_pure fun _ _ =>
    ⟨Shape.alike_self fun i hi => absurd (h ▸ hi) List.not_mem_nil, List.mem_singleton.mpr rfl⟩
  | hint h, _ => parallel_pure fun _ _ => ⟨Shape.alike_hint h, List.mem_singleton.mpr rfl⟩
  | node number, _ => parallel_term rfl (hnodes.parallel number)
  | identifier type, _ => parallel_term rfl (parallel_identifier type)
  | literal type, _ => parallel_term rfl (parallel_literal type)
  | constant type, _ => parallel_term rfl (parallel_constant type)
  | operator type, _ => parallel_term rfl (parallel_operator type)
  | key request, _ => parallel_term rfl (parallel_key request)
  | braces opening inside closing omissible, ⟨hinside, hgroups, hchooses⟩ =>
    parallel_call rfl (parallel_eval hnodes inside hinside)
      (fun s => Call.follows_sizeLe (.braces opening s closing omissible))
      (fun t => Call.follows_sizeLe (.braces opening t closing omissible)) fun _ _ _ _ hlike =>
        parallel_braces opening closing omissible hlike.alike (hlike.isSome_eq hgroups)
          fun homissible => hlike.alternatives_iff (hchooses homissible)
  | optional inner, ⟨hinner, hchooses⟩ =>
    parallel_call rfl (parallel_eval hnodes inner hinner)
      (fun s => Call.follows_sizeLe (.optional s)) (fun t => Call.follows_sizeLe (.optional t))
      fun _ _ _ _ hlike => parallel_optional hlike.alike (hlike.alternatives_iff hchooses)
  | withoutNode inner, hinner =>
    parallel_call rfl (parallel_eval hnodes inner hinner)
      (fun s => Call.follows_sizeLe (.withoutNode s))
      (fun t => Call.follows_sizeLe (.withoutNode t))
      fun _ _ _ _ hlike => parallel_withoutNode hlike.alike
  | list element item bounds, ⟨hitem, hgroups⟩ =>
    parallel_call rfl (parallel_eval hnodes item hitem)
      (fun s => Call.follows_sizeLe (.list element s none bounds))
      (fun t => Call.follows_sizeLe (.list element t none bounds)) fun _ _ _ _ hlike =>
        parallel_list element bounds hlike.alike (hlike.isSome_eq hgroups) .none
  | listOf element item delimiter bounds, ⟨hitem, hgroups, hdelimiter⟩ => by
    have hlist : ∀ s d, (Drafting.list element s (some d) bounds).Follows Draft.SizeLe :=
      fun s d => Call.follows_sizeLe (.list element s (some d) bounds)
    refine parallel_call rfl (parallel_eval hnodes item hitem)
      (fun s => follows_bind (eval_sizeLe hnodes.left delimiter) (hlist s))
      (fun t => follows_bind (eval_sizeLe hnodes.right delimiter.withoutHints) (hlist t)) ?_
    intro R₁ s t hR₁ hlike
    -- The delimiter is evaluated in the drafts that the item leaves, so the item has to stay alike.
    refine ((parallel_eval hnodes delimiter hdelimiter).mono hR₁).bind (hlist s) (hlist t) ?_
    intro R₂ hR₂ d e hdelimiters
    exact parallel_list element bounds (hlike.alike.mono hR₂) (hlike.isSome_eq hgroups)
      (.some hdelimiters.alike)
  | custom name inner maker, ⟨hinner, hignores⟩ =>
    parallel_call rfl (parallel_eval hnodes inner hinner)
      (fun s => Call.follows_sizeLe (.custom name s maker))
      (fun t => Call.follows_sizeLe (.custom name t maker))
      fun _ _ _ _ hlike => parallel_custom name hignores hlike.alike
  | all items, hitems =>
    parallel_shape (fun shapes => shapes.foldl (· ++ ·) .empty)
      (parallel_evalAll hnodes items hitems) fun _ _ _ hrows =>
        ⟨Shape.alike_foldl_append Shape.alike_empty hrows.forall₂,
          hrows.mem_map_ofPairs (Shape.form_foldl_append .empty)⟩
  | followedBy first second, ⟨hfirst, hsecond⟩ => by
    refine (parallel_eval hnodes first hfirst).bind
      (fun _ => follows_bind (eval_sizeLe hnodes.left second) fun _ => follows_pure _)
      (fun _ => follows_bind (eval_sizeLe hnodes.right second.withoutHints) fun _ =>
        follows_pure _) ?_
    intro R₁ hR₁ s t hlike
    refine ((parallel_eval hnodes second hsecond).mono hR₁).bind (fun _ => follows_pure _)
      -- The first shape has to stay alike until the second one is there.
      (fun _ => follows_pure _) fun R₂ hR₂ s' t' hlike' => parallel_pure fun R₃ hR₃ => ⟨?_, ?_⟩
    · exact Shape.alike_append (hlike.alike.mono (le_trans hR₂ hR₃)) (hlike'.alike.mono hR₃)
    · rw [Shape.form_append, Shape.form_append]
      exact List.mem_flatMap.mpr ⟨_, hlike.forms, List.mem_map.mpr ⟨_, hlike'.forms, rfl⟩⟩
  | firstOf items, ⟨hitems, hchooses⟩ => by
    have heval : ∀ (define : ℕ → Drafting TermIndex) (items : List Rule),
        (firstOf items).eval define = evalAll define items >>= fun shapes => pure (anyOf shapes) := by
      intro define items
      refine congrArg _ (funext fun shapes => ?_)
      cases shapes <;> rfl
    rw [withoutHints, heval, heval]
    exact parallel_shape anyOf (parallel_evalAll hnodes items hitems) fun _ _ _ hrows =>
      ⟨alike_anyOf (hrows.forall₂_alternatives hchooses), hrows.mem_map_ofPairs form_anyOf⟩
  | star item, hitem =>
    parallel_shape Shape.star (parallel_eval hnodes item hitem) fun _ _ _ hlike =>
      ⟨Shape.alike_repeated hlike.alike, List.mem_map.mpr ⟨_, hlike.forms, rfl⟩⟩
  | plus item, hitem =>
    parallel_shape Shape.plus (parallel_eval hnodes item hitem) fun _ _ _ hlike =>
      ⟨Shape.alike_repeated hlike.alike, List.mem_map.mpr ⟨_, hlike.forms, rfl⟩⟩
  | orEmpty inner, ⟨hinner, hchooses⟩ =>
    parallel_shape Shape.orEmpty (parallel_eval hnodes inner hinner) fun _ _ _ hlike =>
      ⟨Shape.alike_or hlike.alike Shape.alike_empty (hlike.alternatives_iff hchooses) Iff.rfl, by
        rw [Shape.form_orEmpty, Shape.form_orEmpty]
        exact List.mem_map.mpr ⟨_, hlike.forms, rfl⟩⟩
  | sequence items, hitems =>
    parallel_shape Shape.sequence (parallel_evalAll hnodes items hitems) fun _ _ _ hrows =>
      ⟨Shape.alike_sequence hrows.forall₂,
        hrows.mem_map_ofPairs fun shapes => congrArg Shape.sequence (Shape.formOfAll_eq_map shapes)⟩
  | choice items, hitems =>
    parallel_shape Shape.choice (parallel_evalAll hnodes items hitems) fun _ _ _ hrows =>
      ⟨Shape.alike_choice hrows.forall₂,
        hrows.mem_map_ofPairs fun shapes => congrArg Shape.choice (Shape.formOfAll_eq_map shapes)⟩
  | repeated item bounds, hitem =>
    parallel_shape (Shape.repeated · bounds) (parallel_eval hnodes item hitem) fun _ _ _ hlike =>
      ⟨Shape.alike_repeated hlike.alike, List.mem_map.mpr ⟨_, hlike.forms, rfl⟩⟩
  | separated item delimiter bounds, ⟨hitem, hdelimiter⟩ => by
    refine (parallel_eval hnodes item hitem).bind
      (fun _ => follows_bind (eval_sizeLe hnodes.left delimiter) fun _ => follows_pure _)
      (fun _ => follows_bind (eval_sizeLe hnodes.right delimiter.withoutHints) fun _ =>
        follows_pure _) ?_
    intro R₁ hR₁ s t hlike
    refine ((parallel_eval hnodes delimiter hdelimiter).mono hR₁).bind (fun _ => follows_pure _)
      (fun _ => follows_pure _) fun R₂ hR₂ s' t' hlike' => parallel_pure fun R₃ hR₃ => ⟨?_, ?_⟩
    · exact Shape.alike_separated (hlike.alike.mono (le_trans hR₂ hR₃)) (hlike'.alike.mono hR₃)
    · exact List.mem_flatMap.mpr ⟨_, hlike.forms, List.mem_map.mpr ⟨_, hlike'.forms, rfl⟩⟩
  | fail _ _, _ => parallel_throw _ _
  | attempt inner, hinner =>
    ((parallel_eval hnodes inner hinner).imp fun _ _ _ _ hlike =>
      ⟨hlike.alike, List.mem_cons_of_mem _ hlike.forms⟩).recover (fun _ => follows_pure _)
        (fun _ => follows_pure _) fun _ _ => parallel_pure fun _ _ =>
          ⟨Shape.alike_empty, List.mem_cons_self⟩

/-- The rules of a list are evaluated in parallel with themselves without hints. -/
theorem parallel_evalAll (hnodes : NodesAlike R define define') :
    ∀ rules : List Rule, AllHintSafe rules →
      Parallel R (fun R => RowsAlike R rules) (evalAll define rules)
        (evalAll define' (withoutHintsOfAll rules))
  | [], _ => parallel_pure fun _ _ => .nil
  | rule :: rest, ⟨hrule, hrest⟩ => by
    refine (parallel_eval hnodes rule hrule).bind
      (fun _ => follows_bind (evalAll_sizeLe hnodes.left rest) fun _ => follows_pure _)
      (fun _ => follows_bind (evalAll_sizeLe hnodes.right (withoutHintsOfAll rest)) fun _ =>
        follows_pure _) ?_
    intro R₁ hR₁ s t hlike
    refine ((parallel_evalAll hnodes rest hrest).mono hR₁).bind (fun _ => follows_pure _)
      (fun _ => follows_pure _) fun R₂ hR₂ ss ts hrows => parallel_pure fun R₃ hR₃ => ?_
    exact .cons (hlike.mono (le_trans hR₂ hR₃)) (hrows.mono hR₃)

end

end Eval

end Rule

end TypedGrammar
