import TypedGrammar.Proofs.Rule.Hints
import TypedGrammar.Proofs.Shape.Splicing

/-!
# Regrouping of rules

Rules may differ only in how the sums and the choices in them are grouped.  As shapes that are put
together by the operators are spliced, such rules are evaluated in the same way: they register the
same terms in the same order, fail alike, and have the same shape.
-/

namespace TypedGrammar

namespace Drafting

variable {α β : Type} {p q : Drafting α} {f g : α → Drafting β}

/-- Steps are the same if they run alike on all drafts. -/
theorem eq_of_runOn (h : ∀ draft : Draft, p.runOn draft = q.runOn draft) : p = q :=
  funext h

/-- What follows a step matters only for the results that the step can have. -/
theorem bind_congr_of_ok
    (h : ∀ (draft : Draft) a after, p.runOn draft = (.ok a, after) → f a = g a) :
    p >>= f = p >>= g := by
  refine eq_of_runOn fun draft => ?_
  rw [runOn_bind, runOn_bind]
  rcases hrun : p.runOn draft with ⟨e | a, after⟩
  · rfl
  · simp only
    rw [h draft a after hrun]

end Drafting

namespace Rule

open Drafting

variable {define : ℕ → Drafting TermIndex} {rule r s t : Rule} {rules xs ys zs : List Rule}
  {draft after : Draft} {shape : Shape} {shapes : List Shape}

/-! ## Lists of rules -/

/-- Rules are evaluated one list after the other. -/
theorem evalAll_append (xs ys : List Rule) :
    evalAll define (xs ++ ys) =
      evalAll define xs >>= fun first => evalAll define ys >>= fun second =>
        pure (first ++ second) := by
  induction xs with
  | nil => simp [evalAll]
  | cons x rest ih =>
    rw [List.cons_append, evalAll, ih, evalAll]
    simp only [bind_assoc, pure_bind, List.cons_append]

/-- A list with one rule in the middle. -/
theorem evalAll_append_cons (xs : List Rule) (r : Rule) (ys : List Rule) :
    evalAll define (xs ++ r :: ys) =
      evalAll define xs >>= fun first => eval define r >>= fun shape =>
        evalAll define ys >>= fun second => pure (first ++ shape :: second) := by
  rw [evalAll_append, evalAll]
  simp only [bind_assoc, pure_bind]

/-- Some rules have some shapes. -/
theorem ne_nil_of_evalAll (h : rules ≠ [])
    (hrun : (evalAll define rules).runOn draft = (.ok shapes, after)) : shapes ≠ [] := by
  obtain ⟨rule, rest, rfl⟩ := List.exists_cons_of_ne_nil h
  obtain ⟨first, middle, _, hrun⟩ := bind_ok hrun
  obtain ⟨others, last, _, hrun⟩ := bind_ok hrun
  obtain ⟨rfl, _⟩ := ok_inj hrun
  exact List.cons_ne_nil first others

/-- A sum of rules is evaluated to the sum of their shapes. -/
theorem eval_all (items : List Rule) :
    (all items).eval define = evalAll define items >>= fun shapes => pure (.sum shapes) :=
  eval.eq_def define (all items)

/-- A choice between rules is evaluated to the choice between their shapes. -/
theorem eval_firstOf (items : List Rule) :
    (firstOf items).eval define = evalAll define items >>= fun shapes => pure (anyOf shapes) := by
  rw [eval]
  congr 1
  funext shapes
  cases shapes <;> rfl

/-! ## Choices of lists -/

/-- A choice among others may be spliced into them. -/
theorem anyOf_splice (xs : List Shape) {ys : List Shape} (zs : List Shape) (hys : ys ≠ []) :
    anyOf (xs ++ anyOf ys :: zs) = anyOf (xs ++ ys ++ zs) := by
  obtain ⟨y, rest, rfl⟩ := List.exists_cons_of_ne_nil hys
  match xs with
  | [] =>
    show zs.foldl (· ||| ·) (rest.foldl (· ||| ·) y) = (rest ++ zs).foldl (· ||| ·) y
    rw [List.foldl_append]
  | x :: xs =>
    show (xs ++ rest.foldl (· ||| ·) y :: zs).foldl (· ||| ·) x =
      (xs ++ (y :: rest) ++ zs).foldl (· ||| ·) x
    rw [List.foldl_append, List.foldl_cons, Shape.or_foldl, List.foldl_append, List.foldl_append,
      List.foldl_cons]

/-- The choice between composed shapes is composed. -/
theorem isComposed_anyOf (h : ∀ s ∈ shapes, s.IsComposed) : (anyOf shapes).IsComposed := by
  match shapes with
  | [] => exact .empty
  | first :: rest =>
    exact Shape.isComposed_foldl_or (h first List.mem_cons_self) (List.forall_mem_cons.mp h).2

/-! ## Composed rules -/

mutual

/-- The shape of the rule is put together by the operators only. -/
def IsComposed : Rule → Prop
  | .shape s => s.IsComposed
  | braces _ inside _ _ => IsComposed inside
  | optional inner => IsComposed inner
  | withoutNode inner => IsComposed inner
  | list _ item _ => IsComposed item
  | listOf _ item delimiter _ => IsComposed item ∧ IsComposed delimiter
  | custom _ inner _ => IsComposed inner
  | all items => AreComposed items
  | followedBy first second => IsComposed first ∧ IsComposed second
  | firstOf items => AreComposed items
  | star item => IsComposed item
  | plus item => IsComposed item
  | orEmpty inner => IsComposed inner
  | sequence _ => False
  | choice _ => False
  | repeated item _ => IsComposed item
  | separated item delimiter _ => IsComposed item ∧ IsComposed delimiter
  | attempt inner => IsComposed inner
  | _ => True

/-- The shapes of the rules of a list are put together by the operators only. -/
def AreComposed : List Rule → Prop
  | [] => True
  | rule :: rest => IsComposed rule ∧ AreComposed rest

end

@[simp] theorem areComposed_append :
    AreComposed (xs ++ ys) ↔ AreComposed xs ∧ AreComposed ys := by
  induction xs with
  | nil => simp [AreComposed]
  | cons x rest ih => rw [List.cons_append, AreComposed, AreComposed, ih, and_assoc]

/-- The result of a step that has a term is a single term. -/
theorem isComposed_of_map_term {p : Drafting TermIndex}
    (hrun : (Shape.term <$> p).runOn draft = (.ok shape, after)) : shape.IsComposed := by
  rw [runOn_map] at hrun
  rcases hp : p.runOn draft with ⟨e | index, middle⟩
  · rw [hp] at hrun
    cases hrun
  · rw [hp] at hrun
    obtain ⟨rfl, _⟩ := ok_inj hrun
    exact .term index

/-- What answers a request is a single term. -/
theorem exists_term_of_answers {request : Request} {p : Drafting Shape} (h : Answers request p)
    (hrun : p.runOn draft = (.ok shape, after)) : ∃ index, shape = .term index := by
  obtain ⟨index, rfl, _⟩ := (h draft).2 shape (congrArg Prod.fst hrun)
  exact ⟨index, rfl⟩

/-- An answer is composed, since it is a single term. -/
theorem isComposed_of_answers {request : Request} {p : Drafting Shape} (h : Answers request p)
    (hrun : p.runOn draft = (.ok shape, after)) : shape.IsComposed := by
  obtain ⟨index, rfl⟩ := exists_term_of_answers h hrun
  exact .term index

mutual

/-- **Composed rules have composed shapes.** -/
theorem isComposed_of_eval {draft after : Draft} {shape : Shape} : ∀ rule : Rule, rule.IsComposed →
    (rule.eval define).runOn draft = (.ok shape, after) → shape.IsComposed
  | .shape s, h, hrun => by
    obtain ⟨rfl, _⟩ := ok_inj hrun
    exact h
  | hint advice, _, hrun => by
    obtain ⟨rfl, _⟩ := ok_inj hrun
    exact .hint advice
  | node _, _, hrun | identifier _, _, hrun | literal _, _, hrun | constant _, _, hrun
  | operator _, _, hrun | key _, _, hrun => isComposed_of_map_term hrun
  | braces opening _ closing omissible, _, hrun => by
    obtain ⟨inside, middle, _, hrun⟩ := bind_ok hrun
    exact isComposed_of_answers (answers_braces opening inside closing omissible) hrun
  | optional _, _, hrun => by
    obtain ⟨inner, middle, _, hrun⟩ := bind_ok hrun
    exact isComposed_of_answers (answers_optional inner) hrun
  | list element _ bounds, _, hrun => by
    obtain ⟨item, middle, _, hrun⟩ := bind_ok hrun
    exact isComposed_of_answers (answers_list element item none bounds) hrun
  | listOf element _ _ bounds, _, hrun => by
    obtain ⟨item, middle, _, hrun⟩ := bind_ok hrun
    obtain ⟨delimiter, last, _, hrun⟩ := bind_ok hrun
    exact isComposed_of_answers (answers_list element item (some delimiter) bounds) hrun
  | withoutNode _, _, hrun => by
    obtain ⟨inner, middle, _, hrun⟩ := bind_ok hrun
    obtain ⟨_, _, _, hrun⟩ := bind_ok hrun
    exact isComposed_of_map_term hrun
  | custom _ _ _, _, hrun => by
    obtain ⟨inner, middle, _, hrun⟩ := bind_ok hrun
    exact isComposed_of_map_term hrun
  | all items, h, hrun => by
    obtain ⟨shapes, middle, hitems, hrun⟩ := bind_ok hrun
    obtain ⟨rfl, _⟩ := ok_inj hrun
    exact Shape.isComposed_sum (isComposed_of_evalAll items h hitems)
  | firstOf items, h, hrun => by
    rw [eval_firstOf] at hrun
    obtain ⟨shapes, middle, hitems, hrun⟩ := bind_ok hrun
    obtain ⟨rfl, _⟩ := ok_inj hrun
    exact isComposed_anyOf (isComposed_of_evalAll items h hitems)
  | followedBy first second, h, hrun => by
    obtain ⟨a, middle, hfirst, hrun⟩ := bind_ok hrun
    obtain ⟨b, last, hsecond, hrun⟩ := bind_ok hrun
    obtain ⟨rfl, _⟩ := ok_inj hrun
    exact .append (isComposed_of_eval first h.1 hfirst) (isComposed_of_eval second h.2 hsecond)
  | star item, h, hrun | plus item, h, hrun | repeated item _, h, hrun => by
    obtain ⟨s, middle, hitem, hrun⟩ := bind_ok hrun
    obtain ⟨rfl, _⟩ := ok_inj hrun
    exact .repeated _ (isComposed_of_eval item h hitem)
  | orEmpty inner, h, hrun => by
    obtain ⟨s, middle, hinner, hrun⟩ := bind_ok hrun
    obtain ⟨rfl, _⟩ := ok_inj hrun
    exact .or (isComposed_of_eval inner h hinner) .empty
  | separated item delimiter bounds, h, hrun => by
    obtain ⟨s, middle, hitem, hrun⟩ := bind_ok hrun
    obtain ⟨d, last, hdelimiter, hrun⟩ := bind_ok hrun
    obtain ⟨rfl, _⟩ := ok_inj hrun
    exact .separated bounds (isComposed_of_eval item h.1 hitem)
      (isComposed_of_eval delimiter h.2 hdelimiter)
  | fail _ _, _, hrun => nomatch hrun
  | attempt inner, h, hrun => by
    rw [eval, runOn_tryCatch] at hrun
    split at hrun
    · next s last hinner =>
      obtain ⟨rfl, _⟩ := ok_inj hrun
      exact isComposed_of_eval inner h hinner
    · -- A failure that is caught leaves the empty shape.
      obtain ⟨rfl, _⟩ := ok_inj hrun
      exact .empty

/-- Composed rules are evaluated to composed shapes. -/
theorem isComposed_of_evalAll {draft after : Draft} {shapes : List Shape} : ∀ rules : List Rule,
    AreComposed rules → (evalAll define rules).runOn draft = (.ok shapes, after) →
      ∀ s ∈ shapes, s.IsComposed
  | [], _, hrun => by
    obtain ⟨rfl, _⟩ := ok_inj hrun
    exact fun s hs => absurd hs List.not_mem_nil
  | rule :: rest, h, hrun => by
    obtain ⟨first, middle, hfirst, hrun⟩ := bind_ok hrun
    obtain ⟨others, last, hothers, hrun⟩ := bind_ok hrun
    obtain ⟨rfl, _⟩ := ok_inj hrun
    exact List.forall_mem_cons.mpr
      ⟨isComposed_of_eval rule h.1 hfirst, isComposed_of_evalAll rest h.2 hothers⟩

end

/-! ## Regrouping -/

/-- **Regrouping.**  Rules that differ only in how the sums and the choices in them are grouped. -/
inductive Regroups : Rule → Rule → Prop
  | refl (r : Rule) : Regroups r r
  | symm {r s : Rule} (h : Regroups r s) : Regroups s r
  | trans {r s t : Rule} (h : Regroups r s) (h' : Regroups s t) : Regroups r t
  /-- A sum among the items of a sum. -/
  | sum (xs ys zs : List Rule) : Regroups (.all (xs ++ .all ys :: zs)) (.all (xs ++ ys ++ zs))
  /-- A sum of one item. -/
  | single (r : Rule) : Regroups (.all [r]) r
  | binary (r s : Rule) : Regroups (.followedBy r s) (.all [r, s])
  /-- A choice among the alternatives of a choice. -/
  | choice (xs : List Rule) {ys : List Rule} (zs : List Rule) (h : ys ≠ []) :
    Regroups (.firstOf (xs ++ .firstOf ys :: zs)) (.firstOf (xs ++ ys ++ zs))
  /-- A choice of one alternative. -/
  | only (r : Rule) : Regroups (.firstOf [r]) r
  | orNothing (r : Rule) : Regroups (.orEmpty r) (.firstOf [r, .shape .empty])
  | all (xs : List Rule) {r s : Rule} (ys : List Rule) (h : Regroups r s) :
    Regroups (.all (xs ++ r :: ys)) (.all (xs ++ s :: ys))
  | firstOf (xs : List Rule) {r s : Rule} (ys : List Rule) (h : Regroups r s) :
    Regroups (.firstOf (xs ++ r :: ys)) (.firstOf (xs ++ s :: ys))
  | braces (opening : String) {r s : Rule} (closing : String) (omissible : Bool)
    (h : Regroups r s) :
    Regroups (.braces opening r closing omissible) (.braces opening s closing omissible)
  | optional {r s : Rule} (h : Regroups r s) : Regroups (.optional r) (.optional s)
  | withoutNode {r s : Rule} (h : Regroups r s) : Regroups (.withoutNode r) (.withoutNode s)
  | list (element : ValueType) {r s : Rule} (bounds : Bounds) (h : Regroups r s) :
    Regroups (.list element r bounds) (.list element s bounds)
  | listOf (element : ValueType) {r s r' s' : Rule} (bounds : Bounds) (h : Regroups r s)
    (h' : Regroups r' s') : Regroups (.listOf element r r' bounds) (.listOf element s s' bounds)
  | custom (name : String) {r s : Rule} (maker : Maker) (h : Regroups r s) :
    Regroups (.custom name r maker) (.custom name s maker)
  | star {r s : Rule} (h : Regroups r s) : Regroups (.star r) (.star s)
  | plus {r s : Rule} (h : Regroups r s) : Regroups (.plus r) (.plus s)
  | repeated {r s : Rule} (bounds : Bounds) (h : Regroups r s) :
    Regroups (.repeated r bounds) (.repeated s bounds)
  | separated {r s r' s' : Rule} (bounds : Bounds) (h : Regroups r s) (h' : Regroups r' s') :
    Regroups (.separated r r' bounds) (.separated s s' bounds)
  | attempt {r s : Rule} (h : Regroups r s) : Regroups (.attempt r) (.attempt s)

/-- Rules are composed however they are grouped. -/
theorem Regroups.isComposed_iff (h : r.Regroups s) : r.IsComposed ↔ s.IsComposed := by
  induction h with
  | refl r => rfl
  | symm _ ih => exact ih.symm
  | trans _ _ ih ih' => exact ih.trans ih'
  | sum | choice => simp only [IsComposed, areComposed_append, AreComposed, and_assoc]
  | single | binary | only => simp only [IsComposed, AreComposed, and_true]
  | orNothing r =>
    simp only [IsComposed, AreComposed, and_true]
    exact ⟨fun h => ⟨h, .empty⟩, fun h => h.1⟩
  | all xs ys _ ih | firstOf xs ys _ ih =>
    simp only [IsComposed, areComposed_append, AreComposed, ih]
  | listOf _ _ _ _ ih ih' | separated _ _ _ ih ih' => simp only [IsComposed, ih, ih']
  | braces _ _ _ _ ih | optional _ ih | withoutNode _ ih | list _ _ _ ih | custom _ _ _ ih
  | star _ ih | plus _ ih | repeated _ _ ih | attempt _ ih => simp only [IsComposed, ih]

/-- **Rules that are regrouped are evaluated in the same way.** -/
theorem Regroups.eval_eq (h : r.Regroups s) (hr : r.IsComposed) :
    r.eval define = s.eval define := by
  induction h with
  | refl r => rfl
  | symm h ih => exact (ih (h.isComposed_iff.mpr hr)).symm
  | trans h _ ih ih' => exact (ih hr).trans (ih' (h.isComposed_iff.mp hr))
  | sum xs ys zs =>
    simp only [IsComposed, areComposed_append, AreComposed] at hr
    obtain ⟨hxs, hys, _⟩ := hr
    rw [eval_all, eval_all, evalAll_append_cons, List.append_assoc, evalAll_append,
      evalAll_append ys, eval_all]
    simp only [bind_assoc, pure_bind]
    -- The same shapes are put together; only the inner sum is missing on one side.
    refine bind_congr_of_ok fun draft first middle hfirst => ?_
    refine bind_congr_of_ok fun draft inner last hinner => ?_
    congr 1
    funext second
    rw [Shape.sum_splice second (isComposed_of_evalAll xs hxs hfirst)
      (isComposed_of_evalAll ys hys hinner), List.append_assoc]
  | @choice xs ys zs hys =>
    rw [eval_firstOf, eval_firstOf, evalAll_append_cons, List.append_assoc, evalAll_append,
      evalAll_append ys, eval_firstOf]
    simp only [bind_assoc, pure_bind]
    -- What is spliced into a choice must have alternatives, or it would add an empty one.
    refine bind_congr_of_ok fun draft first middle _ => ?_
    refine bind_congr_of_ok fun draft inner last hinner => ?_
    congr 1
    funext second
    rw [anyOf_splice first second (ne_nil_of_evalAll hys hinner), List.append_assoc]
  | single r =>
    simp only [IsComposed, AreComposed, and_true] at hr
    rw [eval_all, evalAll, evalAll]
    simp only [bind_assoc, pure_bind]
    conv_rhs => rw [← bind_pure (r.eval define)]
    refine bind_congr_of_ok fun draft shape after hrun => ?_
    rw [Shape.sum_singleton (isComposed_of_eval r hr hrun)]
  | only r =>
    rw [eval_firstOf, evalAll, evalAll]
    simp only [bind_assoc, pure_bind]
    exact bind_pure (r.eval define)
  | binary r s =>
    rw [eval_all, eval, evalAll, evalAll, evalAll]
    simp only [bind_assoc, pure_bind]
    refine bind_congr_of_ok fun draft first middle hfirst => ?_
    refine bind_congr_of_ok fun draft second last _ => ?_
    rw [Shape.sum_pair (isComposed_of_eval r hr.1 hfirst)]
  | orNothing r =>
    rw [eval_firstOf, eval, evalAll, evalAll, evalAll, eval]
    simp only [bind_assoc, pure_bind]
    rfl
  | all xs ys _ ih | firstOf xs ys _ ih =>
    simp only [IsComposed, areComposed_append, AreComposed] at hr
    simp only [eval_all, eval_firstOf, evalAll_append_cons, ih hr.2.1]
  | listOf _ _ _ _ ih ih' | separated _ _ _ ih ih' => rw [eval, eval, ih hr.1, ih' hr.2]
  | braces _ _ _ _ ih | optional _ ih | withoutNode _ ih | list _ _ _ ih | custom _ _ _ ih
  | star _ ih | plus _ ih | repeated _ _ ih | attempt _ ih => rw [eval, eval, ih hr]

end Rule

end TypedGrammar
