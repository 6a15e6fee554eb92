import TypedGrammar.Proofs.Draft.Likeness
import TypedGrammar.Proofs.Draft.Runs

/-!
# Parallel steps

Two steps are parallel if they keep drafts alike: both succeed, with results that a relation holds
of, or both fail.  Nothing is said once the numbers of terms are used up, as then one of them may
fail where the other one does not.  Steps that are put together from parallel ones are parallel, and
so are the calls by which the same rules are put together from like shapes.
-/

namespace TypedGrammar

/-! ## Sizes -/

namespace Draft

variable {old new : Draft}

/-- The numbers of terms are used up. -/
def IsFull (draft : Draft) : Prop :=
  termLimit ≤ draft.entries.size

/-- There are no fewer entries than before. -/
def SizeLe (old new : Draft) : Prop :=
  old.entries.size ≤ new.entries.size

instance : Std.Refl SizeLe :=
  ⟨fun _ => Nat.le_refl _⟩

instance : IsTrans Draft SizeLe :=
  ⟨fun _ _ _ => Nat.le_trans⟩

/-- A draft that is full stays full. -/
theorem IsFull.mono (h : old.IsFull) (hsize : old.SizeLe new) : new.IsFull :=
  Nat.le_trans h hsize

/-- There is no next number only if all are used up. -/
theorem isFull_of_ofNat? (h : TermIndex.ofNat? old.entries.size = none) : old.IsFull := by
  unfold TermIndex.ofNat? at h
  split at h
  · cases h
  · next hlt => exact Nat.not_lt.mp hlt

/-- A change of one term adds none. -/
theorem sizeLe_modifyTerm (draft : Draft) (index : TermIndex) (change : Term → Term) :
    draft.SizeLe (draft.modifyTerm index change) :=
  Nat.le_of_eq (Array.size_modify ..).symm

end Draft

namespace Session

open Drafting

variable {before after : Session} {events : List Event}

/-- No step of a run shrinks the draft. -/
theorem Step.size_le (h : Step before events after) : before.draft.SizeLe after.draft := by
  cases h with
  | @call draft _ _ _ call h =>
    have hgrows := call.follows_grows draft
    rw [h] at hgrows
    exact hgrows.size_le
  | setFlags h =>
    rw [runOn_setFlags] at h
    split at h
    · cases h
    · obtain ⟨_, rfl⟩ := ok_inj h
      exact Draft.sizeLe_modifyTerm _ _ _
  | flagsRefused h =>
    rw [runOn_setFlags] at h
    split at h
    · obtain ⟨_, rfl⟩ := Prod.mk.inj h
      exact Nat.le_refl _
    · cases h
  | found _ => exact Nat.le_refl _
  | @refused _ _ _ type _ hnew h =>
    have hgrows := (grows_declare hnew type.pending_hasMaker).1
    rw [h] at hgrows
    exact hgrows.size_le
  | @enter _ _ _ type _ hnew h =>
    have hgrows := (grows_declare hnew type.pending_hasMaker).1
    rw [h] at hgrows
    exact hgrows.size_le
  | store shape => exact Draft.sizeLe_modifyTerm _ _ _
  | finish => exact Nat.le_refl _
  | abandon => exact Nat.le_refl _

/-- No run shrinks the draft. -/
theorem Run.size_le (h : Run before events after) : before.draft.SizeLe after.draft := by
  induction h with
  | refl => exact Nat.le_refl _
  | step _ hstep ih => exact Nat.le_trans ih hstep.size_le

end Session

/-- A draft that a run leads to is no smaller. -/
theorem Draft.RunsTo.size_le {old new : Draft} (h : old.RunsTo new) : old.SizeLe new := by
  obtain ⟨_, hrun⟩ := h []
  exact hrun.size_le

namespace Drafting

open Draft

variable {α β γ δ : Type} {R R' : TermIndex → TermIndex → Prop}
  {V V' : (TermIndex → TermIndex → Prop) → α → β → Prop}
  {W : (TermIndex → TermIndex → Prop) → γ → δ → Prop} {p : Drafting α} {q : Drafting β}
  {a b : Draft}

/-! ## Parallel steps -/

/-- Two runs leave drafts alike, for some relation between terms that goes on from `R`, and both
fail, or have results of which `V` holds; or the numbers of terms are used up in one of them. -/
inductive RunsAlike (R : TermIndex → TermIndex → Prop)
    (V : (TermIndex → TermIndex → Prop) → α → β → Prop) :
    Except Error α × Draft → Except Error β × Draft → Prop
  | fullLeft {run : Except Error α × Draft} {run' : Except Error β × Draft} :
      run.2.IsFull → RunsAlike R V run run'
  | fullRight {run : Except Error α × Draft} {run' : Except Error β × Draft} :
      run'.2.IsFull → RunsAlike R V run run'
  | ok {x : α} {y : β} {a b : Draft} (R' : TermIndex → TermIndex → Prop) :
      R ≤ R' → Draft.Alike R' a b → V R' x y → RunsAlike R V (.ok x, a) (.ok y, b)
  | error {e f : Error} {a b : Draft} (R' : TermIndex → TermIndex → Prop) :
      R ≤ R' → Draft.Alike R' a b → RunsAlike R V (.error e, a) (.error f, b)

/-- Two steps are parallel if their runs from like drafts are alike, as soon as the terms are
related that `R` relates. -/
def Parallel (R : TermIndex → TermIndex → Prop)
    (V : (TermIndex → TermIndex → Prop) → α → β → Prop) (p : Drafting α) (q : Drafting β) : Prop :=
  ∀ R', R ≤ R' → ∀ a b, Draft.Alike R' a b → RunsAlike R' V (p.runOn a) (q.runOn b)

/-- Runs that are alike still are if less is asked of their results. -/
theorem RunsAlike.imp {run : Except Error α × Draft} {run' : Except Error β × Draft}
    (h : RunsAlike R V run run') (hV : ∀ R', R ≤ R' → ∀ x y, V R' x y → V' R' x y) :
    RunsAlike R V' run run' := by
  cases h with
  | fullLeft hfull => exact .fullLeft hfull
  | fullRight hfull => exact .fullRight hfull
  | ok R' hR halike hxy => exact .ok R' hR halike (hV R' hR _ _ hxy)
  | error R' hR halike => exact .error R' hR halike

/-- Runs that go on from a wider relation go on from a narrower one. -/
theorem RunsAlike.of_le {run : Except Error α × Draft} {run' : Except Error β × Draft}
    (h : RunsAlike R' V run run') (hR : R ≤ R') : RunsAlike R V run run' := by
  cases h with
  | fullLeft hfull => exact .fullLeft hfull
  | fullRight hfull => exact .fullRight hfull
  | ok R'' hR' halike hxy => exact .ok R'' (le_trans hR hR') halike hxy
  | error R'' hR' halike => exact .error R'' (le_trans hR hR') halike

/-- Parallel steps still are if less is asked of their results. -/
theorem Parallel.imp (h : Parallel R V p q) (hV : ∀ R', R ≤ R' → ∀ x y, V R' x y → V' R' x y) :
    Parallel R V' p q :=
  fun R' hR a b halike => (h R' hR a b halike).imp fun R'' hR' => hV R'' (le_trans hR hR')

/-- Parallel steps still are once more terms are related. -/
theorem Parallel.mono (h : Parallel R V p q) (hR : R ≤ R') : Parallel R' V p q :=
  fun R'' hR' => h R'' (le_trans hR hR')

/-- Results of which the relation holds are given in parallel. -/
theorem parallel_pure {x : α} {y : β} (h : ∀ R', R ≤ R' → V R' x y) :
    Parallel R V (pure x) (pure y) :=
  fun R' hR _ _ halike => .ok R' (le_refl R') halike (h R' hR)

/-- Failures are parallel, whatever their errors are. -/
theorem parallel_throw (e f : Error) : Parallel R V (throw e) (throw f) :=
  fun R' _ _ _ halike => .error R' (le_refl R') halike

/-! ## Composition -/

section Bind

variable {f : α → Drafting γ} {g : β → Drafting δ}

/-- A draft that is full before the second step is full behind it. -/
theorem isFull_bind (hfull : (p.runOn a).2.IsFull) (hf : ∀ x, (f x).Follows SizeLe) :
    ((p >>= f).runOn a).2.IsFull := by
  rw [runOn_bind]
  rcases hrun : p.runOn a with ⟨e | x, middle⟩
  · rw [hrun] at hfull
    exact hfull
  · rw [hrun] at hfull
    exact hfull.mono (hf x middle)

/-- Runs are alike if they begin alike, and go on alike from like drafts. -/
theorem RunsAlike.bind (h : RunsAlike R V (p.runOn a) (q.runOn b))
    (hf : ∀ x, (f x).Follows SizeLe) (hg : ∀ y, (g y).Follows SizeLe)
    (hnext : ∀ R', R ≤ R' → ∀ x y a' b', p.runOn a = (.ok x, a') → q.runOn b = (.ok y, b') →
      Draft.Alike R' a' b' → V R' x y → RunsAlike R' W ((f x).runOn a') ((g y).runOn b')) :
    RunsAlike R W ((p >>= f).runOn a) ((q >>= g).runOn b) := by
  generalize hrun : p.runOn a = run, hrun' : q.runOn b = run' at h
  cases h with
  | fullLeft hfull => exact .fullLeft (isFull_bind (hrun ▸ hfull) hf)
  | fullRight hfull => exact .fullRight (isFull_bind (hrun' ▸ hfull) hg)
  | ok R' hR halike hxy =>
    rw [runOn_bind, runOn_bind, hrun, hrun']
    exact (hnext R' hR _ _ _ _ hrun hrun' halike hxy).of_le hR
  | error R' hR halike =>
    rw [runOn_bind, runOn_bind, hrun, hrun']
    exact .error R' hR halike

/-- Parallel steps may follow each other. -/
theorem Parallel.bind (h : Parallel R V p q) (hf : ∀ x, (f x).Follows SizeLe)
    (hg : ∀ y, (g y).Follows SizeLe)
    (hnext : ∀ R', R ≤ R' → ∀ x y, V R' x y → Parallel R' W (f x) (g y)) :
    Parallel R W (p >>= f) (q >>= g) := by
  intro R' hR a b halike
  refine (h R' hR a b halike).bind hf hg fun R'' hR' x y a' b' _ _ halike' hxy => ?_
  exact hnext R'' (le_trans hR hR') x y hxy R'' (le_refl R'') a' b' halike'

end Bind

/-- Results may be turned into others that correspond. -/
theorem Parallel.map {f : α → γ} {g : β → δ} (h : Parallel R V p q)
    (hfg : ∀ R', R ≤ R' → ∀ x y, V R' x y → W R' (f x) (g y)) :
    Parallel R W (f <$> p) (g <$> q) := by
  intro R' hR a b halike
  have hruns := h R' hR a b halike
  rw [runOn_map, runOn_map]
  generalize p.runOn a = run, q.runOn b = run' at hruns
  cases hruns with
  | fullLeft hfull => exact .fullLeft hfull
  | fullRight hfull => exact .fullRight hfull
  | ok R'' hR' halike hxy => exact .ok R'' hR' halike (hfg R'' (le_trans hR hR') _ _ hxy)
  | error R'' hR' halike => exact .error R'' hR' halike

section Recovery

variable {f : Error → Drafting α} {g : Error → Drafting β}

/-- A draft that is full when a failure is caught stays full. -/
theorem isFull_tryCatch (hfull : (p.runOn a).2.IsFull) (hf : ∀ e, (f e).Follows SizeLe) :
    ((tryCatch p f : Drafting α).runOn a).2.IsFull := by
  rw [runOn_tryCatch]
  rcases hrun : p.runOn a with ⟨e | x, middle⟩
  · rw [hrun] at hfull
    exact hfull.mono (hf e middle)
  · rw [hrun] at hfull
    exact hfull

/-- What catches failures goes on from the drafts that they leave. -/
theorem Parallel.recover (h : Parallel R V p q) (hf : ∀ e, (f e).Follows SizeLe)
    (hg : ∀ e, (g e).Follows SizeLe) (hnext : ∀ e e', Parallel R V (f e) (g e')) :
    Parallel R V (tryCatch p f) (tryCatch q g) := by
  intro R' hR a b halike
  have hruns := h R' hR a b halike
  generalize hrun : p.runOn a = run, hrun' : q.runOn b = run' at hruns
  cases hruns with
  | fullLeft hfull => exact .fullLeft (isFull_tryCatch (hrun ▸ hfull) hf)
  | fullRight hfull => exact .fullRight (isFull_tryCatch (hrun' ▸ hfull) hg)
  | ok R'' hR' halike hxy =>
    rw [runOn_tryCatch, runOn_tryCatch, hrun, hrun']
    exact .ok R'' hR' halike hxy
  | error R'' hR' halike =>
    rw [runOn_tryCatch, runOn_tryCatch, hrun, hrun']
    exact (hnext _ _ R'' (le_trans hR hR') _ _ halike).of_le hR'

end Recovery

end Drafting

end TypedGrammar
