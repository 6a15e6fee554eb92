import TypedGrammar.Proofs.Draft.Definitions
import TypedGrammar.Proofs.Draft.Growth

/-!
# Runs of drafting

A grammar is described by calls in any order.  The definition of a node type is a call during which
others are made: its term is registered first, then its rule is evaluated and stored, then more may
follow, and it may fail at any time.  So a session consists of a draft and of the definitions that
are under way, and a run is made of single steps.

Whatever the run, terms and tables only grow: a term keeps its number, its name and its maker, its
kind changes at most once, when a rule without a shape gets one, and its flags change only when they
are set.  What was asked for once has the same term ever after.
-/

namespace TypedGrammar

/-! ## Sessions -/

/-- What a run leaves on record. -/
inductive Event
  /-- A request was answered by a shape. -/
  | answered (request : Request) (shape : Shape)
  /-- Flags of a term were set or cleared. -/
  | flagged (index : TermIndex) (flags : Flags) (on : Bool)

namespace Event

/-- The flags of the term with a number, after an event. -/
def applyTo (n : ℕ) (old : Flags) : Event → Flags
  | answered _ _ => old
  | flagged index flags on => if index.value = n then old.assign flags on else old

/-- The flags of the term with a number, after the events of a run. -/
def applyAll (n : ℕ) (old : Flags) (events : List Event) : Flags :=
  events.foldl (applyTo n) old

@[simp] theorem applyAll_nil (n : ℕ) (old : Flags) : applyAll n old [] = old :=
  rfl

/-- Flags are set by the events of one record after those of the other. -/
theorem applyAll_append (n : ℕ) (old : Flags) (first second : List Event) :
    applyAll n old (first ++ second) = applyAll n (applyAll n old first) second :=
  List.foldl_append

end Event

/-- The record of a call: its answer, if it asked for something and did not fail. -/
def Call.events (call : Call) (result : Except Error Shape) : List Event :=
  match call.request?, result with
  | some request, .ok shape => [.answered request shape]
  | _, _ => []

/-- A definition of a node type that is under way. -/
structure Frame where
  typeName : String
  index : TermIndex
  /-- The shape of the rule is stored. -/
  stored : Bool

/-- A draft, and the definitions under way, the latest first. -/
structure Session where
  draft : Draft
  frames : List Frame

/-- A node type is a rule. -/
theorem NodeDeclaration.pending_hasMaker (type : NodeDeclaration) : type.pending.HasMaker :=
  nofun

namespace Session

/-- The session in which nothing has been called. -/
def start : Session :=
  ⟨.empty, []⟩

open Drafting in
/-- One step of a run, with its record.  Calls may be made at any time, and may fail. -/
inductive Step : Session → List Event → Session → Prop
  | call {draft after : Draft} {frames : List Frame} {result : Except Error Shape} (call : Call)
      (h : call.run.runOn draft = (result, after)) :
      Step ⟨draft, frames⟩ (call.events result) ⟨after, frames⟩
  | setFlags {draft after : Draft} {frames : List Frame} {index : TermIndex} {flags : Flags}
      {on : Bool} (h : (setFlags index flags on).runOn draft = (.ok (), after)) :
      Step ⟨draft, frames⟩ [.flagged index flags on] ⟨after, frames⟩
  | flagsRefused {draft after : Draft} {frames : List Frame} {index : TermIndex} {flags : Flags}
      {on : Bool} {e : Error} (h : (setFlags index flags on).runOn draft = (.error e, after)) :
      Step ⟨draft, frames⟩ [] ⟨after, frames⟩
  /-- A node type that is registered already. -/
  | found {draft : Draft} {frames : List Frame} {type : NodeDeclaration} {index : TermIndex}
      (h : draft.declared.lookup type.typeName = some index) :
      Step ⟨draft, frames⟩ [.answered (.declared type.typeName) (.term index)] ⟨draft, frames⟩
  /-- A node type that cannot be registered. -/
  | refused {draft after : Draft} {frames : List Frame} {type : NodeDeclaration} {e : Error}
      (hnew : draft.declared.lookup type.typeName = none)
      (h : (declare type.typeName type.pending).runOn draft = (.error e, after)) :
      Step ⟨draft, frames⟩ [] ⟨after, frames⟩
  /-- A node type is registered, and its rule is evaluated next. -/
  | enter {draft after : Draft} {frames : List Frame} {type : NodeDeclaration} {index : TermIndex}
      (hnew : draft.declared.lookup type.typeName = none)
      (h : (declare type.typeName type.pending).runOn draft = (.ok index, after)) :
      Step ⟨draft, frames⟩ [] ⟨after, ⟨type.typeName, index, false⟩ :: frames⟩
  /-- The rule of the latest definition has been evaluated. -/
  | store {draft : Draft} {frames : List Frame} {typeName : String} {index : TermIndex}
      (shape : Shape) :
      Step ⟨draft, ⟨typeName, index, false⟩ :: frames⟩ []
        ⟨draft.modifyTerm index (·.withShape shape), ⟨typeName, index, true⟩ :: frames⟩
  /-- The latest definition is complete. -/
  | finish {draft : Draft} {frames : List Frame} {typeName : String} {index : TermIndex} :
      Step ⟨draft, ⟨typeName, index, true⟩ :: frames⟩
        [.answered (.declared typeName) (.term index)] ⟨draft, frames⟩
  /-- The latest definition fails. -/
  | abandon {draft : Draft} {frames : List Frame} {frame : Frame} :
      Step ⟨draft, frame :: frames⟩ [] ⟨draft, frames⟩

/-- **Runs.**  Any number of steps, with their record. -/
inductive Run : Session → List Event → Session → Prop
  | refl (session : Session) : Run session [] session
  | step {first second third : Session} {before events : List Event}
      (run : Run first before second) (step : Step second events third) :
      Run first (before ++ events) third

/-- One step is a run. -/
theorem Step.run {first second : Session} {events : List Event} (h : Step first events second) :
    Run first events second :=
  .step (.refl first) h

/-- Runs may follow each other, and so do their records. -/
theorem Run.trans {first second third : Session} {before events : List Event}
    (h : Run first before second) (h' : Run second events third) :
    Run first (before ++ events) third := by
  induction h' with
  | refl => rwa [List.append_nil]
  | step _ hstep ih =>
    rw [← List.append_assoc]
    exact .step ih hstep

end Session

/-! ## What is kept -/

/-- An entry after some time.  It may have got the shape that it was waiting for, and its flags may
have been set. -/
structure Entry.Matures (flags : Flags) (old new : Entry) : Prop where
  name : new.name = old.name
  precedence : new.precedence = old.precedence
  maker : new.maker = old.maker
  kind : new.kind = old.kind ∨ old.kind = .rule none ∧ ∃ shape, new.kind = .rule (some shape)
  flags : new.flags = flags

/-- An entry matures to itself, if its flags are not set. -/
theorem Entry.matures_self (entry : Entry) : entry.Matures entry.flags entry :=
  ⟨rfl, rfl, rfl, Or.inl rfl, rfl⟩

/-- An entry that goes on to mature has matured from the first one. -/
theorem Entry.Matures.trans {old new later : Entry} {flags flags' : Flags}
    (h : old.Matures flags new) (h' : new.Matures flags' later) : old.Matures flags' later where
  name := h'.name.trans h.name
  precedence := h'.precedence.trans h.precedence
  maker := h'.maker.trans h.maker
  kind := by
    rcases h'.kind with hsame | ⟨hpending, shape, hshape⟩
    · rw [hsame]
      exact h.kind
    · -- A rule that still waits for its shape was never given one.
      rcases h.kind with hsame | ⟨_, shape', hshape'⟩
      · exact Or.inr ⟨hsame ▸ hpending, shape, hshape⟩
      · rw [hshape'] at hpending
        cases hpending
  flags := h'.flags

namespace Draft

variable {old new later draft : Draft} {events before : List Event} {index : TermIndex}

/-- **What a run keeps.**  Entries mature, with the flags that were set; tables and claims grow; and
what was answered is known. -/
structure Keeps (events : List Event) (old new : Draft) : Prop where
  entries : ∀ (n : ℕ) (entry : Entry), old.entries[n]? = some entry →
    ∃ entry', new.entries[n]? = some entry' ∧
      entry.Matures (Event.applyAll n entry.flags events) entry'
  known : ∀ request index, old.known? request = some index → new.known? request = some index
  claims : ∀ name owner, old.claims.lookup name = some owner → new.claims.lookup name = some owner
  answered : ∀ request shape, .answered request shape ∈ events →
    ∃ index, shape = .term index ∧ new.known? request = some index

/-- A draft keeps everything of itself. -/
theorem Keeps.refl (draft : Draft) : Keeps [] draft draft where
  entries _ entry hentry := ⟨entry, hentry, entry.matures_self⟩
  known _ _ h := h
  claims _ _ h := h
  answered _ _ h := absurd h List.not_mem_nil

/-- What two runs keep, one after the other, is kept by both together. -/
theorem Keeps.trans (h : Keeps before old new) (h' : Keeps events new later) :
    Keeps (before ++ events) old later where
  entries n entry hentry := by
    obtain ⟨entry', hentry', hmatures⟩ := h.entries n entry hentry
    obtain ⟨entry'', hentry'', hmatures'⟩ := h'.entries n entry' hentry'
    refine ⟨entry'', hentry'', ?_⟩
    rw [Event.applyAll_append, ← hmatures.flags]
    exact hmatures.trans hmatures'
  known _ _ hknown := h'.known _ _ (h.known _ _ hknown)
  claims _ _ hclaim := h'.claims _ _ (h.claims _ _ hclaim)
  answered request shape hmem := by
    rcases List.mem_append.mp hmem with hmem | hmem
    · obtain ⟨index, hshape, hknown⟩ := h.answered request shape hmem
      exact ⟨index, hshape, h'.known _ _ hknown⟩
    · exact h'.answered request shape hmem

/-- A run never takes away entries. -/
theorem Keeps.size_le (h : Keeps events old new) : old.entries.size ≤ new.entries.size := by
  refine size_le_of_entries fun n entry hentry => ?_
  obtain ⟨entry', hentry', _⟩ := h.entries n entry hentry
  exact ⟨entry', hentry'⟩

/-- To grow is to keep everything, if no flags are set meanwhile. -/
theorem Grows.keeps (h : old.Grows new) (hflags : ∀ n flags, Event.applyAll n flags events = flags)
    (hanswered : ∀ request shape, .answered request shape ∈ events →
      ∃ index, shape = .term index ∧ new.known? request = some index) : Keeps events old new where
  entries n entry hentry := by
    rw [hflags]
    exact ⟨entry, h.entries n entry hentry, entry.matures_self⟩
  known := h.known
  claims := h.claims
  answered := hanswered

/-- One entry is changed, and nothing is answered. -/
theorem keeps_modifyTerm {change : Term → Term}
    (hchange : ∀ entry, draft.entries[index.value]? = some entry →
      entry.Matures (Event.applyAll index.value entry.flags events)
        { entry with toTerm := change entry.toTerm })
    (hothers : ∀ n flags, index.value ≠ n → Event.applyAll n flags events = flags)
    (hevents : ∀ request shape, .answered request shape ∉ events) :
    Keeps events draft (draft.modifyTerm index change) where
  entries n entry hentry := by
    rw [Draft.modifyTerm, Array.getElem?_modify]
    by_cases hn : index.value = n
    · subst hn
      rw [if_pos rfl, hentry]
      exact ⟨_, rfl, hchange entry hentry⟩
    · rw [if_neg hn, hothers n entry.flags hn]
      exact ⟨entry, hentry, entry.matures_self⟩
  known _ _ h := h
  claims _ _ h := h
  answered request shape h := absurd h (hevents request shape)

end Draft

namespace Session

variable {session before after : Session} {events : List Event} {draft new : Draft}
  {frames : List Frame} {frame : Frame}

/-- **Consistency of sessions.**  The draft is consistent, and the definitions under way have terms
of their own, which wait for their shapes unless these are stored. -/
structure IsConsistent (session : Session) : Prop where
  draft : session.draft.IsConsistent
  distinct : (session.frames.map Frame.index).Nodup
  known : ∀ frame ∈ session.frames,
    session.draft.known? (.declared frame.typeName) = some frame.index
  pending : ∀ frame ∈ session.frames, frame.stored = false →
    ∃ entry, session.draft.entries[frame.index.value]? = some entry ∧ entry.kind = .rule none

/-- The session in which nothing has been called is consistent. -/
theorem isConsistent_start : start.IsConsistent where
  draft := Draft.isConsistent_empty
  distinct := List.nodup_nil
  known _ h := absurd h List.not_mem_nil
  pending _ h := absurd h List.not_mem_nil

/-- What the draft gets in addition is of no account to the definitions under way. -/
theorem IsConsistent.grow (h : IsConsistent ⟨draft, frames⟩) (hgrows : draft.Grows new) :
    IsConsistent ⟨new, frames⟩ where
  draft := hgrows.consistent h.draft
  distinct := h.distinct
  known frame hframe := hgrows.known _ _ (h.known frame hframe)
  pending frame hframe hstored := by
    obtain ⟨entry, hentry, hkind⟩ := h.pending frame hframe hstored
    exact ⟨entry, hgrows.entries _ _ hentry, hkind⟩

/-- The latest definition ends, complete or not. -/
theorem IsConsistent.leave (h : IsConsistent ⟨draft, frame :: frames⟩) :
    IsConsistent ⟨draft, frames⟩ where
  draft := h.draft
  distinct := (List.nodup_cons.mp h.distinct).2
  known frame hframe := h.known frame (List.mem_cons_of_mem _ hframe)
  pending frame hframe := h.pending frame (List.mem_cons_of_mem _ hframe)

/-- A definition begins with a term that no other one has. -/
theorem IsConsistent.enter (h : IsConsistent ⟨draft, frames⟩) (hgrows : draft.Grows new)
    (hknown : new.known? (.declared frame.typeName) = some frame.index)
    (hindex : frame.index.value = draft.entries.size)
    (hpending : ∃ entry, new.entries[frame.index.value]? = some entry ∧ entry.kind = .rule none) :
    IsConsistent ⟨new, frame :: frames⟩ where
  draft := hgrows.consistent h.draft
  distinct := by
    refine List.nodup_cons.mpr ⟨fun hmem => ?_, h.distinct⟩
    obtain ⟨other, hother, heq⟩ := List.mem_map.mp hmem
    have hlt := h.draft.value_lt (h.known other hother)
    rw [heq, hindex] at hlt
    exact Nat.lt_irrefl _ hlt
  known := List.forall_mem_cons.mpr ⟨hknown, (h.grow hgrows).known⟩
  pending := List.forall_mem_cons.mpr ⟨fun _ => hpending, (h.grow hgrows).pending⟩

/-- A shape that is stored for the latest definition leaves the others waiting. -/
theorem IsConsistent.store {typeName : String} {index : TermIndex} (shape : Shape)
    (h : IsConsistent ⟨draft, ⟨typeName, index, false⟩ :: frames⟩) :
    IsConsistent ⟨draft.modifyTerm index (·.withShape shape), ⟨typeName, index, true⟩ :: frames⟩ where
  draft := by
    obtain ⟨entry, hentry, hkind⟩ := h.pending _ List.mem_cons_self rfl
    exact h.draft.withShape hentry hkind
  distinct := h.distinct
  known := List.forall_mem_cons.mpr
    ⟨h.known ⟨typeName, index, false⟩ List.mem_cons_self, h.leave.known⟩
  pending := by
    refine List.forall_mem_cons.mpr ⟨nofun, fun other hother hstored => ?_⟩
    obtain ⟨entry, hentry, hkind⟩ := h.leave.pending other hother hstored
    have hne : index.value ≠ other.index.value := by
      intro heq
      refine (List.nodup_cons.mp h.distinct).1 (List.mem_map.mpr ⟨other, hother, ?_⟩)
      exact (Drafting.eq_of_value heq).symm
    exact ⟨entry, (Draft.getElem?_withShape_of_ne hne).trans hentry, hkind⟩

/-- Flags that are set leave all shapes as they are. -/
theorem IsConsistent.withFlags (h : IsConsistent ⟨draft, frames⟩) (index : TermIndex)
    (change : Flags → Flags) :
    IsConsistent ⟨draft.modifyTerm index fun term => { term with flags := change term.flags },
      frames⟩ where
  draft := h.draft.withFlags change
  distinct := h.distinct
  known := h.known
  pending frame hframe hstored := by
    obtain ⟨entry, hentry, hkind⟩ := h.pending frame hframe hstored
    rw [Draft.modifyTerm, Array.getElem?_modify]
    split
    · rw [hentry]
      exact ⟨_, rfl, hkind⟩
    · exact ⟨entry, hentry, hkind⟩

/-- The record of a call says what is known after it. -/
theorem keeps_call {call : Call} {result : Except Error Shape}
    (h : call.run.runOn draft = (result, new)) : Draft.Keeps (call.events result) draft new := by
  have hgrows := call.follows_grows draft
  rw [h] at hgrows
  unfold Call.events
  split
  · next request shape hrequest =>
    have hanswered := (call.answers hrequest draft).2
    rw [h] at hanswered
    refine hgrows.keeps (fun _ _ => rfl) fun other answer hmem => ?_
    obtain ⟨rfl, rfl⟩ := Event.answered.inj (List.mem_singleton.mp hmem)
    exact hanswered answer rfl
  · exact hgrows.keeps (fun _ _ => rfl) fun _ _ hmem => absurd hmem List.not_mem_nil

/-- **Steps.**  Every step leaves a session consistent, and keeps what was there. -/
theorem Step.keeps (h : Step before events after) (hbefore : before.IsConsistent) :
    after.IsConsistent ∧ Draft.Keeps events before.draft after.draft := by
  -- What a step leaves on record is what it keeps, besides what was there.
  cases h with
  | @call draft _ _ _ call h =>
    have hgrows := call.follows_grows draft
    rw [h] at hgrows
    exact ⟨hbefore.grow hgrows, keeps_call h⟩
  | @setFlags draft _ _ index flags on h =>
    rw [Drafting.runOn_setFlags] at h
    split at h
    · cases h
    · obtain ⟨_, rfl⟩ := Drafting.ok_inj h
      refine ⟨hbefore.withFlags index (·.assign flags on), ?_⟩
      dsimp only
      refine Draft.keeps_modifyTerm ?_ ?_ ?_
      · -- Only the entry of this term changes, and it gets the flags on record.
        intro entry _
        exact ⟨rfl, rfl, rfl, Or.inl rfl, (if_pos rfl).symm⟩
      · intro n old hn
        exact if_neg hn
      · simp
  | flagsRefused h =>
    rw [Drafting.runOn_setFlags] at h
    split at h
    · obtain ⟨_, rfl⟩ := Prod.mk.inj h
      exact ⟨hbefore, .refl _⟩
    · cases h
  | @found draft _ type index h =>
    refine ⟨hbefore, (Draft.Grows.refl draft).keeps (fun _ _ => rfl) fun request shape hmem => ?_⟩
    obtain ⟨rfl, rfl⟩ := Event.answered.inj (List.mem_singleton.mp hmem)
    exact ⟨index, rfl, h⟩
  | @refused draft _ _ type _ hnew h =>
    have hgrows := (Drafting.grows_declare hnew type.pending_hasMaker).1
    rw [h] at hgrows
    exact ⟨hbefore.grow hgrows, hgrows.keeps (fun _ _ => rfl) fun _ _ hmem =>
      absurd hmem List.not_mem_nil⟩
  | @enter draft after _ type index hnew h =>
    obtain ⟨hgrows, hok⟩ := Drafting.grows_declare hnew type.pending_hasMaker
    obtain ⟨hknown, hentry, hindex⟩ := hok index after h
    rw [h] at hgrows
    exact ⟨hbefore.enter hgrows hknown hindex ⟨_, hentry, rfl⟩, hgrows.keeps (fun _ _ => rfl)
      fun _ _ hmem => absurd hmem List.not_mem_nil⟩
  | @store draft _ typeName index shape =>
    -- The entry of the latest definition still waits, so that it may get its shape.
    obtain ⟨entry, hentry, hpending⟩ := hbefore.pending _ List.mem_cons_self rfl
    refine ⟨hbefore.store shape, ?_⟩
    dsimp only
    refine Draft.keeps_modifyTerm ?_ (fun _ _ _ => rfl) fun _ _ => List.not_mem_nil
    intro found hfound
    obtain rfl := Option.some.inj (hentry.symm.trans hfound)
    exact ⟨rfl, rfl, rfl, Or.inr ⟨hpending, shape, rfl⟩, rfl⟩
  | @finish draft _ typeName index =>
    refine ⟨hbefore.leave, (Draft.Grows.refl draft).keeps (fun _ _ => rfl)
      fun request shape hmem => ?_⟩
    obtain ⟨rfl, rfl⟩ := Event.answered.inj (List.mem_singleton.mp hmem)
    exact ⟨index, rfl, hbefore.known _ List.mem_cons_self⟩
  | abandon => exact ⟨hbefore.leave, .refl _⟩

/-- **Runs.**  A run leaves a session consistent, and keeps what was there. -/
theorem Run.keeps (h : Run before events after) (hbefore : before.IsConsistent) :
    after.IsConsistent ∧ Draft.Keeps events before.draft after.draft := by
  induction h with
  | refl => exact ⟨hbefore, .refl _⟩
  | step _ hstep ih =>
    obtain ⟨hmiddle, hkeeps⟩ := ih
    obtain ⟨hafter, hkeeps'⟩ := hstep.keeps hmiddle
    exact ⟨hafter, hkeeps.trans hkeeps'⟩

/-- **Identity of terms.**  From any point of a run to any later one, terms keep their numbers,
names and makers, rules get their shapes once, and flags are those that were set; all tables lead to
terms, and to the same ones as before; different declarations have different terms with different
names; and all answers to one request are one and the same term. -/
theorem Run.identity {later : Session} {further : List Event} (h : Run start events session)
    (h' : Run session further later) :
    Draft.Keeps further session.draft later.draft ∧
      session.draft.entries.size ≤ later.draft.entries.size ∧
      (∀ request index, later.draft.known? request = some index →
        index.value < later.draft.entries.size) ∧
      (∀ a b i j, a ≠ b → later.draft.known? (.declared a) = some i →
        later.draft.known? (.declared b) = some j → i ≠ j ∧
          ∀ entry entry', later.draft.entry? i = some entry →
            later.draft.entry? j = some entry' → entry.name ≠ entry'.name) ∧
      ∀ request shape shape', .answered request shape ∈ events ++ further →
        .answered request shape' ∈ events ++ further →
          ∃ index, shape = .term index ∧ shape' = .term index := by
  obtain ⟨hsession, _⟩ := h.keeps isConsistent_start
  obtain ⟨hlater, hkeeps⟩ := h'.keeps hsession
  obtain ⟨_, hall⟩ := (h.trans h').keeps isConsistent_start
  refine ⟨hkeeps, hkeeps.size_le, fun request index => hlater.draft.value_lt, ?_, ?_⟩
  · intro a b i j hne ha hb
    refine ⟨?_, fun entry entry' hentry hentry' hname => ?_⟩
    · rintro rfl
      obtain ⟨entry, hentry, _⟩ := hlater.draft.known _ _ ha
      exact hne (hlater.draft.typeName_eq ha hb hentry hentry rfl)
    · exact hne (hlater.draft.typeName_eq ha hb hentry hentry' hname)
  · intro request shape shape' hmem hmem'
    obtain ⟨index, hshape, hknown⟩ := hall.answered request shape hmem
    obtain ⟨index', hshape', hknown'⟩ := hall.answered request shape' hmem'
    obtain rfl := Option.some.inj (hknown.symm.trans hknown')
    exact ⟨index, hshape, hshape'⟩

/-! ### A definition that fails

The rule of a node type asks for a key term and fails.  The term of the node type remains, and the
key term is found again, with the flags that were set meanwhile. -/

/-- A symbol. -/
def plus : KeyRequest where
  name := "+"
  text := "+"
  value := .text "+"
  flags := .none
  precedence := none

/-- A node type whose definition fails. -/
def failing : NodeDeclaration where
  typeName := "Sum"
  name := "Sum"
  number := 0
  valueType := .unit
  rule := .followedBy (.key plus) (.fail "Sum" "no item")
  afterthoughts := []
  build _ := .ok .null

/-- The node type is the first term. -/
def failingIndex : TermIndex :=
  .ofNat 0

/-- The symbol is the second one. -/
def plusIndex : TermIndex :=
  .ofNat 1

/-- The draft in which the node type is registered. -/
def entered : Draft :=
  { Draft.empty.pushEntry failing.pending with
    claims := [("Sum", "Sum")], declared := [("Sum", failingIndex)] }

/-- The draft in which the symbol is registered, too. -/
def withPlus : Draft :=
  { entered.pushEntry plus.entry with
    keyTerms := KeyTermTable.empty.push { plus with term := plusIndex } }

/-- The draft in which the symbol has become punctuation. -/
def flagged : Draft :=
  withPlus.modifyTerm plusIndex fun term =>
    { term with flags := term.flags.assign (.ofList [.punctuation]) true }

/-- The node type is registered before its rule is evaluated. -/
theorem runOn_declare_failing : (Drafting.declare failing.typeName failing.pending).runOn .empty =
    (.ok failingIndex, entered) :=
  rfl

/-- The symbol is registered by its first request. -/
theorem runOn_plus : (Call.key plus).run.runOn entered = (.ok (.term plusIndex), withPlus) := by
  show (Shape.term <$> Drafting.key plus).runOn entered = _
  have hlookup : entered.keyTerms.lookup plus = .ok none := by
    show KeyTermTable.empty.lookup plus = _
    rw [KeyTermTable.lookup, KeyTermTable.get?_empty]
  rw [Drafting.runOn_map, Drafting.runOn_key, hlookup]
  rfl

/-- The symbol is found by a later request, although its flags have been set. -/
theorem runOn_plus_again : (Call.key plus).run.runOn flagged = (.ok (.term plusIndex), flagged) := by
  show (Shape.term <$> Drafting.key plus).runOn flagged = _
  have hlookup : flagged.keyTerms.lookup plus = .ok (some plusIndex) := by
    show (KeyTermTable.empty.push { plus with term := plusIndex }).lookup plus = _
    rw [KeyTermTable.lookup, KeyTermTable.get?_push, KeyTermTable.get?_empty]
    rfl
  rw [Drafting.runOn_map, Drafting.runOn_key, hlookup]
  rfl

/-- The definition is under way. -/
theorem run_entered : Run start [.answered (.key "+") (.term plusIndex)]
    ⟨withPlus, [⟨"Sum", failingIndex, false⟩]⟩ :=
  (Step.enter rfl runOn_declare_failing).run.step (.call (.key plus) runOn_plus)

/-- The definition fails, and its node type and the symbol are asked for again. -/
theorem run_abandoned : Run ⟨withPlus, [⟨"Sum", failingIndex, false⟩]⟩
    [.flagged plusIndex (.ofList [.punctuation]) true,
      .answered (.key "+") (.term plusIndex),
      .answered (.declared "Sum") (.term failingIndex)] ⟨flagged, []⟩ := by
  have hfound : flagged.declared.lookup failing.typeName = some failingIndex := rfl
  have hflags : (Drafting.setFlags plusIndex (.ofList [.punctuation]) true).runOn withPlus =
      (.ok (), flagged) := rfl
  have habandoned : Run ⟨withPlus, [⟨"Sum", failingIndex, false⟩]⟩ [] ⟨withPlus, []⟩ :=
    Step.abandon.run
  have hflagged := habandoned.step (.setFlags hflags)
  exact (hflagged.step (.call (.key plus) runOn_plus_again)).step (.found hfound)

/-- A definition that failed keeps the number of its node type, and that of the symbol in
its rule. -/
theorem identity_failing :
    Draft.Keeps [.flagged plusIndex (.ofList [.punctuation]) true,
        .answered (.key "+") (.term plusIndex),
        .answered (.declared "Sum") (.term failingIndex)] withPlus flagged ∧
      withPlus.entries.size ≤ flagged.entries.size ∧
      flagged.known? (.declared "Sum") = some failingIndex ∧
      failingIndex.value < flagged.entries.size ∧
      flagged.known? (.key "+") = some plusIndex := by
  obtain ⟨hkeeps, hsize, hbounded, _, _⟩ := run_entered.identity run_abandoned
  obtain ⟨index, hindex, hplus⟩ := hkeeps.answered (.key "+") (.term plusIndex) (by simp)
  obtain rfl := Shape.term.inj hindex
  have hfailing : flagged.known? (.declared "Sum") = some failingIndex := rfl
  exact ⟨hkeeps, hsize, hfailing, hbounded _ _ hfailing, hplus⟩

end Session

/-! ## Evaluation as a run -/

/-- From one draft to another by a run, whatever definitions are under way. -/
def Draft.RunsTo (old new : Draft) : Prop :=
  ∀ frames, ∃ events, Session.Run ⟨old, frames⟩ events ⟨new, frames⟩

instance : Std.Refl Draft.RunsTo :=
  ⟨fun _ _ => ⟨[], .refl _⟩⟩

instance : IsTrans Draft Draft.RunsTo := by
  refine ⟨fun old new later h h' frames => ?_⟩
  obtain ⟨events, hrun⟩ := h frames
  obtain ⟨further, hrun'⟩ := h' frames
  exact ⟨events ++ further, hrun.trans hrun'⟩

/-- A call is a run of one step. -/
theorem Call.follows_runsTo (call : Call) : call.run.Follows Draft.RunsTo := by
  intro draft frames
  rcases hrun : call.run.runOn draft with ⟨result, after⟩
  exact ⟨_, (Session.Step.call call hrun).run⟩

namespace Drafting

variable {define : ℕ → Drafting TermIndex}

/-- Setting flags is a run of one step. -/
theorem setFlags_runsTo (index : TermIndex) (flags : Flags) (on : Bool) :
    (setFlags index flags on).Follows Draft.RunsTo := by
  intro draft frames
  rcases hrun : (setFlags index flags on).runOn draft with ⟨e | _, after⟩
  · exact ⟨_, (Session.Step.flagsRefused hrun).run⟩
  · exact ⟨_, (Session.Step.setFlags hrun).run⟩

/-- Evaluating a rule is a run, if defining node types is. -/
theorem eval_runsTo (hdefine : ∀ number, (define number).Follows Draft.RunsTo) (rule : Rule) :
    (rule.eval define).Follows Draft.RunsTo :=
  Rule.follows_eval (P := fun _ => True) (fun call _ => call.follows_runsTo) hdefine rule
    fun _ _ => trivial

/-- An afterthought is a run, if defining node types is. -/
theorem afterthought_runsTo (hdefine : ∀ number, (define number).Follows Draft.RunsTo)
    (index : TermIndex) (thought : Afterthought) :
    (thought.run define index).Follows Draft.RunsTo := by
  cases thought with
  | setFlags flags on => exact setFlags_runsTo index flags on
  | evaluate rule => exact follows_map (eval_runsTo hdefine rule)

/-- The definition of a node type goes on with its rule, and ends complete or not. -/
theorem exists_run_fillNode (hdefine : ∀ number, (define number).Follows Draft.RunsTo)
    (type : NodeDeclaration) (index : TermIndex) (draft : Draft) (frames : List Frame) :
    ∃ events, Session.Run ⟨draft, ⟨type.typeName, index, false⟩ :: frames⟩ events
      ⟨((fillNode define type index).runOn draft).2, frames⟩ := by
  obtain ⟨first, hfirst⟩ :=
    eval_runsTo hdefine type.rule draft (⟨type.typeName, index, false⟩ :: frames)
  unfold fillNode
  rw [runOn_bind]
  rcases hrule : (type.rule.eval define).runOn draft with ⟨e | shape, middle⟩
  · rw [hrule] at hfirst
    exact ⟨_, hfirst.step .abandon⟩
  · rw [hrule] at hfirst
    simp only
    rw [runOn_bind, runOn_setShape]
    simp only
    have hstored := hfirst.step (.store shape)
    obtain ⟨second, hsecond⟩ := follows_forM (afterthought_runsTo hdefine index) type.afterthoughts
      (middle.modifyTerm index (·.withShape shape)) (⟨type.typeName, index, true⟩ :: frames)
    rw [runOn_bind]
    rcases hlast : (type.afterthoughts.forM (·.run define index)).runOn
      (middle.modifyTerm index (·.withShape shape)) with ⟨e | _, last⟩
    · rw [hlast] at hsecond
      exact ⟨_, (hstored.trans hsecond).step .abandon⟩
    · rw [hlast] at hsecond
      exact ⟨_, (hstored.trans hsecond).step .finish⟩

/-- **Definitions as runs.**  The definition of a node type, with all that it refers to, is
a run. -/
theorem defineNodeWithin_runsTo (types : Array NodeDeclaration) (depth number : ℕ) :
    (defineNodeWithin types depth number).Follows Draft.RunsTo := by
  induction depth generalizing number with
  | zero => exact follows_throw _
  | succ depth ih =>
    rw [defineNodeWithin]
    split
    · exact follows_throw _
    · next type htype =>
      intro draft frames
      rw [runOn_declaredOr]
      split
      · next index hlookup => exact ⟨_, (Session.Step.found hlookup).run⟩
      · next hnew =>
        show ∃ events, Session.Run _ events ⟨((declare type.typeName type.pending >>=
          fillNode (defineNodeWithin types depth) type).runOn draft).2, frames⟩
        rw [runOn_bind]
        rcases hdeclare : (declare type.typeName type.pending).runOn draft with ⟨e | index, middle⟩
        · exact ⟨_, (Session.Step.refused hnew hdeclare).run⟩
        · obtain ⟨events, hrun⟩ := exists_run_fillNode ih type index middle frames
          exact ⟨_, (Session.Step.enter hnew hdeclare).run.trans hrun⟩

/-- The draft that the definition of a node type leaves is at the end of a run. -/
theorem exists_run_of_defineNode {types : Array NodeDeclaration} {number : ℕ}
    {result : Except Error TermIndex} {draft : Draft}
    (hrun : (defineNode types number).runOn .empty = (result, draft)) :
    ∃ events, Session.Run .start events ⟨draft, []⟩ := by
  obtain ⟨events, hevents⟩ := defineNodeWithin_runsTo types (types.size + 1) number .empty []
  unfold defineNode at hrun
  rw [hrun] at hevents
  exact ⟨events, hevents⟩

end Drafting

end TypedGrammar
