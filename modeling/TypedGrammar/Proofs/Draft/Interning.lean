import TypedGrammar.Proofs.Draft.KeyTerms

/-!
# Interning

A key term is registered once under its name, by the first call that asks for it.  From then on all
requests under that name find this registration, whatever has happened since; those that do not
agree with it are refused.
-/

namespace TypedGrammar

/-! ## Agreement -/

/-- **Equality of typed values.**  Values of one type are equal as the type says; floating-point
numbers as numbers, so the two zeros are equal and what is not a number equals nothing. -/
inductive Value.Equals : Value → Value → Prop
  | int64 (n : Int64) : Equals (.int64 n) (.int64 n)
  | int32 (n : Int32) : Equals (.int32 n) (.int32 n)
  | float64 {x y : Number.Binary64} (hx : x.isNaN = false) (hy : y.isNaN = false)
      (h : x.bits = y.bits ∨ x.magnitudeBits = 0 ∧ y.magnitudeBits = 0) :
      Equals (.float64 x) (.float64 y)
  | bool (b : Bool) : Equals (.bool b) (.bool b)
  | char (c : Char) : Equals (.char c) (.char c)
  | text (s : String) : Equals (.text s) (.text s)
  | unit : Equals .unit .unit
  | data {a b : Data} (h : a.same b = true) : Equals (.data a) (.data b)

theorem Value.equal_iff {a b : Value} : a.equal b = true ↔ a.Equals b := by
  constructor
  · intro h
    cases a <;> cases b <;>
      simp only [Value.equal, Bool.false_eq_true, decide_eq_true_eq] at h
    case int64.int64 => exact h ▸ .int64 _
    case int32.int32 => exact h ▸ .int32 _
    case float64.float64 =>
      simp only [Number.Binary64.equal, Bool.and_eq_true, Bool.not_eq_true', Bool.or_eq_true,
        decide_eq_true_eq] at h
      exact .float64 h.1.1 h.1.2 h.2
    case bool.bool => exact h ▸ .bool _
    case char.char => exact h ▸ .char _
    case text.text => exact h ▸ .text _
    case unit.unit => exact .unit
    case data.data => exact .data h
  · intro h
    cases h with
    | float64 hx hy h => simp [Value.equal, Number.Binary64.equal, hx, hy, h]
    | data h => exact h
    | _ => simp [Value.equal]

/-- A request asks for a key term as it is registered: with its text, flags and precedence, and an
equal value. -/
structure KeyTerm.Fits (key : KeyTerm) (request : KeyRequest) : Prop where
  text : key.text = request.text
  flags : key.flags = request.flags
  precedence : key.precedence = request.precedence
  value : key.value.Equals request.value

theorem KeyTerm.agrees_iff {key : KeyTerm} {request : KeyRequest} :
    key.agrees request = true ↔ key.Fits request := by
  unfold KeyRequest.agrees
  simp only [Bool.and_eq_true, decide_eq_true_eq, Value.equal_iff]
  constructor
  · rintro ⟨⟨⟨htext, hflags⟩, hprecedence⟩, hvalue⟩
    exact ⟨htext, hflags, hprecedence, hvalue⟩
  · rintro ⟨htext, hflags, hprecedence, hvalue⟩
    exact ⟨⟨⟨htext, hflags⟩, hprecedence⟩, hvalue⟩

/-! ## Requests -/

namespace Drafting

variable {request : KeyRequest} {draft : Draft} {key : KeyTerm}

/-- A request under a new name registers a key term, with the next number, if there is one left. -/
theorem runOn_key_of_new (hnew : draft.keyTerms.get? request.name = none) :
    (∀ hlt : draft.entries.size < termLimit, (Drafting.key request).runOn draft =
      (.ok ⟨draft.entries.size, hlt⟩, { draft with
        entries := draft.entries.push request.entry
        keyTerms := draft.keyTerms.push { request with term := ⟨draft.entries.size, hlt⟩ } })) ∧
    (termLimit ≤ draft.entries.size → (Drafting.key request).runOn draft =
      (.error (.rule request.name s!"grammar exceeds {termLimit} terms"), draft)) := by
  have hlookup : draft.keyTerms.lookup request = .ok none := by
    unfold KeyTermTable.lookup
    rw [hnew]
  rw [runOn_key, hlookup]
  simp only
  constructor
  · intro hlt
    rw [TermIndex.ofNat?, dif_pos hlt]
    rfl
  · intro hge
    rw [TermIndex.ofNat?, dif_neg (Nat.not_lt.mpr hge)]

/-- A request under a known name finds the key term if it asks for it as it is registered, and is
refused otherwise; it changes nothing. -/
theorem runOn_key_of_known (hknown : draft.keyTerms.get? request.name = some key) :
    (key.Fits request → (Drafting.key request).runOn draft = (.ok key.term, draft)) ∧
    (¬ key.Fits request → (Drafting.key request).runOn draft =
      (.error (.registrationConflict request.name key.attributes request.attributes), draft)) := by
  rw [runOn_key]
  unfold KeyTermTable.lookup
  rw [hknown]
  simp only
  constructor
  · intro hfits
    rw [if_pos (KeyTerm.agrees_iff.mpr hfits)]
  · intro hfits
    rw [if_neg fun hagrees => hfits (KeyTerm.agrees_iff.mp hagrees),
      KeyTermTable.name_of_get? hknown]

end Drafting

/-! ## First registrations -/

namespace Session

variable {session later before after : Session} {events further : List Event} {key : KeyTerm}

/-- What was registered is found ever after. -/
theorem Run.keepsKeys (h : Run before events after) : before.draft.KeepsKeys after.draft := by
  induction h with
  | refl => exact fun _ _ h => h
  | @step second third _ _ _ hstep ih =>
    refine fun name key hkey => ?_
    have hsecond := ih name key hkey
    rcases hstep.keyTerms_cases with ⟨call, result, _, _, _, _, hrun⟩ | ⟨hsame, _⟩
    · have hadds := call.follows_addsKeys second.draft
      rw [hrun] at hadds
      exact hadds.keys name key hsecond
    · rwa [hsame]

/-- **First registrations.**  In a run, there was a call before which the name of the key term was
unknown.  The call asked for the key term under this name, and registered it: its term, made during
that call, is what was asked for. -/
def Registered (events : List Event) (session : Session) (key : KeyTerm) : Prop :=
  ∃ (call : Call) (result : Except Error Shape) (earlier later : List Event) (draft after : Draft)
      (frames : List Frame),
    events = earlier ++ call.events result ++ later ∧
      Run start earlier ⟨draft, frames⟩ ∧ call.run.runOn draft = (result, after) ∧
      Run ⟨after, frames⟩ later session ∧ draft.Adds call.keyRequests after key

theorem Registered.append (h : Registered events session key) (run : Run session further later) :
    Registered (events ++ further) later key := by
  obtain ⟨call, result, earlier, rest, draft, after, frames, rfl, hbefore, hcall, hafter, hadds⟩ := h
  refine ⟨call, result, earlier, rest ++ further, draft, after, frames, ?_, hbefore, hcall,
    hafter.trans run, hadds⟩
  rw [List.append_assoc]

/-- All key terms in the table were registered in the run. -/
theorem Run.registered_of_mem (h : Run start events session)
    (hkey : key ∈ session.draft.keyTerms.records) : Registered events session key := by
  induction h with
  | refl => simp [start, Draft.empty, KeyTermTable.empty] at hkey
  | @step second third before events run hstep ih =>
    rcases hstep.keyTerms_cases with
      ⟨call, result, frames, hframes, hframes', rfl, hrun⟩ | ⟨hsame, _⟩
    · have hadds := call.follows_addsKeys second.draft
      rw [hrun] at hadds
      rcases hadds.added key hkey with hold | hadd
      · exact (ih hold).append hstep.run
      · obtain ⟨draft, _⟩ := second
        obtain ⟨after, _⟩ := third
        subst hframes
        subst hframes'
        exact ⟨call, result, before, [], draft, after, _, (List.append_nil _).symm, run, hrun,
          .refl _, hadd⟩
    · exact (ih (hsame ▸ hkey)).append hstep.run

/-- A key term is found under a name exactly if it was registered under it. -/
theorem Run.get?_eq_some_iff (h : Run start events session) {name : String} :
    session.draft.keyTerms.get? name = some key ↔ key.name = name ∧ Registered events session key := by
  constructor
  · intro hkey
    exact ⟨KeyTermTable.name_of_get? hkey, h.registered_of_mem (KeyTermTable.mem_of_get? hkey)⟩
  · rintro ⟨rfl, _, _, _, _, _, _, _, _, _, _, hafter, hadds⟩
    exact hafter.keepsKeys _ _ hadds.found

/-- **Interning.**  After every run, a request under a name that was never registered registers one
key term and adds one entry, both as asked for, and has their number; it is refused if there are no
numbers left.  A request under a name that was registered has the number of that registration
exactly if it agrees with it, and is refused as a conflict between the two otherwise.  Nothing
changes but in the first of these cases. -/
theorem Run.interning (run : Run start events session) (request : KeyRequest) :
    ((∀ key, Registered events session key → key.name ≠ request.name) →
      (∀ hlt : session.draft.entries.size < termLimit,
        (Drafting.key request).runOn session.draft =
          (.ok ⟨session.draft.entries.size, hlt⟩, { session.draft with
            entries := session.draft.entries.push request.entry
            keyTerms := session.draft.keyTerms.push
              { request with term := ⟨session.draft.entries.size, hlt⟩ } })) ∧
      (termLimit ≤ session.draft.entries.size → (Drafting.key request).runOn session.draft =
        (.error (.rule request.name s!"grammar exceeds {termLimit} terms"), session.draft))) ∧
    (∀ key, Registered events session key → key.name = request.name →
      (key.Fits request →
        (Drafting.key request).runOn session.draft = (.ok key.term, session.draft)) ∧
      (¬ key.Fits request → (Drafting.key request).runOn session.draft =
        (.error (.registrationConflict request.name key.attributes request.attributes),
          session.draft))) := by
  constructor
  · intro hnever
    refine Drafting.runOn_key_of_new ?_
    cases hget : session.draft.keyTerms.get? request.name with
    | none => rfl
    | some key =>
      obtain ⟨hname, hregistered⟩ := run.get?_eq_some_iff.mp hget
      exact absurd hname (hnever key hregistered)
  · intro key hregistered hname
    exact Drafting.runOn_key_of_known (run.get?_eq_some_iff.mpr ⟨hname, hregistered⟩)

theorem get?_withPlus (name : String) : withPlus.keyTerms.get? name =
    if "+" = name then some { plus with term := plusIndex } else none := by
  show (KeyTermTable.empty.push { plus with term := plusIndex }).get? name = _
  rw [KeyTermTable.get?_push, KeyTermTable.get?_empty, Option.none_or]
  rfl

/-- While the definition that asked for the symbol is under way, the symbol is found again; it is
refused as punctuation; and it is registered once more under another name. -/
theorem interning_plus :
    (Drafting.key plus).runOn withPlus = (.ok plusIndex, withPlus) ∧
      (Drafting.key { plus with flags := .ofList [.punctuation] }).runOn withPlus =
        (.error (.registrationConflict "+" plus.attributes
          { plus with flags := .ofList [.punctuation] }.attributes), withPlus) ∧
      ((Drafting.key { plus with name := "plus" }).runOn withPlus).1 = .ok ⟨2, by decide⟩ := by
  obtain ⟨_, hplus⟩ := run_entered.get?_eq_some_iff.mp (get?_withPlus "+")
  have hnever : ∀ key, Registered [.answered (.key "+") (.term plusIndex)]
      ⟨withPlus, [⟨"Sum", failingIndex, false⟩]⟩ key → key.name ≠ "plus" := by
    intro key hkey hname
    have hget := run_entered.get?_eq_some_iff.mpr ⟨hname, hkey⟩
    cases hget.symm.trans (get?_withPlus "plus")
  obtain ⟨_, hsame⟩ := run_entered.interning plus
  obtain ⟨_, hother⟩ := run_entered.interning { plus with flags := .ofList [.punctuation] }
  obtain ⟨hnew, _⟩ := run_entered.interning { plus with name := "plus" }
  refine ⟨(hsame _ hplus rfl).1 ⟨rfl, rfl, rfl, .text "+"⟩,
    (hother _ hplus rfl).2 fun hfits => absurd hfits.flags (by decide), ?_⟩
  rw [(hnew hnever).1 (by decide)]
  rfl

end Session

end TypedGrammar
