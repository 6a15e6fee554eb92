import TypedGrammar.Proofs.Draft.KeyTerms
import TypedGrammar.Proofs.Grammar.Building
import TypedGrammar.Proofs.Matching.TokenForms

/-!
# The two copies of a key term

Name, text, flags and precedence of a key term stand in the table of key terms and in the entry of
its term.  They agree when the key term is registered.  Flags that are set afterwards are set in the
entry only, but identifiers and requests look at the table: a word that is reserved afterwards is
still an identifier.
-/

namespace TypedGrammar

namespace Event

variable {n : ℕ} {old : Flags} {events : List Event}

/-- Flags that are not set stay as they are. -/
theorem applyAll_eq_self
    (h : ∀ index flags on, .flagged index flags on ∈ events → index.value ≠ n) :
    applyAll n old events = old := by
  induction events with
  | nil => rfl
  | cons event events ih =>
    have hrest : applyAll n old events = old :=
      ih fun index flags on hmem => h index flags on (List.mem_cons_of_mem _ hmem)
    cases event with
    | answered request shape => exact hrest
    | flagged index flags on =>
      have hne := h index flags on List.mem_cons_self
      show applyAll n (if index.value = n then old.assign flags on else old) events = old
      rw [if_neg hne, hrest]

end Event

/-- A call sets no flags. -/
theorem Call.flagged_notMem_events (call : Call) (result : Except Error Shape) (index : TermIndex)
    (flags : Flags) (on : Bool) : .flagged index flags on ∉ call.events result := by
  unfold Call.events
  split <;> simp

namespace Draft

variable {seen events : List Event} {old new draft : Draft}
  {index : TermIndex} {entry : Entry} {shape : Shape} {key : KeyTerm}

/-- **Agreement.**  Every record of the table leads to a key term with its name, text, flags and
precedence. -/
def KeyTermsAgree (draft : Draft) : Prop :=
  ∀ key ∈ draft.keyTerms.records, ∃ term, draft.term? key.term = some term ∧
    term.name = key.name ∧ term.kind = .key key.text ∧ term.flags = key.flags ∧
      term.precedence = key.precedence

/-- The entry is what a record says, with other flags perhaps. -/
structure Describes (key : KeyTerm) (flags : Flags) (entry : Entry) : Prop where
  name : entry.name = key.name
  kind : entry.kind = .key key.text
  flags : entry.flags = flags
  precedence : entry.precedence = key.precedence

/-- **What a run has made of the key terms.**  Each is found under its name, and has an entry which
differs from it at most in the flags that were set; no other entries are key terms; and only flags
of entries were set. -/
structure TracksKeys (events : List Event) (draft : Draft) : Prop where
  found : ∀ key ∈ draft.keyTerms.records, draft.keyTerms.get? key.name = some key
  entry : ∀ key ∈ draft.keyTerms.records, ∃ entry, draft.entries[key.term.value]? = some entry ∧
    Describes key (Event.applyAll key.term.value key.flags events) entry
  terms : ∀ (n : ℕ) (entry : Entry) (text : String), draft.entries[n]? = some entry →
    entry.kind = .key text → ∃ key ∈ draft.keyTerms.records, key.term.value = n
  flagged : ∀ index flags on, .flagged index flags on ∈ events → index.value < draft.entries.size

/-- In the empty draft there are no key terms to keep track of. -/
theorem tracksKeys_empty : TracksKeys [] .empty where
  found key hkey := by simp [Draft.empty, KeyTermTable.empty] at hkey
  entry key hkey := by simp [Draft.empty, KeyTermTable.empty] at hkey
  terms n entry text hentry := by simp [Draft.empty] at hentry
  flagged index flags on hmem := absurd hmem List.not_mem_nil

/-- Key terms that are added agree with their entries, since no flags of these were set before. -/
theorem TracksKeys.add (h : TracksKeys seen old) (asks : List KeyRequest)
    (hadds : AddsKeys asks old new)
    (hevents : ∀ index flags on, .flagged index flags on ∉ events) :
    TracksKeys (seen ++ events) new where
  found key hkey := by
    rcases hadds.added key hkey with hold | hadd
    · exact hadds.keys _ _ (h.found key hold)
    · exact hadd.found
  entry key hkey := by
    have hquiet : Event.applyAll key.term.value key.flags (seen ++ events) =
        Event.applyAll key.term.value key.flags seen := by
      rw [Event.applyAll_append]
      exact Event.applyAll_eq_self fun index flags on hmem => absurd hmem (hevents _ _ _)
    rw [hquiet]
    rcases hadds.added key hkey with hold | hadd
    · obtain ⟨entry, hentry, hdescribes⟩ := h.entry key hold
      exact ⟨entry, hadds.entries _ _ hentry, hdescribes⟩
    · have huntouched : Event.applyAll key.term.value key.flags seen = key.flags := by
        refine Event.applyAll_eq_self fun index flags on hmem => ?_
        exact Nat.ne_of_lt (Nat.lt_of_lt_of_le (h.flagged index flags on hmem) hadd.later)
      rw [huntouched]
      exact ⟨_, hadd.entry, rfl, rfl, rfl, rfl⟩
  terms n entry text hentry hkind := by
    rcases hadds.terms n entry text hentry hkind with hlt | hkey
    · have hsame := hadds.entries n _ (Array.getElem?_eq_getElem hlt)
      rw [hentry] at hsame
      obtain rfl := Option.some.inj hsame
      obtain ⟨key, hkey, hterm⟩ := h.terms n _ text (Array.getElem?_eq_getElem hlt) hkind
      exact ⟨key, hadds.kept key hkey, hterm⟩
    · exact hkey
  flagged index flags on hmem := by
    rcases List.mem_append.mp hmem with hmem | hmem
    · exact Nat.lt_of_lt_of_le (h.flagged index flags on hmem) hadds.size_le
    · exact absurd hmem (hevents _ _ _)

/-- Flags that are set are set in the entry. -/
theorem TracksKeys.withFlags (h : TracksKeys seen draft)
    (hindex : index.value < draft.entries.size) (flags : Flags) (on : Bool) :
    TracksKeys (seen ++ [.flagged index flags on])
      (draft.modifyTerm index fun term => { term with flags := term.flags.assign flags on }) where
  found := h.found
  entry key hkey := by
    obtain ⟨entry, hentry, hdescribes⟩ := h.entry key hkey
    rw [Draft.modifyTerm, Array.getElem?_modify, Event.applyAll_append]
    -- The flags of the term itself are set in its entry; the others stay as they are.
    by_cases hn : index.value = key.term.value
    · rw [if_pos hn, hentry]
      refine ⟨_, rfl, hdescribes.name, hdescribes.kind, ?_, hdescribes.precedence⟩
      show entry.flags.assign flags on = if index.value = key.term.value then _ else _
      rw [if_pos hn, hdescribes.flags]
    · rw [if_neg hn]
      refine ⟨entry, hentry, hdescribes.name, hdescribes.kind, ?_, hdescribes.precedence⟩
      show entry.flags = if index.value = key.term.value then _ else _
      rw [if_neg hn, hdescribes.flags]
  terms n entry text hentry hkind := by
    rw [Draft.modifyTerm, Array.getElem?_modify] at hentry
    split at hentry
    · obtain ⟨old, hold, rfl⟩ := Option.map_eq_some_iff.mp hentry
      exact h.terms n old text hold hkind
    · exact h.terms n entry text hentry hkind
  flagged other flags' on' hmem := by
    rw [Draft.modifyTerm, Array.size_modify]
    rcases List.mem_append.mp hmem with hmem | hmem
    · exact h.flagged other flags' on' hmem
    · obtain ⟨rfl, rfl, rfl⟩ := Event.flagged.inj (List.mem_singleton.mp hmem)
      exact hindex

/-- The shape of a rule is no matter of key terms. -/
theorem TracksKeys.withShape (h : TracksKeys seen draft)
    (hentry : draft.entries[index.value]? = some entry) (hpending : entry.kind = .rule none) :
    TracksKeys seen (draft.modifyTerm index (·.withShape shape)) where
  found := h.found
  entry key hkey := by
    obtain ⟨found, hfound, hdescribes⟩ := h.entry key hkey
    exact ⟨found, (getElem?_withShape_key hentry hpending hdescribes.kind).mpr hfound, hdescribes⟩
  terms n found text hfound hkind :=
    h.terms n found text ((getElem?_withShape_key hentry hpending hkind).mp hfound) hkind
  flagged other flags on hmem := by
    rw [Draft.modifyTerm, Array.size_modify]
    exact h.flagged other flags on hmem

/-- Each record leads to a term that differs from it at most in the flags that were set. -/
theorem TracksKeys.exists_term (h : TracksKeys events draft) (hkey : key ∈ draft.keyTerms.records) :
    ∃ term, draft.term? key.term = some term ∧ term.name = key.name ∧
      term.kind = .key key.text ∧ term.precedence = key.precedence ∧
        term.flags = Event.applyAll key.term.value key.flags events := by
  obtain ⟨entry, hentry, hdescribes⟩ := h.entry key hkey
  refine ⟨entry.toTerm, ?_, hdescribes.name, hdescribes.kind, hdescribes.precedence,
    hdescribes.flags⟩
  unfold Draft.term? Draft.entry?
  rw [hentry]
  rfl

/-- The copies agree exactly if all flags that were set are as they were before. -/
theorem TracksKeys.keyTermsAgree_iff (h : TracksKeys events draft) :
    draft.KeyTermsAgree ↔ ∀ key ∈ draft.keyTerms.records,
      Event.applyAll key.term.value key.flags events = key.flags := by
  refine forall₂_congr fun key hkey => ?_
  obtain ⟨term, hterm, hname, hkind, hprecedence, happlied⟩ := h.exists_term hkey
  constructor
  · rintro ⟨found, hfound, _, _, hflags, _⟩
    obtain rfl := Option.some.inj (hterm.symm.trans hfound)
    rw [← happlied, hflags]
  · intro hsame
    exact ⟨term, hterm, hname, hkind, happlied.trans hsame, hprecedence⟩

/-- A key term of the draft has a record. -/
theorem TracksKeys.exists_record (h : TracksKeys events draft) {term : Term} {text : String}
    (hterm : draft.term? index = some term) (hkind : term.kind = .key text) :
    ∃ key ∈ draft.keyTerms.records, key.term = index := by
  unfold Draft.term? Draft.entry? at hterm
  obtain ⟨entry, hentry, rfl⟩ := Option.map_eq_some_iff.mp hterm
  obtain ⟨key, hkey, hvalue⟩ := h.terms _ entry text hentry hkind
  exact ⟨key, hkey, Drafting.eq_of_value hvalue⟩

end Draft

/-! ## Runs -/

namespace Session

open Draft

variable {session before after : Session} {events seen : List Event}

/-- Every step keeps track of the key terms. -/
theorem Step.tracksKeys (h : Step before events after) (hbefore : before.IsConsistent)
    (htracks : TracksKeys seen before.draft) : TracksKeys (seen ++ events) after.draft := by
  obtain ⟨draft, frames⟩ := before
  obtain ⟨after, frames'⟩ := after
  rcases h.keyTerms_cases with ⟨call, result, _, _, _, rfl, hrun⟩ |
    ⟨_, ⟨index, flags, on, rfl, hlt, rfl⟩ | ⟨frame, hframe, hpending, rfl, shape, rfl⟩ |
      ⟨hquiet, hadds⟩⟩
  · have hadds := call.follows_addsKeys draft
    rw [hrun] at hadds
    exact htracks.add call.keyRequests hadds (call.flagged_notMem_events result)
  · exact htracks.withFlags hlt flags on
  · obtain ⟨entry, hentry, hrule⟩ := hbefore.pending frame hframe hpending
    rw [List.append_nil]
    exact htracks.withShape hentry hrule
  · exact htracks.add [] hadds hquiet

/-- Every run from the start keeps track of the key terms. -/
theorem Run.tracksKeys (h : Run start events session) : TracksKeys events session.draft := by
  induction h with
  | refl => exact tracksKeys_empty
  | step run hstep ih => exact hstep.tracksKeys (run.keeps isConsistent_start).1 ih

end Session

/-! ## Reserved words -/

namespace Matcher

variable {reserved : List String} {case : LetterCase} {start stop : Cursor} {found : String}

/-- An identifier is a word that is not reserved and obeys the rule for its letter case. -/
theorem takes_identifier : (identifier reserved case).Takes start found stop ↔
    word.Takes start found stop ∧ found ∉ reserved ∧ case.allows found = true := by
  unfold identifier
  rw [takes_checked]
  constructor
  · rintro ⟨taken, htaken, hok⟩
    split at hok
    · cases hok
    · next hreserved =>
      split at hok
      · cases hok
      · next hcase =>
        obtain rfl := Except.ok.inj hok
        refine ⟨htaken, fun hmem => hreserved (List.contains_iff_mem.mpr hmem), ?_⟩
        simpa using hcase
  · rintro ⟨htaken, hreserved, hcase⟩
    refine ⟨found, htaken, ?_⟩
    rw [if_neg (by simpa using hreserved), if_neg (by simp [hcase])]

end Matcher

namespace Language

/-- Wherever an identifier is expected and the word stands, it is refused as reserved. -/
def RefusesWord (language : Language) (word : String) : Prop :=
  ∀ case start stop, Matcher.word.Takes start word stop →
    Matcher.identifier language.lexicon.reserved case start =
      .failed (.refused start stop s!"`{word}` is reserved and cannot be used as an identifier")

/-- Reserved words are refused by identifiers. -/
theorem refusesWord_of_isReserved {language : Language} {word : String}
    (h : language.isReserved word = true) : language.RefusesWord word := by
  rintro case start stop ⟨remembered, hword⟩
  unfold Matcher.identifier Matcher.checked
  rw [hword]
  simp only
  rw [if_pos (show language.lexicon.reserved.contains word = true from h)]

end Language

namespace Draft

variable {draft : Draft} {events : List Event} {index : TermIndex} {term : Term} {word : String}

/-- If the copies agree, the text of a reserved key term is reserved in the language. -/
theorem TracksKeys.isReserved (h : TracksKeys events draft) (hagree : draft.KeyTermsAgree)
    (hterm : draft.term? index = some term) (hkind : term.kind = .key word)
    (hreserved : term.flags.has .reserved = true) (name : String) (root : TermIndex)
    (comments : List Comment) : (draft.toLanguage name root comments).isReserved word = true := by
  obtain ⟨key, hkey, rfl⟩ := h.exists_record hterm hkind
  obtain ⟨found, hfound, _, hfoundKind, hflags, _⟩ := hagree key hkey
  obtain rfl := Option.some.inj (hterm.symm.trans hfound)
  obtain rfl := TermKind.key.inj (hkind.symm.trans hfoundKind)
  refine List.contains_iff_mem.mpr (List.mem_map.mpr ⟨key, ?_, rfl⟩)
  exact List.mem_filter.mpr ⟨Array.mem_toList_iff.mpr hkey, hflags ▸ hreserved⟩

/-- If the copies agree, a request for a key term has a term with the flags that it asks for. -/
theorem KeyTermsAgree.flags_of_key {request : KeyRequest} {after : Draft}
    (hagree : draft.KeyTermsAgree) (h : (Drafting.key request).runOn draft = (.ok index, after)) :
    ∃ term, after.term? index = some term ∧ term.flags = request.flags := by
  rw [Drafting.runOn_key] at h
  split at h
  · cases h
  · next found hlookup =>
    obtain ⟨rfl, rfl⟩ := Drafting.ok_inj h
    obtain ⟨key, hkey, hagrees, rfl⟩ := KeyTermTable.lookup_eq_some hlookup
    obtain ⟨term, hterm, _, _, hflags, _⟩ := hagree key (KeyTermTable.mem_of_get? hkey)
    refine ⟨term, hterm, hflags.trans ?_⟩
    simp only [KeyRequest.agrees, Bool.and_eq_true, decide_eq_true_eq] at hagrees
    exact hagrees.1.1.2
  · split at h
    · next found hindex =>
      obtain ⟨rfl, rfl⟩ := Drafting.ok_inj h
      refine ⟨request.entry.toTerm, ?_, rfl⟩
      show ((draft.entries.push request.entry)[found.value]?).map Entry.toTerm = _
      rw [getElem?_push_ofNat? hindex]
      rfl
    · cases h

end Draft

namespace Session

open Draft

variable {session : Session} {events : List Event}

/-- **The two copies of key terms.**  After every run, each record leads to a key term with its
name, text and precedence, and with its flags as they were set meanwhile; the copies agree exactly
if these are the flags that it was registered with.  Then every word that is the text of a reserved
key term is refused as an identifier, and every request for a key term that succeeds has a term with
exactly the flags that it asks for. -/
theorem Run.keyTerms_copies (run : Run start events session) :
    (∀ key ∈ session.draft.keyTerms.records, ∃ term, session.draft.term? key.term = some term ∧
      term.name = key.name ∧ term.kind = .key key.text ∧ term.precedence = key.precedence ∧
        term.flags = Event.applyAll key.term.value key.flags events) ∧
    (session.draft.KeyTermsAgree ↔ ∀ key ∈ session.draft.keyTerms.records,
      Event.applyAll key.term.value key.flags events = key.flags) ∧
    (session.draft.KeyTermsAgree →
      (∀ name root comments index term word,
        (session.draft.toLanguage name root comments).term? index = some term →
          term.kind = .key word → term.flags.has .reserved = true →
            (session.draft.toLanguage name root comments).isReserved word = true ∧
              (session.draft.toLanguage name root comments).RefusesWord word) ∧
      ∀ request index after, (Drafting.key request).runOn session.draft = (.ok index, after) →
        ∃ term, after.term? index = some term ∧ term.flags = request.flags) := by
  have htracks := run.tracksKeys
  refine ⟨fun key hkey => htracks.exists_term hkey, htracks.keyTermsAgree_iff,
    fun hagree => ⟨?_, ?_⟩⟩
  · intro name root comments index term word hterm hkind hreserved
    have hfound : session.draft.term? index = some term := Draft.term?_complete.symm.trans hterm
    have hisReserved := htracks.isReserved hagree hfound hkind hreserved name root comments
    exact ⟨hisReserved, Language.refusesWord_of_isReserved hisReserved⟩
  · intro request index after hrun
    exact hagree.flags_of_key hrun

/-! ### A word that is reserved afterwards

A key term is registered with some flags, and reserved afterwards. -/

/-- The word is the only term. -/
def ifIndex : TermIndex :=
  .ofNat 0

/-- The draft in which the word is registered with the flags. -/
def withIf (flags : Flags) : Draft :=
  { Draft.empty.pushEntry (KeyRequest.ofText "if" flags).entry with
    keyTerms := KeyTermTable.empty.push { KeyRequest.ofText "if" flags with term := ifIndex } }

/-- The draft in which the word is reserved afterwards. -/
def reservedIf (flags : Flags) : Draft :=
  (withIf flags).modifyTerm ifIndex fun term =>
    { term with flags := term.flags.assign (.ofList [.reserved]) true }

/-- The word as a term. -/
def ifTerm (flags : Flags) : Term where
  name := "if"
  kind := .key "if"
  flags := flags.assign (.ofList [.reserved]) true

/-- The word is reserved in the draft. -/
theorem term?_reservedIf (flags : Flags) : (reservedIf flags).term? ifIndex = some (ifTerm flags) := by
  unfold Draft.term? Draft.entry? reservedIf Draft.modifyTerm
  rw [Array.getElem?_modify]
  rfl

theorem term?_toLanguage_reservedIf (flags : Flags) :
    ((reservedIf flags).toLanguage "If" ifIndex []).term? ifIndex = some (ifTerm flags) :=
  Draft.term?_complete.trans (term?_reservedIf flags)

/-- The record of the word still has the flags of the request. -/
theorem mem_keyTerms_reservedIf {flags : Flags} {key : KeyTerm} :
    key ∈ (reservedIf flags).keyTerms.records ↔
      key = { KeyRequest.ofText "if" flags with term := ifIndex } := by
  show key ∈ #[_] ↔ _
  simp

/-- The word is registered with the flags of the request. -/
theorem runOn_if (flags : Flags) : (Call.key (.ofText "if" flags)).run.runOn .empty =
    (.ok (.term ifIndex), withIf flags) := by
  show (Shape.term <$> Drafting.key (.ofText "if" flags)).runOn .empty = _
  have hlookup : Draft.empty.keyTerms.lookup (.ofText "if" flags) = .ok none := by
    show KeyTermTable.empty.lookup _ = _
    rw [KeyTermTable.lookup, KeyTermTable.get?_empty]
  rw [Drafting.runOn_map, Drafting.runOn_key, hlookup]
  rfl

/-- The word is found again as it was registered. -/
theorem runOn_if_again (flags : Flags) :
    (Drafting.key (.ofText "if" flags)).runOn (reservedIf flags) =
      (.ok ifIndex, reservedIf flags) := by
  have hlookup : (reservedIf flags).keyTerms.lookup (.ofText "if" flags) = .ok (some ifIndex) := by
    show (KeyTermTable.empty.push { KeyRequest.ofText "if" flags with term := ifIndex }).lookup _ = _
    rw [KeyTermTable.lookup, KeyTermTable.get?_push, KeyTermTable.get?_empty, Option.none_or,
      if_pos rfl]
    simp only
    rw [if_pos (KeyRequest.ofText_agrees "if" flags)]
  rw [Drafting.runOn_key, hlookup]

/-- A run registers the word and reserves it afterwards. -/
theorem run_reservedIf (flags : Flags) : Run start
    [.answered (.key "if") (.term ifIndex), .flagged ifIndex (.ofList [.reserved]) true]
    ⟨reservedIf flags, []⟩ := by
  have hflags : (Drafting.setFlags ifIndex (.ofList [.reserved]) true).runOn (withIf flags) =
      (.ok (), reservedIf flags) := rfl
  exact (Step.call (.key (.ofText "if" flags)) (runOn_if flags)).run.step (.setFlags hflags)

/-- A keyword is reserved from the beginning. -/
theorem keyTerms_copies_keyword :
    (reservedIf Rule.keywordFlags).KeyTermsAgree ∧
      ((reservedIf Rule.keywordFlags).toLanguage "If" ifIndex []).isReserved "if" = true ∧
      ((reservedIf Rule.keywordFlags).toLanguage "If" ifIndex []).RefusesWord "if" ∧
      ∃ term, (reservedIf Rule.keywordFlags).term? ifIndex = some term ∧
        term.flags = Rule.keywordFlags := by
  obtain ⟨_, hiff, hthen⟩ := (run_reservedIf Rule.keywordFlags).keyTerms_copies
  have hagree : (reservedIf Rule.keywordFlags).KeyTermsAgree := by
    refine hiff.mpr fun key hkey => ?_
    rw [mem_keyTerms_reservedIf.mp hkey]
    rfl
  obtain ⟨hreserved, hflags⟩ := hthen hagree
  obtain ⟨hisReserved, hrefuses⟩ := hreserved "If" ifIndex [] ifIndex _ "if"
    (term?_toLanguage_reservedIf Rule.keywordFlags) rfl (by decide)
  exact ⟨hagree, hisReserved, hrefuses, hflags _ _ _ (runOn_if_again Rule.keywordFlags)⟩

/-- Another word that is reserved afterwards remains an identifier, and is found again by requests
that do not ask for reserved words. -/
theorem not_keyTermsAgree_reservedIf :
    Run start
        [.answered (.key "if") (.term ifIndex), .flagged ifIndex (.ofList [.reserved]) true]
        ⟨reservedIf .none, []⟩ ∧
      ¬ (reservedIf .none).KeyTermsAgree ∧
      (∃ term, ((reservedIf .none).toLanguage "If" ifIndex []).term? ifIndex = some term ∧
        term.kind = .key "if" ∧ term.flags.has .reserved = true) ∧
      ((reservedIf .none).toLanguage "If" ifIndex []).isReserved "if" = false ∧
      (∀ start stop, Matcher.word.Takes start "if" stop →
        (Matcher.identifier ((reservedIf .none).toLanguage "If" ifIndex []).lexicon.reserved
          .any).Takes start "if" stop) ∧
      (Drafting.key (.ofText "if" .none)).runOn (reservedIf .none) =
        (.ok ifIndex, reservedIf .none) ∧
      ∃ term, (reservedIf .none).term? ifIndex = some term ∧ term.flags ≠ .none := by
  have hreserved : ((reservedIf .none).toLanguage "If" ifIndex []).reserved = [] := rfl
  refine ⟨run_reservedIf .none, fun hagree => ?_,
    ⟨ifTerm .none, term?_toLanguage_reservedIf .none, rfl, by decide⟩, rfl, ?_,
    runOn_if_again .none, ifTerm .none, term?_reservedIf .none, by decide⟩
  · obtain ⟨term, hterm, _, _, hflags, _⟩ := hagree _ (mem_keyTerms_reservedIf.mpr rfl)
    obtain rfl := Option.some.inj ((term?_reservedIf .none).symm.trans hterm)
    exact absurd hflags (by decide)
  · intro start stop hword
    refine Matcher.takes_identifier.mpr ⟨hword, ?_, rfl⟩
    show "if" ∉ Language.reserved _
    rw [hreserved]
    exact List.not_mem_nil

end Session

end TypedGrammar
