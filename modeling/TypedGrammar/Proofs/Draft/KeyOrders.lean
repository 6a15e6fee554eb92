import Mathlib.Data.List.Nodup
import TypedGrammar.Proofs.Draft.InStep

/-!
# Key terms in another order

Whether key terms can be registered does not depend on their order, if their names are different,
and the drafts are then renamed.  So the declaration of a choice between key terms goes in step with
the declaration of a choice between the same ones in another order: if it fails, its rule is left
without a shape.
-/

namespace TypedGrammar

namespace KeyTermTable

variable {table : KeyTermTable} {key : KeyTerm} {request : KeyRequest}

/-- A request is answered by the key term of its own name. -/
theorem lookup_push_of_ne (hname : key.name ≠ request.name) :
    (table.push key).lookup request = table.lookup request := by
  unfold lookup
  rw [get?_push, if_neg hname, Option.or_none]

end KeyTermTable

namespace Drafting

open Draft

variable {α β γ δ : Type} {R R' : TermIndex → TermIndex → Prop} {p : Drafting α} {q : Drafting β}
  {a b : Draft} {i j : TermIndex} {x y : KeyRequest} {requests requests' : List KeyRequest}

/-- Two runs both fail, or both succeed and leave drafts renamed. -/
inductive RegistersAlike (R : TermIndex → TermIndex → Prop) :
    Except Error α × Draft → Except Error β × Draft → Prop
  | refused {e f : Error} {a b : Draft} : RegistersAlike R (.error e, a) (.error f, b)
  | ok {x : α} {y : β} {a b : Draft} (R' : TermIndex → TermIndex → Prop) :
      R ≤ R' → Draft.Renames R' a b → RegistersAlike R (.ok x, a) (.ok y, b)

theorem RegistersAlike.of_le {run : Except Error α × Draft} {run' : Except Error β × Draft}
    (h : RegistersAlike R' run run') (hR : R ≤ R') : RegistersAlike R run run' := by
  cases h with
  | refused => exact .refused
  | ok R'' hR' hrenames => exact .ok R'' (le_trans hR hR') hrenames

theorem RegistersAlike.symm {run : Except Error α × Draft} {run' : Except Error β × Draft}
    (h : RegistersAlike R run run') : RegistersAlike (flip R) run' run := by
  cases h with
  | refused => exact .refused
  | ok R' hR hrenames => exact .ok (flip R') (fun _ _ hij => hR _ _ hij) hrenames.symm

/-- A draft that another one is renamed to stands for either of them. -/
theorem RegistersAlike.trans {run : Except Error α × Draft} {run' : Except Error β × Draft}
    {run'' : Except Error γ × Draft} (h : RegistersAlike R run run')
    (h' : RegistersAlike (Relation.Comp (flip R) R) run' run'') : RegistersAlike R run run'' := by
  cases h with
  | refused =>
    cases h'
    exact .refused
  | ok R' hR hrenames =>
    cases h' with
    | ok R'' hR' hrenames' =>
      exact .ok (Relation.Comp R' R'')
        (fun i j hij => ⟨j, hR _ _ hij, hR' _ _ ⟨i, hij, hij⟩⟩) (hrenames.comp hrenames')

theorem RegistersAlike.bind {f : α → Drafting γ} {g : β → Drafting δ}
    (h : RegistersAlike R (p.runOn a) (q.runOn b))
    (hnext : ∀ R' x y a' b', Draft.Renames R' a' b' →
      RegistersAlike R' ((f x).runOn a') ((g y).runOn b')) :
    RegistersAlike R ((p >>= f).runOn a) ((q >>= g).runOn b) := by
  rw [runOn_bind, runOn_bind]
  generalize p.runOn a = run, q.runOn b = run' at h
  cases h with
  | refused => exact .refused
  | ok R' hR hrenames => exact (hnext R' _ _ _ _ hrenames).of_le hR

theorem registersAlike_key (request : KeyRequest) (h : Draft.Renames R a b) :
    RegistersAlike R ((key request).runOn a) ((key request).runOn b) := by
  have hruns := inStep_key (B := Never) request R (le_refl R) a b h
  generalize (key request).runOn a = run, (key request).runOn b = run' at hruns
  cases hruns with
  | broken hnever => exact hnever.elim
  | ok R' hR hrenames _ => exact .ok R' hR hrenames
  | error => exact .refused

/-! ## Two key terms -/

theorem size_pushEntry (draft : Draft) (entry : Entry) :
    (draft.pushEntry entry).entries.size = draft.entries.size + 1 :=
  Array.size_push entry

/-- A key term that is added does not wait for a shape. -/
theorem not_isPending_pushKey (hnot : ¬ a.IsPending i) (request : KeyRequest) :
    ¬ (a.pushEntry request.entry).IsPending i := by
  rintro ⟨entry, hentry, hkind⟩
  unfold Draft.pushEntry at hentry
  rw [Array.getElem?_push] at hentry
  split at hentry
  · rw [← Option.some.inj hentry] at hkind
    cases hkind
  · exact hnot ⟨entry, hentry, hkind⟩

theorem not_isPending_of_le (hi : a.entries.size ≤ i.value) : ¬ a.IsPending i := by
  rintro ⟨entry, hentry, _⟩
  rw [Array.getElem?_eq_none hi] at hentry
  cases hentry

/-- Two numbers that are not taken yet are related to each other when two key terms are added. -/
theorem renames_crossed (h : Draft.Renames R a b)
    (hi : TermIndex.ofNat? a.entries.size = some i)
    (hj : TermIndex.ofNat? (a.entries.size + 1) = some j) (x y : KeyRequest) :
    Draft.Renames (relating (relating R i j) j i) ((a.pushEntry x.entry).pushEntry y.entry)
      ((b.pushEntry y.entry).pushEntry x.entry) := by
  have hi' := value_of_ofNat? hi
  have hj' := value_of_ofNat? hj
  have hsize := h.size_eq
  have hne : i ≠ j := by
    rintro rfl
    omega
  -- What is not taken yet is not related to anything, and does not wait for a shape once added.
  have hnew : ∀ k, a.entries.size ≤ k.value → ∀ q, ¬ R k q := fun k hk => h.not_related hk
  have hnew' : ∀ k, a.entries.size ≤ k.value → ∀ p, ¬ R p k := fun k hk =>
    h.symm.not_related (hsize ▸ hk)
  have hpending : ∀ k l : TermIndex, a.entries.size ≤ k.value → a.entries.size ≤ l.value →
      (((a.pushEntry x.entry).pushEntry y.entry).IsPending k ↔
        ((b.pushEntry y.entry).pushEntry x.entry).IsPending l) := fun k l hk hl =>
    iff_of_false (not_isPending_pushKey (not_isPending_pushKey (not_isPending_of_le hk) x) y)
      (not_isPending_pushKey (not_isPending_pushKey (not_isPending_of_le (hsize ▸ hl)) y) x)
  have hgrown := (h.grow x.entry y.entry).grow y.entry x.entry
  have hbounds : ∀ (draft : Draft) (first second : Entry), draft.entries.size = a.entries.size →
      i.value < ((draft.pushEntry first).pushEntry second).entries.size ∧
        j.value < ((draft.pushEntry first).pushEntry second).entries.size := by
    intro draft first second hdraft
    rw [size_pushEntry, size_pushEntry]
    omega
  obtain ⟨hia, hja⟩ := hbounds a x.entry y.entry rfl
  obtain ⟨hib, hjb⟩ := hbounds b y.entry x.entry hsize.symm
  have hfirst := hgrown.relate hia hjb (hnew i (by omega)) (hnew' j (by omega))
    (hpending i j (by omega) (by omega))
  refine hfirst.relate hja hib ?_ ?_ (hpending j i (by omega) (by omega))
  · rintro q (hq | ⟨rfl, _⟩)
    · exact hnew j (by omega) q hq
    · exact hne rfl
  · rintro p (hp | ⟨_, rfl⟩)
    · exact hnew' i (by omega) p hp
    · exact hne rfl

/-- Two new key terms get each other's numbers when they are asked for the other way round. -/
theorem renames_pushKeys (h : Draft.Renames R a b) (hname : x.name ≠ y.name)
    (hi : TermIndex.ofNat? a.entries.size = some i)
    (hj : TermIndex.ofNat? (a.entries.size + 1) = some j) :
    Draft.Renames (relating (relating R i j) j i)
      { (a.pushEntry x.entry).pushEntry y.entry with
        keyTerms := (a.keyTerms.push { x with term := i }).push { y with term := j } }
      { (b.pushEntry y.entry).pushEntry x.entry with
        keyTerms := (b.keyTerms.push { y with term := i }).push { x with term := j } } := by
  have hcrossed := renames_crossed h hi hj x y
  refine hcrossed.withKeyTerms fun name => ?_
  have hkeys : Option.Rel (KeyTerm.Alike (relating (relating R i j) j i)) (a.keyTerms.get? name)
    (b.keyTerms.get? name) := hcrossed.keyTerms name
  simp only [KeyTermTable.get?_push]
  generalize a.keyTerms.get? name = found, b.keyTerms.get? name = found' at hkeys
  cases hkeys with
  | some hkey => exact .some hkey
  | none =>
    simp only [Option.none_or]
    by_cases hx : x.name = name
    · have hy : y.name ≠ name := fun hy => hname (hx.trans hy.symm)
      simp only [if_pos hx, if_neg hy, Option.or_none, Option.none_or]
      exact .some ⟨rfl, Or.inl (Or.inr ⟨rfl, rfl⟩)⟩
    · by_cases hy : y.name = name
      · simp only [if_neg hx, if_pos hy, Option.or_none, Option.none_or]
        exact .some ⟨rfl, Or.inr ⟨rfl, rfl⟩⟩
      · simp only [if_neg hx, if_neg hy, Option.or_none]
        exact .none

/-- A request is answered as before once a key term of another name was asked for. -/
theorem lookup_after_key {a' : Draft} (hname : y.name ≠ x.name)
    (h : (key y).runOn a = (.ok j, a')) : a'.keyTerms.lookup x = a.keyTerms.lookup x := by
  rw [runOn_key] at h
  split at h
  · cases h
  · obtain ⟨_, rfl⟩ := ok_inj h
    rfl
  · split at h
    · obtain ⟨_, rfl⟩ := ok_inj h
      exact KeyTermTable.lookup_push_of_ne hname
    · cases h

/-- If one of two key terms is refused, then it is refused before and after the other one. -/
theorem registersAlike_of_refused (hname : x.name ≠ y.name) {e f : Error}
    (ha : a.keyTerms.lookup x = .error e) (hb : b.keyTerms.lookup x = .error f) :
    RegistersAlike R ((key x >>= fun _ => key y).runOn a) ((key y >>= fun _ => key x).runOn b) := by
  have hfirst : (key x >>= fun _ => key y).runOn a = (.error e, a) := by
    rw [runOn_bind, runOn_key, ha]
  rw [hfirst, runOn_bind]
  rcases hrun : (key y).runOn b with ⟨e' | j, b'⟩
  · exact .refused
  · have hafter := lookup_after_key hname.symm hrun
    simp only [runOn_key, hafter, hb]
    exact .refused

/-- If one of two key terms is found, then all that is done is done for the other one. -/
theorem registersAlike_of_found (hname : x.name ≠ y.name) (h : Draft.Renames R a b)
    (ha : a.keyTerms.lookup x = .ok (some i)) (hb : b.keyTerms.lookup x = .ok (some j)) :
    RegistersAlike R ((key x >>= fun _ => key y).runOn a) ((key y >>= fun _ => key x).runOn b) := by
  have hother := registersAlike_key y h
  have hfirst : (key x >>= fun _ => key y).runOn a = (key y).runOn a := by
    rw [runOn_bind, runOn_key x, ha]
  rw [hfirst, runOn_bind]
  generalize (key y).runOn a = run at hother ⊢
  generalize hrun : (key y).runOn b = run' at hother ⊢
  cases hother with
  | refused => exact .refused
  | ok R' hR hrenames =>
    have hafter := lookup_after_key hname.symm hrun
    simp only [runOn_key, hafter, hb]
    exact .ok R' hR hrenames

/-- Two new key terms are both added, or there is no room for both of them. -/
theorem registersAlike_of_unknown (hname : x.name ≠ y.name) (h : Draft.Renames R a b)
    (hax : a.keyTerms.lookup x = .ok none) (hay : a.keyTerms.lookup y = .ok none)
    (hbx : b.keyTerms.lookup x = .ok none) (hby : b.keyTerms.lookup y = .ok none) :
    RegistersAlike R ((key x >>= fun _ => key y).runOn a) ((key y >>= fun _ => key x).runOn b) := by
  have hy : ∀ i, (a.keyTerms.push { x with term := i }).lookup y = .ok none :=
    fun _ => (KeyTermTable.lookup_push_of_ne hname).trans hay
  have hx : ∀ i, (b.keyTerms.push { y with term := i }).lookup x = .ok none :=
    fun _ => (KeyTermTable.lookup_push_of_ne hname.symm).trans hbx
  simp only [runOn_bind, runOn_key, hax, hby, ← h.size_eq]
  cases hn : TermIndex.ofNat? a.entries.size with
  | none => exact .refused
  | some n =>
    simp only [hx, hy, size_pushEntry, ← h.size_eq]
    cases hm : TermIndex.ofNat? (a.entries.size + 1) with
    | none => exact .refused
    | some m =>
      exact .ok _ (le_trans (le_relating R n m) (le_relating _ m n))
        (renames_pushKeys h hname hn hm)

/-- Whether two key terms are asked for one way or the other makes no difference. -/
theorem registersAlike_swap (h : Draft.Renames R a b) (hname : x.name ≠ y.name) :
    RegistersAlike R ((key x >>= fun _ => key y).runOn a) ((key y >>= fun _ => key x).runOn b) := by
  -- Both drafts give like answers to each of the requests.
  have hanswers := h.lookup_key x
  have hanswers' := h.lookup_key y
  generalize hax : a.keyTerms.lookup x = ax, hbx : b.keyTerms.lookup x = bx at hanswers
  generalize hay : a.keyTerms.lookup y = ay, hby : b.keyTerms.lookup y = by' at hanswers'
  cases hanswers with
  | refused => exact registersAlike_of_refused hname hax hbx
  | found _ => exact registersAlike_of_found hname h hax hbx
  | unknown =>
    cases hanswers' with
    | refused => exact (registersAlike_of_refused (R := flip R) hname.symm hby hay).symm
    | found _ => exact (registersAlike_of_found hname.symm h.symm hby hay).symm
    | unknown => exact registersAlike_of_unknown hname h hax hay hbx hby

/-- What goes on after two key terms goes on from renamed drafts. -/
theorem RegistersAlike.bind_swap {f g : TermIndex → TermIndex → Drafting α}
    (h : RegistersAlike R ((key x >>= fun _ => key y).runOn a) ((key y >>= fun _ => key x).runOn b))
    (hnext : ∀ R' i j k l a' b', Draft.Renames R' a' b' →
      RegistersAlike R' ((f i j).runOn a') ((g k l).runOn b')) :
    RegistersAlike R ((key x >>= fun i => key y >>= fun j => f i j).runOn a)
      ((key y >>= fun k => key x >>= fun l => g k l).runOn b) := by
  simp only [runOn_bind] at h ⊢
  generalize (key x).runOn a = first, (key y).runOn b = first' at h ⊢
  rcases first with ⟨e | i, a₁⟩
  · rcases first' with ⟨e' | k, b₁⟩
    · exact .refused
    · simp only at h ⊢
      generalize (key x).runOn b₁ = second' at h ⊢
      cases h
      exact .refused
  · simp only at h ⊢
    generalize (key y).runOn a₁ = second at h ⊢
    rcases first' with ⟨e' | k, b₁⟩
    · cases h
      exact .refused
    · simp only at h ⊢
      generalize (key x).runOn b₁ = second' at h ⊢
      cases h with
      | refused => exact .refused
      | ok R' hR hrenames => exact (hnext R' i _ k _ _ _ hrenames).of_le hR

/-! ## Any order -/

/-- The same key terms are registered in both drafts, or in none. -/
theorem registersAlike_mapM_key_self (requests : List KeyRequest) (h : Draft.Renames R a b) :
    RegistersAlike R ((requests.mapM key).runOn a) ((requests.mapM key).runOn b) := by
  induction requests generalizing R a b with
  | nil => exact .ok R (le_refl R) h
  | cons request rest ih =>
    rw [List.mapM_cons]
    refine (registersAlike_key request h).bind fun R₁ _ _ a₁ b₁ h₁ => ?_
    exact (ih h₁).bind fun R₂ _ _ a₂ b₂ h₂ => .ok R₂ (le_refl R₂) h₂

/-- **Key terms in another order.**  If their names are different, key terms are registered in any
order, or in none. -/
theorem registersAlike_mapM_key (hperm : requests.Perm requests')
    (hnames : (requests.map (·.name)).Nodup) (h : Draft.Renames R a b) :
    RegistersAlike R ((requests.mapM key).runOn a) ((requests'.mapM key).runOn b) := by
  -- Every order comes of exchanging neighbours, and only there it matters that names are different.
  induction hperm generalizing R a b with
  | nil => exact .ok R (le_refl R) h
  | cons request _ ih =>
    rw [List.map_cons, List.nodup_cons] at hnames
    rw [List.mapM_cons, List.mapM_cons]
    refine (registersAlike_key request h).bind fun R₁ _ _ a₁ b₁ h₁ => ?_
    exact (ih hnames.2 h₁).bind fun R₂ _ _ a₂ b₂ h₂ => .ok R₂ (le_refl R₂) h₂
  | swap x y rest =>
    have hname : y.name ≠ x.name := by
      rw [List.map_cons, List.map_cons, List.nodup_cons] at hnames
      exact fun heq => hnames.1 (heq ▸ List.mem_cons_self)
    simp only [List.mapM_cons, bind_assoc]
    refine (registersAlike_swap h hname).bind_swap fun R₁ _ _ _ _ a₁ b₁ h₁ => ?_
    exact (registersAlike_mapM_key_self rest h₁).bind fun R₂ _ _ a₂ b₂ h₂ => .ok R₂ (le_refl R₂) h₂
  | trans hfirst _ ih ih' =>
    have hnames' := (hfirst.map KeyRequest.name).nodup_iff.mp hnames
    exact (ih hnames h).trans (ih' hnames' h.right_self)

/-! ## Choices between key terms -/

/-- The same requests, or the same requests in another order, under different names. -/
def Reorders (requests requests' : List KeyRequest) : Prop :=
  requests = requests' ∨ requests.Perm requests' ∧ (requests.map (·.name)).Nodup

theorem Reorders.registersAlike (horder : Reorders requests requests') (h : Draft.Renames R a b) :
    RegistersAlike R ((requests.mapM key).runOn a) ((requests'.mapM key).runOn b) := by
  rcases horder with rfl | ⟨hperm, hnames⟩
  · exact registersAlike_mapM_key_self requests h
  · exact registersAlike_mapM_key hperm hnames h

variable {type type' : TypeDeclaration} {entry : Entry}

/-- If a key term is refused, then the rule of the choice has no shape and will not get one. -/
theorem runsInStep_fillChoice (horder : Reorders type.requests type'.requests)
    (h : Draft.Renames R a b) (hij : R i j) (hentry : a.entries[i.value]? = some entry)
    (hkind : entry.kind = .rule none) (hnode : ¬ entry.IsNodeType) :
    RunsInStep IsBroken R (fun R => R) ((fillChoice type i).runOn a)
      ((fillChoice type' j).runOn b) := by
  have hruns := horder.registersAlike h
  have hleads : a.Leads ∅ ((type.requests.mapM key).runOn a).2 :=
    follows_mapM respects_key type.requests a
  unfold fillChoice
  rw [runOn_bind, runOn_bind]
  generalize (type.requests.mapM key).runOn a = run, (type'.requests.mapM key).runOn b = run'
    at hruns hleads
  cases hruns with
  | refused =>
    -- The key terms are asked for before the shape is stored.
    exact .broken (hleads.extension.staysBroken ⟨_, entry, hentry, hkind, hnode⟩)
  | ok R' hR hrenames =>
    have hij' := hR _ _ hij
    exact .ok R' hR (hrenames.withShape hij' _ _) hij'

/-- A choice between key terms is declared in step with the choice in another order. -/
theorem inStep_choice (horder : Reorders type.requests type'.requests)
    (hname : type'.typeName = type.typeName) (hentry : type'.entry = type.entry)
    (hkind : type.entry.kind = .rule none) (hnode : ¬ type.entry.IsNodeType) :
    InStep IsBroken R (fun R => R)
      (declaredOr type.typeName (declare type.typeName type.entry >>= fillChoice type))
      (declaredOr type'.typeName (declare type'.typeName type'.entry >>= fillChoice type')) := by
  rw [hname, hentry]
  refine inStep_declaredOr fun R₁ _ a b h => ?_
  refine (inStep_declare _ _ R₁ (le_refl R₁) a b h).then fun R₂ _ i j a' b' hrun h' hij => ?_
  exact runsInStep_fillChoice horder h' hij (entry_of_declare hrun) hkind hnode

end Drafting

end TypedGrammar
