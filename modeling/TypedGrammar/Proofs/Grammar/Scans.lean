import TypedGrammar.Proofs.Grammar.Creations
import TypedGrammar.Proofs.Tree.Paths

/-!
# Scans

Reading a tree is a scan of the positions at which nodes are made, in postorder: what the maker at a
position is given is known from the tree and from the nodes that were made before, and the first
maker that fails ends the scan with its error.
-/

namespace TypedGrammar

open TypedGrammar.Tree

variable {α β : Type}

/-- The call, seen from above the part at a path. -/
def Making.below (path : List ℕ) (making : Making) : Making :=
  { making with path := path ++ making.path }

/-- The step, seen from above the part at a path. -/
def Recorded.below (path : List ℕ) (step : Recorded α) : Recorded α :=
  ⟨step.makings.map (Making.below path), step.result⟩

namespace Recorded

variable {path : List ℕ} {step : Recorded α} {next : α → Recorded β}

@[simp] theorem below_quiet (path : List ℕ) (result : Except Error α) :
    (quiet result).below path = quiet result :=
  rfl

@[simp] theorem below_nil (step : Recorded α) : step.below [] = step := by
  have hsame : Making.below [] = id := rfl
  rw [below, hsame, List.map_id]

/-- Steps that follow each other are both recorded below a path. -/
theorem below_andThen (path : List ℕ) (step : Recorded α) (next : α → Recorded β) :
    (step.andThen next).below path = (step.below path).andThen fun a => (next a).below path := by
  obtain ⟨makings, result⟩ := step
  cases result with
  | error e => rfl
  | ok a => exact congrArg (Recorded.mk · _) List.map_append

/-- A step is recorded below one path and then another. -/
theorem below_under (path : List ℕ) (number : ℕ) (step : Recorded α) :
    (step.under number).below path = step.below (path ++ [number]) := by
  have hmakings : (step.makings.map (Making.under number)).map (Making.below path) =
      step.makings.map (Making.below (path ++ [number])) := by
    rw [List.map_map]
    refine List.map_congr_left fun making _ => ?_
    simp [Making.below, Making.under]
  exact congrArg (Recorded.mk · step.result) hmakings

/-- A call is recorded at its path. -/
theorem below_call (path : List ℕ) (maker : Maker) (occurrence : Occurrence) :
    (call maker occurrence).below path =
      ⟨[⟨path, occurrence, maker.make occurrence⟩], maker.make occurrence⟩ := by
  simp [below, call, Making.below]

/-- What is known is followed by the next step. -/
@[simp] theorem quiet_andThen (a : α) (next : α → Recorded β) :
    (quiet (.ok a)).andThen next = next a :=
  rfl

end Recorded

/-! ## The relation -/

namespace Reading

/-- **Calls.**  After some calls in a tree, the maker at a position is called: for a token with its
text, or for a rule with the parts below it, each with the node that was made of it, if one was.  It
is located by what stands before it. -/
inductive Calls (reading : Reading) (root : Tree) (earlier : List Making) :
    List ℕ → Making → Prop
  | token {path kind text term maker} :
      root.at? path = some (.token kind text) → reading.term kind = .ok term →
      reading.maker? kind = some maker →
      Calls reading root earlier path
        ⟨path, ⟨term, reading.locate (root.bytesBefore path), some text, []⟩,
          maker.make ⟨term, reading.locate (root.bytesBefore path), some text, []⟩⟩
  | rule {path kind children term parts} :
      root.at? path = some (.node kind children) → reading.term kind = .ok term →
      List.Forall₂ (fun place part => reading.term place.2.kind = .ok part.term ∧
          ∀ node, part.node = some node ↔
            ∃ below ∈ earlier, below.path = path ++ [place.1] ∧ below.result = .ok node)
        (numberedParts 0 children) parts →
      Calls reading root earlier path
        ⟨path,
          ⟨term, reading.locateTree (root.bytesBefore path) (.node kind children), none, parts⟩,
          reading.ruleNode kind
            ⟨term, reading.locateTree (root.bytesBefore path) (.node kind children), none, parts⟩⟩

/-- **Scans.**  After some calls, makers are called at one position after the other, until one of
them fails. -/
inductive Scans (reading : Reading) (root : Tree) :
    List Making → List (List ℕ) → List Making → Prop
  | done {earlier} : Scans reading root earlier [] []
  | made {earlier path paths making makings node} :
      reading.Calls root earlier path making → making.result = .ok node →
      Scans reading root (earlier ++ [making]) paths makings →
      Scans reading root earlier (path :: paths) (making :: makings)
  | failed {earlier path paths making e} :
      reading.Calls root earlier path making → making.result = .error e →
      Scans reading root earlier (path :: paths) [making]

variable {reading : Reading} {root tree : Tree} {trees children : List Tree}
  {earlier makings others : List Making} {making : Making} {path : List ℕ}
  {paths more : List (List ℕ)} {kind : TreeKind} {term : Term} {text : String}
  {depth offset number : ℕ} {step : Recorded α} {next : α → Recorded β} {e : Error}

/-- A call is made at the path of its making. -/
theorem Calls.path_eq (h : reading.Calls root earlier path making) : making.path = path := by
  cases h <;> rfl

/-- Nodes are made of the same parts, if the same nodes were made before. -/
theorem parts_unique {places : List (ℕ × Tree)} {parts parts' : List Part}
    {P : ℕ × Tree → Node → Prop}
    (h : List.Forall₂ (fun place part => reading.term place.2.kind = .ok part.term ∧
      ∀ node, part.node = some node ↔ P place node) places parts)
    (h' : List.Forall₂ (fun place part => reading.term place.2.kind = .ok part.term ∧
      ∀ node, part.node = some node ↔ P place node) places parts') : parts = parts' := by
  induction h generalizing parts' with
  | nil =>
    cases h'
    rfl
  | @cons place part _ _ hpart _ ih =>
    cases h' with
    | @cons _ part' _ _ hpart' hrest =>
      obtain ⟨term, node⟩ := part
      obtain ⟨term', node'⟩ := part'
      obtain rfl : term = term' := Except.ok.inj (hpart.1.symm.trans hpart'.1)
      obtain rfl : node = node' :=
        Option.ext fun n => (hpart.2 n).trans (hpart'.2 n).symm
      rw [ih hrest]

/-- There is one way to call the maker at a position. -/
theorem Calls.unique {making' : Making} (h : reading.Calls root earlier path making)
    (h' : reading.Calls root earlier path making') : making = making' := by
  cases h with
  | token hat hterm hmaker =>
    cases h' with
    | token hat' hterm' hmaker' =>
      obtain ⟨rfl, rfl⟩ := Tree.token.inj (Option.some.inj (hat.symm.trans hat'))
      obtain rfl := Except.ok.inj (hterm.symm.trans hterm')
      obtain rfl := Option.some.inj (hmaker.symm.trans hmaker')
      rfl
    | rule hat' => cases hat.symm.trans hat'
  | rule hat hterm hparts =>
    cases h' with
    | token hat' => cases hat.symm.trans hat'
    | rule hat' hterm' hparts' =>
      obtain ⟨rfl, rfl⟩ := Tree.node.inj (Option.some.inj (hat.symm.trans hat'))
      obtain rfl := Except.ok.inj (hterm.symm.trans hterm')
      obtain rfl := parts_unique hparts hparts'
      rfl

namespace Scans

/-- **There is one scan** of some positions. -/
theorem unique (h : reading.Scans root earlier paths makings)
    (h' : reading.Scans root earlier paths others) : makings = others := by
  induction h generalizing others with
  | done =>
    cases h'
    rfl
  | made hcall hmade _ ih =>
    cases h' with
    | made hcall' _ hrest =>
      obtain rfl := hcall.unique hcall'
      rw [ih hrest]
    | failed hcall' hfailed =>
      obtain rfl := hcall.unique hcall'
      cases hmade.symm.trans hfailed
  | failed hcall hfailed =>
    cases h' with
    | made hcall' hmade =>
      obtain rfl := hcall.unique hcall'
      cases hmade.symm.trans hfailed
    | failed hcall' => rw [hcall.unique hcall']

/-- A scan that comes to its end goes on with more positions. -/
theorem append (h : reading.Scans root earlier paths makings)
    (hmade : ∀ making ∈ makings, ∀ e, making.result ≠ .error e)
    (hmore : reading.Scans root (earlier ++ makings) more others) :
    reading.Scans root earlier (paths ++ more) (makings ++ others) := by
  induction h with
  | done => rwa [List.append_nil] at hmore
  | made hcall hnode _ ih =>
    refine .made hcall hnode (ih (fun m hm => hmade m (List.mem_cons_of_mem _ hm)) ?_)
    rwa [List.append_assoc]
  | failed _ hfailed => exact absurd hfailed (hmade _ List.mem_cons_self _)

/-- A scan that ends with an error is that of more positions, too. -/
theorem append_of_failed (h : reading.Scans root earlier paths makings)
    (hfailed : ∃ making ∈ makings, making.result = .error e) (more : List (List ℕ)) :
    reading.Scans root earlier (paths ++ more) makings := by
  induction h with
  | done =>
    obtain ⟨_, hmaking, _⟩ := hfailed
    exact absurd hmaking List.not_mem_nil
  | @made _ _ _ making _ _ hcall hnode _ ih =>
    refine .made hcall hnode (ih ?_)
    obtain ⟨making', hmaking, herror⟩ := hfailed
    rcases List.mem_cons.mp hmaking with rfl | hmaking
    · cases hnode.symm.trans herror
    · exact ⟨making', hmaking, herror⟩
  | failed hcall herror => exact .failed hcall herror

/-- Calls are made at the first of the positions. -/
theorem path_isPrefix (h : reading.Scans root earlier paths makings) :
    makings.map Making.path <+: paths := by
  induction h with
  | done => exact List.nil_prefix
  | made hcall _ _ ih => exact List.cons_prefix_cons.mpr ⟨hcall.path_eq, ih⟩
  | failed hcall _ => exact List.cons_prefix_cons.mpr ⟨hcall.path_eq, List.nil_prefix⟩

/-- Without a failure, calls are made at all positions. -/
theorem map_path_eq (h : reading.Scans root earlier paths makings)
    (hmade : ∀ making ∈ makings, ∀ e, making.result ≠ .error e) :
    makings.map Making.path = paths := by
  induction h with
  | done => rfl
  | made hcall _ _ ih =>
    rw [List.map_cons, hcall.path_eq, ih fun m hm => hmade m (List.mem_cons_of_mem _ hm)]
  | failed _ hfailed => exact absurd hfailed (hmade _ List.mem_cons_self _)

/-- The call that fails is the last one. -/
theorem eq_append_of_failed (h : reading.Scans root earlier paths makings)
    (hmaking : making ∈ makings) (herror : making.result = .error e) :
    ∃ front, makings = front ++ [making] ∧ ∀ m ∈ front, ∃ node, m.result = .ok node := by
  induction h with
  | done => exact absurd hmaking List.not_mem_nil
  | made _ hnode _ ih =>
    rcases List.mem_cons.mp hmaking with rfl | hmaking
    · cases hnode.symm.trans herror
    · obtain ⟨front, rfl, hfront⟩ := ih hmaking
      exact ⟨_ :: front, rfl, List.forall_mem_cons.mpr ⟨⟨_, hnode⟩, hfront⟩⟩
  | failed =>
    obtain rfl := List.mem_singleton.mp hmaking
    exact ⟨[], rfl, fun _ hm => absurd hm List.not_mem_nil⟩

/-- Where the scan comes to a position, a call was made there in the end, or one before it
failed. -/
theorem exists_of_mem (h : reading.Scans root earlier (paths ++ path :: more) makings) :
    (∃ before making, reading.Calls root before path making ∧ making ∈ makings) ∨
      ∃ making ∈ makings, making.path ∈ paths ∧ ∃ e, making.result = .error e := by
  induction paths generalizing earlier makings with
  | nil =>
    cases h with
    | made hcall => exact Or.inl ⟨_, _, hcall, List.mem_cons_self⟩
    | failed hcall => exact Or.inl ⟨_, _, hcall, List.mem_cons_self⟩
  | cons first paths ih =>
    cases h with
    | made hcall _ hrest =>
      rcases ih hrest with ⟨before, making, hpath, hmaking⟩ | ⟨making, hmaking, hpath, herror⟩
      · exact Or.inl ⟨before, making, hpath, List.mem_cons_of_mem _ hmaking⟩
      · exact Or.inr ⟨making, List.mem_cons_of_mem _ hmaking, List.mem_cons_of_mem _ hpath, herror⟩
    | failed hcall herror =>
      refine Or.inr ⟨_, List.mem_cons_self, ?_, _, herror⟩
      rw [hcall.path_eq]
      exact List.mem_cons_self

end Scans

/-! ## The order of positions -/

mutual

/-- **Postorder.**  Nodes are made below a rule before that of the rule, and from left to right. -/
theorem pairwise_creations (reading : Reading) :
    ∀ tree : Tree, (reading.creations tree).Pairwise Precedes
  | .token kind text => by
    rw [creations]
    split
    · exact List.pairwise_singleton _ _
    · exact .nil
  | .node kind children => by
    rw [creations]
    split
    · exact .nil
    · refine List.pairwise_append.mpr ⟨pairwise_creationsOfAll reading 0 children,
        List.pairwise_singleton _ _, fun path hpath other hother => ?_⟩
      obtain ⟨_, _, _, _, rfl⟩ := mem_creationsOfAll.mp hpath
      obtain rfl := List.mem_singleton.mp hother
      exact .parent

/-- Among the creations each precedes those behind it. -/
theorem pairwise_creationsOfAll (reading : Reading) (number : ℕ) :
    ∀ trees : List Tree, (reading.creationsOfAll number trees).Pairwise Precedes
  | [] => .nil
  | tree :: rest => by
    rw [creationsOfAll]
    split
    · exact pairwise_creationsOfAll reading (number + 1) rest
    · refine List.pairwise_append.mpr
        ⟨List.pairwise_map.mpr ((pairwise_creations reading tree).imp .inside),
          pairwise_creationsOfAll reading (number + 1) rest, fun path hpath other hother => ?_⟩
      obtain ⟨_, _, rfl⟩ := List.mem_map.mp hpath
      obtain ⟨place, hplace, _, _, rfl⟩ := mem_creationsOfAll.mp hother
      exact .left (le_of_mem_numberedParts hplace)

end

/-! ## Steps that scan -/

/-- A step that scans some positions, and fails exactly if one of its calls does. -/
structure ScannedBy (reading : Reading) (root : Tree) (earlier : List Making)
    (paths : List (List ℕ)) (step : Recorded α) : Prop where
  scans : reading.Scans root earlier paths step.makings
  failed : ∀ e, step.result = .error e ↔ ∃ making ∈ step.makings, making.result = .error e

namespace ScannedBy

/-- A value that needs no calls is the end of a scan. -/
theorem quiet (a : α) : reading.ScannedBy root earlier [] (Recorded.quiet (.ok a)) where
  scans := .done
  failed e := by simp [Recorded.quiet]

/-- A step without a failure has none in its calls. -/
theorem not_failed {a : α} (h : reading.ScannedBy root earlier paths step)
    (hresult : step.result = .ok a) : ∀ making ∈ step.makings, ∀ e, making.result ≠ .error e := by
  intro making hmaking e herror
  cases hresult.symm.trans ((h.failed e).mpr ⟨making, hmaking, herror⟩)

/-- One step after the other scans the positions of both. -/
theorem andThen (h : reading.ScannedBy root earlier paths step)
    (hnext : ∀ a, step.result = .ok a →
      reading.ScannedBy root (earlier ++ step.makings) more (next a)) :
    reading.ScannedBy root earlier (paths ++ more) (step.andThen next) := by
  cases hresult : step.result with
  | error e =>
    -- The next step is not taken, and its positions are never come to.
    have hsame : step.andThen next = ⟨step.makings, .error e⟩ := by
      rw [Recorded.andThen, hresult]
    rw [hsame]
    refine ⟨h.scans.append_of_failed ((h.failed e).mp hresult) more, fun e' => ?_⟩
    rw [← h.failed e', hresult]
    simp
  | ok a =>
    have hsame : step.andThen next = ⟨step.makings ++ (next a).makings, (next a).result⟩ := by
      rw [Recorded.andThen, hresult]
    have hmade := h.not_failed hresult
    rw [hsame]
    refine ⟨h.scans.append hmade (hnext a hresult).scans, fun e => ?_⟩
    rw [(hnext a hresult).failed e]
    simp only [List.mem_append, or_and_right, exists_or]
    refine (or_iff_right ?_).symm
    rintro ⟨making, hmaking, herror⟩
    exact hmade making hmaking e herror

/-- A call is a scan of its position. -/
theorem call (h : reading.Calls root earlier path making) :
    reading.ScannedBy root earlier [path] (Recorded.mk [making] making.result) := by
  refine ⟨?_, fun e => by simp⟩
  cases hresult : making.result with
  | ok node => exact .made h hresult .done
  | error e => exact .failed h hresult

end ScannedBy

/-! ## Reading is scanning -/

/-- A token is read by the scan of its position, if it is to be made into a node. -/
theorem scannedBy_recordToken (hat : root.at? path = some (.token kind text))
    (hterm : reading.term kind = .ok term) :
    reading.ScannedBy root earlier ((reading.creations (.token kind text)).map (path ++ ·))
      ((reading.recordToken kind (root.bytesBefore path) text).below path) := by
  rw [recordToken, hterm, Recorded.quiet_andThen, creations, makes, flagged_of_term hterm,
    flagged_of_term hterm]
  cases hdropped : term.flags.has .punctuation || term.flags.has .noNode with
  | true =>
    rw [Bool.or_eq_true] at hdropped
    rw [if_pos rfl, if_neg (by rcases hdropped with hflag | hflag <;> simp [hflag])]
    exact .quiet none
  | false =>
    obtain ⟨hpunctuation, hnode⟩ := Bool.or_eq_false_iff.mp hdropped
    rw [if_neg Bool.false_ne_true, hpunctuation, hnode]
    cases hmaker : reading.maker? kind with
    | none => exact .quiet none
    | some maker =>
      have hcall : reading.ScannedBy root earlier [path] _ := .call (.token hat hterm hmaker)
      rw [Recorded.below_andThen, Recorded.below_call]
      simpa using hcall.andThen fun node _ => ScannedBy.quiet (some node)

/-- If no call was made below a path yet, then the nodes that are found there are those which the
parts of the rule have. -/
theorem forall₂_of_recordParts {parts : List Part}
    (hearlier : ∀ making ∈ earlier, ¬ path <+: making.path)
    (h : (reading.recordParts depth offset 0 children).result = .ok parts) :
    List.Forall₂ (fun place part => reading.term place.2.kind = .ok part.term ∧
        ∀ node, part.node = some node ↔
          ∃ below ∈ earlier ++ ((reading.recordParts depth offset 0 children).below path).makings,
            below.path = path ++ [place.1] ∧ below.result = .ok node)
      (numberedParts 0 children) parts := by
  obtain ⟨hrows, _⟩ := forall₂_recordParts h
  refine hrows.imp ?_
  rintro place part ⟨hterm, offset', hread, hunder⟩
  refine ⟨hterm, fun node => ?_⟩
  rw [made_eq_some_iff hread, ← exists_under_iff hunder]
  constructor
  · rintro ⟨making, hmaking, hpath, hresult⟩
    refine ⟨making.below path, List.mem_append_right _ (List.mem_map_of_mem hmaking), ?_, hresult⟩
    rw [Making.below, hpath]
  · rintro ⟨below, hbelow, hpath, hresult⟩
    rcases List.mem_append.mp hbelow with hbelow | hbelow
    · -- Earlier calls are elsewhere in the tree.
      refine absurd ?_ (hearlier below hbelow)
      rw [hpath]
      exact List.prefix_append _ _
    · obtain ⟨making, hmaking, rfl⟩ := List.mem_map.mp hbelow
      exact ⟨making, hmaking, List.append_cancel_left hpath, hresult⟩

/-- If each of the trees below a rule is read by a scan, then so are all of them, from the first one
that is left on. -/
theorem scannedBy_recordParts (front : List Tree)
    (hnames : ∀ tree ∈ trees, reading.language.Names tree)
    (hread : ∀ tree ∈ trees, tree.isTrivia = false → ∀ number earlier,
      root.at? (path ++ [number]) = some tree →
      (∀ making ∈ earlier, ¬ path ++ [number] <+: making.path) →
      reading.ScannedBy root earlier ((reading.creations tree).map (path ++ [number] ++ ·))
        ((reading.record depth (root.bytesBefore (path ++ [number])) tree).below
          (path ++ [number])))
    (hat : root.at? path = some (.node kind (front ++ trees)))
    (hearlier : ∀ making ∈ earlier, ∀ number, front.length ≤ number →
      ¬ path ++ [number] <+: making.path) :
    reading.ScannedBy root earlier
      ((reading.creationsOfAll front.length trees).map (path ++ ·))
      ((reading.recordParts depth (root.bytesBefore path + byteLengthOfAll front) front.length
        trees).below path) := by
  induction trees generalizing front earlier with
  | nil =>
    rw [recordParts, creationsOfAll]
    exact .quiet []
  | cons tree rest ih =>
    have hlength : (front ++ [tree]).length = front.length + 1 := List.length_append
    have hsize : root.bytesBefore path + byteLengthOfAll (front ++ [tree]) =
        root.bytesBefore path + byteLengthOfAll front + tree.byteLength := by
      rw [byteLengthOfAll_append, byteLengthOfAll, byteLengthOfAll, Nat.add_zero, Nat.add_assoc]
    -- What is left behind the tree is scanned after any calls above and before it.
    have hrest : ∀ earlier : List Making, (∀ making ∈ earlier, ∀ number,
        front.length + 1 ≤ number → ¬ path ++ [number] <+: making.path) →
        reading.ScannedBy root earlier
          ((reading.creationsOfAll (front.length + 1) rest).map (path ++ ·))
          ((reading.recordParts depth
            (root.bytesBefore path + byteLengthOfAll front + tree.byteLength) (front.length + 1)
            rest).below path) := by
      intro earlier hearlier
      rw [← hlength, ← hsize]
      refine ih (front ++ [tree]) (fun t ht => hnames t (List.mem_cons_of_mem _ ht))
        (fun t ht => hread t (List.mem_cons_of_mem _ ht)) ?_ ?_
      · rw [List.append_assoc]
        exact hat
      · rw [hlength]
        exact hearlier
    cases htrivia : tree.isTrivia with
    | true =>
      rw [recordParts, if_pos htrivia, creationsOfAll, if_pos htrivia]
      exact hrest earlier fun making hmaking number hle =>
        hearlier making hmaking number (Nat.le_of_succ_le hle)
    | false =>
      obtain ⟨term, hterm⟩ := term_of_names (hnames tree List.mem_cons_self) htrivia
      have hchild : root.at? (path ++ [front.length]) = some tree := by
        rw [at?_concat hat]
        simp
      have hoffset : root.bytesBefore (path ++ [front.length]) =
          root.bytesBefore path + byteLengthOfAll front := by
        rw [bytesBefore_concat hat, List.take_left]
      have hfirst := hread tree List.mem_cons_self htrivia front.length earlier hchild
        fun making hmaking => hearlier making hmaking _ (Nat.le_refl _)
      rw [hoffset] at hfirst
      rw [recordParts, if_neg (Bool.eq_false_iff.mp htrivia), hterm, Recorded.quiet_andThen,
        creationsOfAll, if_neg (Bool.eq_false_iff.mp htrivia), List.map_append, List.map_map,
        Recorded.below_andThen, Recorded.below_under]
      have hpaths : (reading.creations tree).map ((path ++ ·) ∘ (front.length :: ·)) =
          (reading.creations tree).map (path ++ [front.length] ++ ·) :=
        List.map_congr_left fun inner _ => by simp
      rw [hpaths]
      refine hfirst.andThen fun made _ => ?_
      rw [Recorded.below_andThen]
      have hbehind := hrest
        (earlier ++ ((reading.record depth (root.bytesBefore path + byteLengthOfAll front)
          tree).below (path ++ [front.length])).makings) ?_
      · simpa using hbehind.andThen fun others _ => ScannedBy.quiet (⟨term, made⟩ :: others)
      · -- The calls in the tree are not below any of the trees behind it.
        intro making hmaking number hle hprefix
        rcases List.mem_append.mp hmaking with hmaking | hmaking
        · exact hearlier making hmaking number (Nat.le_of_succ_le hle) hprefix
        · obtain ⟨inner, _, rfl⟩ := List.mem_map.mp hmaking
          have hsame : path ++ [number] <+: path ++ front.length :: inner.path := by
            simpa [Making.below] using hprefix
          obtain ⟨rfl, _⟩ :=
            List.cons_prefix_cons.mp ((List.prefix_append_right_inj path).mp hsame)
          omega

/-- **Reading is scanning.**  A tree that is not too high, and all parts of which have terms, is
read by the scan of the positions at which nodes are made in it. -/
theorem scannedBy_record (hnames : reading.language.Names tree) (htrivia : tree.isTrivia = false)
    (hheight : depth + tree.height ≤ nestingLimit + 1) (hat : root.at? path = some tree)
    (hearlier : ∀ making ∈ earlier, ¬ path <+: making.path) :
    reading.ScannedBy root earlier ((reading.creations tree).map (path ++ ·))
      ((reading.record depth (root.bytesBefore path) tree).below path) := by
  induction tree generalizing path depth earlier with
  | token kind text =>
    obtain ⟨term, hterm⟩ := term_of_names hnames htrivia
    rw [record]
    exact scannedBy_recordToken hat hterm
  | node kind children ih =>
    obtain ⟨term, hterm⟩ := term_of_names hnames htrivia
    rw [Tree.kind] at hterm
    have hchildren : ∀ child ∈ children, reading.language.Names child := by
      cases hnames with
      | node _ hchildren => exact hchildren
    rw [record, hterm, Recorded.quiet_andThen, creations, flagged_of_term hterm]
    cases hnode : term.flags.has .noNode with
    | true => exact .quiet none
    | false =>
      -- There is a node here, so the depth alone cannot exceed the limit.
      have hdepth : ¬ nestingLimit < depth := by
        rw [height] at hheight
        omega
      rw [if_neg Bool.false_ne_true, if_neg Bool.false_ne_true, if_neg hdepth, List.map_append,
        Recorded.below_andThen]
      have hbelow : reading.ScannedBy root earlier
          ((reading.creationsOfAll 0 children).map (path ++ ·))
          ((reading.recordParts (depth + 1) (root.bytesBefore path) 0 children).below path) := by
        refine scannedBy_recordParts [] hchildren ?_ hat fun making hmaking number _ hprefix =>
          hearlier making hmaking ((List.prefix_append _ _).trans hprefix)
        intro child hchild hshown number earlier hpath hearlier
        have hlt := height_lt_of_mem kind hchild
        exact ih child hchild (hchildren child hchild) hshown (by omega) hpath hearlier
      refine hbelow.andThen fun parts hparts => ?_
      have hcall := ScannedBy.call (.rule hat hterm (forall₂_of_recordParts hearlier hparts))
      rw [Recorded.below_andThen, Recorded.below_call]
      simpa [ruleNode] using hcall.andThen fun node _ => ScannedBy.quiet (some node)

end Reading

end TypedGrammar
