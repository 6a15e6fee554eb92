import TypedGrammar.Proofs.OrderedChoice.Documents

/-!
# Derivations

What shapes may turn a text into, without the order in which alternatives are tried: a choice is
any of its alternatives, and a repetition goes on as often as one likes.  Every match of the engine
is a derivation, so what holds of all derivations holds of all trees.  Rules that are open at the
same time are counted here as well.
-/

namespace TypedGrammar

namespace Shape

/-! ## What shapes stand for -/

/-- A shape stands for some shapes, one after the other.  A term stands for nothing but itself. -/
inductive Unfolds : Shape → List Shape → Prop
  | empty : Unfolds .empty []
  | hint {h} : Unfolds (.hint h) []
  | sequence {items} : Unfolds (.sequence items) items
  /-- A choice without alternatives stands for nothing. -/
  | noAlternative : Unfolds (.choice []) []
  | alternative {alternatives shape} : shape ∈ alternatives → Unfolds (.choice alternatives) [shape]
  | noItem {item bounds} : bounds.allowEmpty = true → Unfolds (.repeated item bounds) []
  | repeated {item bounds} (n : ℕ) :
      Unfolds (.repeated item bounds) (item :: List.replicate n item)
  | noneSeparated {item delimiter bounds} :
      bounds.allowEmpty = true → Unfolds (.separated item delimiter bounds) []
  | separated {item delimiter bounds} (n : ℕ) :
      Unfolds (.separated item delimiter bounds)
        (item :: (List.replicate n [delimiter, item]).flatten)
  | trailing {item delimiter bounds} (n : ℕ) :
      bounds.allowTrailing = true →
      Unfolds (.separated item delimiter bounds)
        (item :: (List.replicate n [delimiter, item]).flatten ++ [delimiter])

end Shape

/-- What is skipped is a token of trivia, if it is anything. -/
theorem skipped_cases (start stop : Cursor) :
    skipped start stop = [] ∨ ∃ text, skipped start stop = [.token .trivia text] := by
  unfold skipped
  split
  · exact Or.inr ⟨_, rfl⟩
  · exact Or.inl rfl

theorem mem_skipped {start stop : Cursor} {tree : Tree} (h : tree ∈ skipped start stop) :
    ∃ text, tree = .token .trivia text := by
  rcases skipped_cases start stop with hnone | ⟨text, hone⟩
  · rw [hnone] at h
    cases h
  · rw [hone] at h
    exact ⟨text, List.mem_singleton.mp h⟩

namespace Language

open Matcher Shape

/-! ## Derivations -/

/-- **Derivations.**  With room for so many open rules, some shapes, one after the other, may turn
the text between two places into trees. -/
inductive Derives (language : Language) :
    ℕ → List Shape → Cursor → List Tree → Cursor → Prop
  | done {room start} : Derives language room [] start [] start
  | unfold {room shape shapes rest start trees stop} :
      shape.Unfolds shapes →
      Derives language room (shapes ++ rest) start trees stop →
      Derives language room (shape :: rest) start trees stop
  /-- A terminal is the trivia before it and its token. -/
  | token {room index term token text rest start middle after trees stop} :
      language.term? index = some term →
      tokenText? language.lexicon term.kind = some token →
      Skips language.comments start middle → token.Takes middle text after →
      Derives language room rest after trees stop →
      Derives language room (.term index :: rest) start
        (skipped start middle ++ .token (.term index) text :: trees) stop
  /-- A rule is open while its shape is turned into trees. -/
  | rule {room index term shape rest start children middle trees stop} :
      language.Defines index term shape →
      Derives language room [shape] start children middle →
      Derives language (room + 1) rest middle trees stop →
      Derives language (room + 1) (.term index :: rest) start
        (ruleTrees index term children ++ trees) stop

variable {language : Language} {room : ℕ} {start middle stop : Cursor} {trees more : List Tree}
  {shape item delimiter : Shape} {shapes shapes' : List Shape}

/-- Derivations that follow each other are joined. -/
theorem Derives.append (h : language.Derives room shapes start trees middle)
    (h' : language.Derives room shapes' middle more stop) :
    language.Derives room (shapes ++ shapes') start (trees ++ more) stop := by
  induction h with
  | done => exact h'
  | unfold hunfolds _ ih =>
    have hrest := ih h'
    rw [List.append_assoc] at hrest
    exact .unfold hunfolds hrest
  | token hterm htoken hskips htext _ ih =>
    rw [List.append_assoc, List.cons_append]
    exact .token hterm htoken hskips htext (ih h')
  | rule hdef hchildren _ _ ih =>
    rw [List.append_assoc]
    exact .rule hdef hchildren (ih h')

/-- A shape is derived by what it stands for. -/
theorem Derives.single (hunfolds : shape.Unfolds shapes)
    (h : language.Derives room shapes start trees stop) :
    language.Derives room [shape] start trees stop := by
  have hrest : language.Derives room (shapes ++ []) start trees stop := by rwa [List.append_nil]
  exact .unfold hunfolds hrest

/-- A derivation of shapes that follow each other is split between them. -/
theorem Derives.of_append (h : language.Derives room (shapes ++ shapes') start trees stop) :
    ∃ first middle more, language.Derives room shapes start first middle ∧
      language.Derives room shapes' middle more stop ∧ trees = first ++ more := by
  generalize hall : shapes ++ shapes' = all at h
  induction h generalizing shapes with
  | done =>
    obtain ⟨rfl, rfl⟩ := List.append_eq_nil_iff.mp hall
    exact ⟨[], _, [], .done, .done, rfl⟩
  | @unfold _ shape unfolded rest _ _ _ hunfolds hrest ih =>
    rcases List.append_eq_cons_iff.mp hall with ⟨rfl, rfl⟩ | ⟨shapes, rfl, rfl⟩
    · exact ⟨[], _, _, .done, .unfold hunfolds hrest, rfl⟩
    · obtain ⟨first, middle, more, hfirst, hmore, rfl⟩ := ih (List.append_assoc unfolded shapes _)
      exact ⟨first, middle, more, .unfold hunfolds hfirst, hmore, rfl⟩
  | token hterm htoken hskips htext hrest ih =>
    rcases List.append_eq_cons_iff.mp hall with ⟨rfl, rfl⟩ | ⟨shapes, rfl, rfl⟩
    · exact ⟨[], _, _, .done, .token hterm htoken hskips htext hrest, rfl⟩
    · obtain ⟨first, middle, more, hfirst, hmore, rfl⟩ := ih rfl
      refine ⟨_, middle, more, .token hterm htoken hskips htext hfirst, hmore, ?_⟩
      rw [List.append_assoc, List.cons_append]
  | rule hdef hchildren hrest _ ih =>
    rcases List.append_eq_cons_iff.mp hall with ⟨rfl, rfl⟩ | ⟨shapes, rfl, rfl⟩
    · exact ⟨[], _, _, .done, .rule hdef hchildren hrest, rfl⟩
    · obtain ⟨first, middle, more, hfirst, hmore, rfl⟩ := ih rfl
      refine ⟨_, middle, more, .rule hdef hchildren hfirst, hmore, ?_⟩
      rw [List.append_assoc]

/-- A term that is derived alone is a token, or a rule that makes its trees of what its shape
derives. -/
theorem Derives.of_term {index : TermIndex}
    (h : language.Derives room [.term index] start trees stop) :
    (∃ term token text middle, language.term? index = some term ∧
        tokenText? language.lexicon term.kind = some token ∧ token.Takes middle text stop ∧
          trees = skipped start middle ++ [.token (.term index) text]) ∨
      ∃ term shape below children, room = below + 1 ∧ language.Defines index term shape ∧
        language.Derives below [shape] start children stop ∧
          trees = ruleTrees index term children := by
  cases h with
  | unfold hunfolds _ => cases hunfolds
  | token hterm htoken _ htext hrest =>
    cases hrest with
    | done => exact Or.inl ⟨_, _, _, _, hterm, htoken, htext, rfl⟩
  | rule hdef hchildren hrest =>
    cases hrest with
    | done => exact Or.inr ⟨_, _, _, _, rfl, hdef, hchildren, List.append_nil _⟩

/-- The term of a rule is derived only if the rule has a shape, by what its shape derives. -/
theorem Derives.of_ruleTerm {index : TermIndex} {term : Term} {shape? : Option Shape}
    (hterm : language.term? index = some term) (hkind : term.kind = .rule shape?)
    (h : language.Derives room [.term index] start trees stop) :
    ∃ shape below children, shape? = some shape ∧ room = below + 1 ∧
      language.Derives below [shape] start children stop ∧
        trees = ruleTrees index term children := by
  rcases h.of_term with
    ⟨term', token, text, middle, hterm', htoken, _, _⟩ |
    ⟨term', shape, below, children, hroom, hdef, hchildren, htrees⟩
  · obtain rfl := Option.some.inj (hterm.symm.trans hterm')
    rw [hkind] at htoken
    cases htoken
  · obtain rfl := Option.some.inj (hterm.symm.trans hdef.1)
    have hshape := hkind.symm.trans hdef.2
    injection hshape with hshape
    exact ⟨shape, below, children, hshape, hroom, hchildren, htrees⟩

/-- A rule that is derived alone makes its trees of what its shape derives. -/
theorem Derives.of_rule {index : TermIndex} {term : Term} (hdef : language.Defines index term shape)
    (h : language.Derives room [.term index] start trees stop) :
    ∃ below children, room = below + 1 ∧ language.Derives below [shape] start children stop ∧
      trees = ruleTrees index term children := by
  obtain ⟨shape', below, children, hshape, hroom, hchildren, htrees⟩ := h.of_ruleTerm hdef.1 hdef.2
  obtain rfl := Option.some.inj hshape
  exact ⟨below, children, hroom, hchildren, htrees⟩

/-- **Induction over derived trees.**  What holds of trivia, of the tokens of terms and of the nodes
of rules holds of every tree that is derived.  It may depend on the room for open rules, if more
room does no harm. -/
theorem Derives.each {P : ℕ → Tree → Prop} (hmore : ∀ room tree, P room tree → P (room + 1) tree)
    (htrivia : ∀ room text, P room (.token .trivia text))
    (htoken : ∀ room index term token start text stop, language.term? index = some term →
      tokenText? language.lexicon term.kind = some token → token.Takes start text stop →
      P room (.token (.term index) text))
    (hnode : ∀ room index term shape start children stop, language.Defines index term shape →
      term.flags.has .transient = false → language.Derives room [shape] start children stop →
      (∀ child ∈ children, P room child) → P (room + 1) (.node (.term index) children))
    (h : language.Derives room shapes start trees stop) : ∀ tree ∈ trees, P room tree := by
  induction h with
  | done => exact fun tree htree => absurd htree List.not_mem_nil
  | unfold _ _ ih => exact ih
  | token hterm hmatcher _ htext _ ih =>
    intro tree htree
    rcases List.mem_append.mp htree with htree | htree
    · obtain ⟨text, rfl⟩ := mem_skipped htree
      exact htrivia _ text
    · rcases List.mem_cons.mp htree with rfl | htree
      · exact htoken _ _ _ _ _ _ _ hterm hmatcher htext
      · exact ih tree htree
  | rule hdef hchildren _ ihChildren ihRest =>
    intro tree htree
    rcases List.mem_append.mp htree with htree | htree
    · rw [ruleTrees] at htree
      split at htree
      · exact hmore _ _ (ihChildren tree htree)
      · next htransient =>
        rw [List.mem_singleton.mp htree]
        exact hnode _ _ _ _ _ _ _ hdef (Bool.eq_false_iff.mpr htransient) hchildren ihChildren
    · exact ihRest tree htree

/-- The children of a node are what the shape of its rule derives. -/
theorem Derives.exists_of_node {index : TermIndex} {children : List Tree}
    (h : language.Derives room shapes start trees stop)
    (hmem : .node (.term index) children ∈ trees) :
    ∃ below term shape start stop, language.Defines index term shape ∧
      language.Derives below [shape] start children stop := by
  refine h.each (P := fun _ tree => ∀ index children, tree = .node (.term index) children →
    ∃ below term shape start stop, language.Defines index term shape ∧
      language.Derives below [shape] start children stop) ?_ ?_ ?_ ?_ _ hmem index children rfl
  · exact fun _ _ h => h
  · exact fun _ _ _ _ htree => by cases htree
  · exact fun _ _ _ _ _ _ _ _ _ _ _ _ htree => by cases htree
  · intro room index term shape start children stop hdef _ hchildren _ _ _ htree
    cases htree
    exact ⟨room, term, shape, start, stop, hdef, hchildren⟩

/-! ## From the engine to derivations -/

/-- Some shapes account for a task if they derive whatever its matcher takes. -/
def Accounts (language : Language) (room : ℕ) (task : Task) (shapes : List Shape) : Prop :=
  ∀ start trees stop, (language.taskMatcher room task).Takes start trees stop →
    language.Derives room shapes start trees stop

theorem accounts_all
    (h : ∀ shape ∈ shapes, language.Accounts room (.shape shape) [shape]) :
    language.Accounts room (.all shapes) shapes := by
  induction shapes with
  | nil =>
    intro start trees stop htakes
    rw [taskMatcher, matchAll_nil] at htakes
    obtain ⟨rfl, rfl⟩ := takes_succeed.mp htakes
    exact .done
  | cons shape rest ih =>
    intro start trees stop htakes
    obtain ⟨found, middle, more, hfound, hmore, rfl⟩ := takes_matchAll_cons.mp htakes
    have hhead := h shape List.mem_cons_self start found middle hfound
    have hrest := ih (fun s hs => h s (List.mem_cons_of_mem _ hs)) middle more stop hmore
    exact hhead.append hrest

/-- What a choice takes is what one of its alternatives takes. -/
theorem takes_alternative
    (h : (language.taskMatcher room (.first shape shapes)).Takes start trees stop) :
    ∃ alternative ∈ shape :: shapes,
      (language.taskMatcher room (.shape alternative)).Takes start trees stop := by
  induction shapes generalizing shape with
  | nil =>
    rw [taskMatcher, matchFirst] at h
    exact ⟨shape, List.mem_cons_self, h⟩
  | cons next others ih =>
    rw [taskMatcher, matchFirst_cons_cons] at h
    rcases takes_orElse.mp h with h | ⟨_, h⟩
    · exact ⟨shape, List.mem_cons_self, h⟩
    · obtain ⟨alternative, hmem, h⟩ := ih h
      exact ⟨alternative, List.mem_cons_of_mem _ hmem, h⟩

/-- If some shapes account for a pair, then a row of pairs is derived by these shapes, as often as
there are pairs. -/
theorem Accounts.pairs (hpair : language.Accounts room (.all [delimiter, item]) shapes)
    (h : (language.taskMatcher room (.pairs item delimiter)).Takes start trees stop) :
    ∃ n, language.Derives room (List.replicate n shapes).flatten start trees stop := by
  -- The induction is on the text that remains: each pair takes some of it.
  induction hn : start.remaining using Nat.strongRecOn generalizing start trees with
  | ind n ih =>
    rcases takes_pairs.mp h with ⟨_, rfl, rfl⟩ | ⟨found, middle, more, hfound, hlt, hmore, rfl⟩
    · exact ⟨0, .done⟩
    · obtain ⟨m, hrest⟩ := ih _ (hn ▸ hlt) hmore rfl
      refine ⟨m + 1, ?_⟩
      rw [List.replicate_succ, List.flatten_cons]
      exact (hpair start found middle hfound).append hrest

theorem accounts_repeated {bounds : Bounds} (hitem : language.Accounts room (.shape item) [item]) :
    language.Accounts room (.shape (.repeated item bounds)) [.repeated item bounds] := by
  -- Without a delimiter, a pair is just another item.
  have hpair : language.Accounts room (.all [.empty, item]) [item] := by
    intro start trees stop h
    obtain ⟨between, middle, found, hbetween, hfound, rfl⟩ :=
      takes_matchPair.mp (takes_matchAll_pair.mp h)
    rw [matcher] at hbetween
    obtain ⟨rfl, rfl⟩ := takes_succeed.mp hbetween
    exact hitem _ _ _ hfound
  intro start trees stop h
  rw [taskMatcher_repeated] at h
  rcases takes_matchOrNothing.mp h with h | ⟨hallowed, _, rfl, rfl⟩
  · obtain ⟨found, middle, more, hfound, hmore, rfl⟩ := takes_items.mp h
    obtain ⟨n, hrest⟩ := hpair.pairs hmore
    rw [List.flatten_replicate_singleton] at hrest
    exact .single (.repeated n) ((hitem _ _ _ hfound).append hrest)
  · exact .single (.noItem hallowed) .done

theorem accounts_separated {bounds : Bounds}
    (hitem : language.Accounts room (.shape item) [item])
    (hdelimiter : language.Accounts room (.shape delimiter) [delimiter]) :
    language.Accounts room (.shape (.separated item delimiter bounds))
      [.separated item delimiter bounds] := by
  have hpair : language.Accounts room (.all [delimiter, item]) [delimiter, item] := by
    refine accounts_all fun shape hshape => ?_
    simp only [List.mem_cons, List.not_mem_nil, or_false] at hshape
    rcases hshape with rfl | rfl
    · exact hdelimiter
    · exact hitem
  have hitems : ∀ start trees stop,
      (language.taskMatcher room (.items item delimiter false)).Takes start trees stop →
      ∃ n, language.Derives room (item :: (List.replicate n [delimiter, item]).flatten) start trees
        stop := by
    intro start trees stop h
    obtain ⟨found, middle, more, hfound, hmore, rfl⟩ := takes_items.mp h
    obtain ⟨n, hrest⟩ := hpair.pairs hmore
    exact ⟨n, (hitem _ _ _ hfound).append hrest⟩
  intro start trees stop h
  rw [taskMatcher_separated] at h
  rcases takes_matchOrNothing.mp h with h | ⟨hallowed, _, rfl, rfl⟩
  · cases htrailing : bounds.allowTrailing with
    | false =>
      rw [htrailing] at h
      obtain ⟨n, h⟩ := hitems _ _ _ h
      exact .single (.separated n) h
    | true =>
      rw [htrailing] at h
      obtain ⟨found, middle, hfound, h⟩ := takes_items_trailing.mp h
      obtain ⟨n, hfound⟩ := hitems _ _ _ hfound
      -- A last delimiter may stand behind the items.
      rcases h with ⟨last, hlast, rfl⟩ | ⟨_, rfl, rfl⟩
      · exact .single (.trailing n htrailing) (hfound.append (hdelimiter _ _ _ hlast))
      · exact .single (.separated n) hfound
  · exact .single (.noneSeparated hallowed) .done

/-- A shape accounts for itself if the terms do. -/
theorem accounts_shape (hterm : ∀ index, language.Accounts room (.term index) [.term index])
    (shape : Shape) : language.Accounts room (.shape shape) [shape] := by
  induction shape with
  | empty =>
    intro start trees stop h
    rw [taskMatcher, matcher] at h
    obtain ⟨rfl, rfl⟩ := takes_succeed.mp h
    exact .single .empty .done
  | hint hint =>
    intro start trees stop h
    rw [taskMatcher, matcher] at h
    obtain ⟨rfl, rfl⟩ := takes_succeed.mp h
    exact .single .hint .done
  | term index =>
    intro start trees stop h
    rw [taskMatcher, matcher] at h
    exact hterm index _ _ _ h
  | sequence items ih =>
    intro start trees stop h
    rw [taskMatcher, matcher] at h
    exact .single .sequence (accounts_all ih _ _ _ h)
  | choice alternatives ih =>
    intro start trees stop h
    rw [taskMatcher, matcher] at h
    cases alternatives with
    | nil =>
      rw [matchFirst] at h
      obtain ⟨rfl, rfl⟩ := takes_succeed.mp h
      exact .single .noAlternative .done
    | cons shape others =>
      obtain ⟨alternative, hmem, h⟩ := takes_alternative h
      exact .single (.alternative hmem) (ih alternative hmem _ _ _ h)
  | repeated item bounds ihItem => exact accounts_repeated ihItem
  | separated item delimiter bounds ihItem ihDelimiter =>
    exact accounts_separated ihItem ihDelimiter

/-- A term accounts for itself if the shapes of rules do, with room for one rule less. -/
theorem accounts_term
    (hshape : ∀ below, room = below + 1 → ∀ shape, language.Accounts below (.shape shape) [shape])
    (index : TermIndex) : language.Accounts room (.term index) [.term index] := by
  intro start trees stop h
  rcases language.taskMatcher_term room index with
    ⟨message, hmatcher, _⟩ | ⟨term, token, hterm, htoken, hmatcher⟩ | ⟨term, shape, hdef, hmatcher⟩
  · rw [hmatcher] at h
    exact absurd h takes_fail
  · rw [hmatcher] at h
    obtain ⟨middle, text, hskips, htext, rfl⟩ := takes_terminal.mp h
    exact .token hterm htoken hskips htext .done
  · cases room with
    | zero =>
      rw [hmatcher] at h
      exact absurd h takes_fail
    | succ below =>
      rw [hmatcher] at h
      obtain ⟨children, middle, hchildren, h⟩ := takes_andThen.mp h
      obtain ⟨rfl, rfl⟩ := takes_succeed.mp h
      have hrule := Derives.rule hdef (hshape below rfl shape _ _ _ hchildren) .done
      rwa [List.append_nil] at hrule

/-- **Matches are derivations.**  What the engine takes for a shape is derived by it, with the same
room for open rules. -/
theorem accounts (language : Language) (room : ℕ) (shape : Shape) :
    language.Accounts room (.shape shape) [shape] := by
  induction room generalizing shape with
  | zero =>
    refine accounts_shape (accounts_term fun below h => ?_) shape
    exact absurd h (Nat.succ_ne_zero below).symm
  | succ below ih =>
    refine accounts_shape (accounts_term fun below' h => ?_) shape
    obtain rfl := Nat.succ.inj h
    exact ih

/-- The tree of a parse is what the root derives, the trivia behind it, and nothing else. -/
theorem derives_of_parse? {text : String} {parse : Parse} {tree : Tree}
    (h : language.parse? text = some parse) (htree : parse.tree = some tree) :
    ∃ trees middle stop,
      language.Derives nestingLimit [.term language.root] (Cursor.start text.toList) trees middle ∧
        Skips language.comments middle stop ∧ stop.rest = [] ∧
        tree = .node .document (trees ++ skipped middle stop) := by
  rcases parse?_eq_some_iff.mp h with ⟨tree', stop, htakes, rfl⟩ | ⟨failure, _, rfl⟩
  · obtain rfl := Option.some.inj htree
    obtain ⟨trees, middle, htrees, hskips, hrest, rfl⟩ := takes_matchDocument.mp htakes
    -- The matcher of a term is that of the shape of just this term.
    have hroot : (language.taskMatcher nestingLimit (.shape (.term language.root))).Takes
        (Cursor.start text.toList) trees middle := by
      rwa [taskMatcher, matcher]
    exact ⟨trees, middle, stop, language.accounts nestingLimit _ _ _ _ hroot, hskips, hrest, rfl⟩
  · cases htree

/-- If the root is a rule and not transient, then its node is the first tree of the document, and
only trivia follows. -/
theorem document_of_parse? {text : String} {parse : Parse} {tree : Tree} {term : Term}
    (hdef : language.Defines language.root term shape) (hnode : term.flags.has .transient = false)
    (h : language.parse? text = some parse) (htree : parse.tree = some tree) :
    ∃ below children middle stop, nestingLimit = below + 1 ∧
      language.Derives below [shape] (Cursor.start text.toList) children middle ∧
        tree = .node .document (.node (.term language.root) children :: skipped middle stop) := by
  obtain ⟨trees, middle, stop, htrees, _, _, rfl⟩ := derives_of_parse? h htree
  obtain ⟨below, children, hroom, hchildren, rfl⟩ := htrees.of_rule hdef
  rw [ruleTrees, if_neg (Bool.eq_false_iff.mp hnode)]
  exact ⟨below, children, middle, stop, hroom, hchildren, rfl⟩

end Language

end TypedGrammar
