import Mathlib.Order.Basic
import TypedGrammar.Matching.Matcher

/-!
# The order of cursors

A cursor lies before another if moving over some characters of the text leads from the one to the
other.  This is a partial order: two cursors that lie before each other are the same.  The text
between two cursors is what a token consists of; where at least one character is taken, it is also
the text of the span that a matcher reports.
-/

namespace TypedGrammar

namespace Cursor

/-- Moving over the characters `taken` leads from `start` to `stop`. -/
def Spans (start stop : Cursor) (taken : List Char) : Prop :=
  start.rest = taken ++ stop.rest ∧ stop.index = start.index + taken.length

/-- A cursor is determined by its index and the characters that remain. -/
theorem eq_of_index_rest {a b : Cursor} (hindex : a.index = b.index) (hrest : a.rest = b.rest) :
    a = b := by
  obtain ⟨i, r, n, hn⟩ := a
  obtain ⟨j, s, m, hm⟩ := b
  simp only at hindex hrest
  subst hindex hrest hn hm
  rfl

theorem spans_nil (start : Cursor) : start.Spans start [] :=
  ⟨rfl, rfl⟩

/-- Spans that follow each other are joined. -/
theorem Spans.append {start middle stop : Cursor} {cs ds : List Char} (h : start.Spans middle cs)
    (h' : middle.Spans stop ds) : start.Spans stop (cs ++ ds) := by
  refine ⟨?_, ?_⟩
  · rw [h.1, h'.1, List.append_assoc]
  · rw [h'.2, h.2, List.length_append, Nat.add_assoc]

/-- A span of nothing leads nowhere. -/
theorem Spans.eq_of_nil {start stop : Cursor} (h : start.Spans stop []) : stop = start :=
  eq_of_index_rest h.2 h.1.symm

/-- Where a span of given characters ends is determined by where it begins. -/
theorem Spans.unique {start stop stop' : Cursor} {taken : List Char} (h : start.Spans stop taken)
    (h' : start.Spans stop' taken) : stop = stop' :=
  eq_of_index_rest (h.2.trans h'.2.symm) (List.append_cancel_left (h.1.symm.trans h'.1))

/-- The characters of a span are as many as its indices say. -/
theorem Spans.taken_eq {start stop : Cursor} {taken : List Char} (h : start.Spans stop taken) :
    start.rest.take (stop.index - start.index) = taken := by
  have hlen : stop.index - start.index = taken.length := by
    rw [h.2, Nat.add_sub_cancel_left]
  rw [hlen, h.1, List.take_left]

/-- The next character is a span to the place after it. -/
theorem spans_of_next? {cursor next : Cursor} {c : Char} (h : cursor.next? = some (c, next)) :
    cursor.Spans next [c] := by
  obtain ⟨index, rest, remaining, eq⟩ := cursor
  cases rest with
  | nil => simp [next?] at h
  | cons d rest =>
    simp only [next?, Option.some.injEq, Prod.mk.injEq] at h
    obtain ⟨rfl, rfl⟩ := h
    exact ⟨rfl, rfl⟩

/-- There is a next character wherever characters remain. -/
theorem next?_of_rest {cursor : Cursor} {c : Char} {cs : List Char} (h : cursor.rest = c :: cs) :
    ∃ next, cursor.next? = some (c, next) ∧ cursor.Spans next [c] := by
  obtain ⟨index, rest, remaining, eq⟩ := cursor
  cases h
  exact ⟨_, rfl, rfl, rfl⟩

/-- A span of several characters goes on behind the first one. -/
theorem Spans.exists_next {start stop : Cursor} {c : Char} {cs : List Char}
    (h : start.Spans stop (c :: cs)) :
    ∃ next, start.next? = some (c, next) ∧ next.Spans stop cs := by
  obtain ⟨next, hnext, hfirst⟩ := next?_of_rest h.1
  have hrest := hfirst.1.symm.trans h.1
  have hindex := hfirst.2
  have hindex' := h.2
  simp only [List.length_cons, List.length_nil] at hindex hindex'
  exact ⟨next, hnext, List.append_cancel_left hrest, by omega⟩

/-- Behind the characters that stand at a place there is a place. -/
theorem exists_spans {start : Cursor} {taken rest : List Char} (h : start.rest = taken ++ rest) :
    ∃ stop, start.Spans stop taken ∧ stop.rest = rest :=
  ⟨⟨start.index + taken.length, rest, rest.length, rfl⟩, ⟨h, rfl⟩, rfl⟩

/-- Two rows of characters are passed one after the other. -/
theorem Spans.split {start stop : Cursor} {cs ds : List Char} (h : start.Spans stop (cs ++ ds)) :
    ∃ middle, start.Spans middle cs ∧ middle.Spans stop ds := by
  obtain ⟨middle, hfirst, hrest⟩ := exists_spans (h.1.trans (List.append_assoc cs ds stop.rest))
  obtain ⟨stop', hsecond, _⟩ := exists_spans hrest
  obtain rfl := h.unique (hfirst.append hsecond)
  exact ⟨middle, hfirst, hsecond⟩

/-! ## The order -/

/-- Cursors are ordered by what lies behind them: `start ≤ stop` if `stop` is reached from `start`
by moving over characters. -/
instance : PartialOrder Cursor where
  le start stop := ∃ taken, start.Spans stop taken
  le_refl start := ⟨[], spans_nil start⟩
  le_trans _ _ _ h h' := by
    obtain ⟨cs, hcs⟩ := h
    obtain ⟨ds, hds⟩ := h'
    exact ⟨cs ++ ds, hcs.append hds⟩
  le_antisymm a b h h' := by
    obtain ⟨cs, hcs⟩ := h
    obtain ⟨ds, hds⟩ := h'
    -- The index grows by the length of both spans and comes back to itself.
    have hzero : cs.length = 0 := by
      have h1 := hcs.2
      have h2 := hds.2
      omega
    rw [List.length_eq_zero_iff] at hzero
    subst hzero
    exact hcs.eq_of_nil.symm

theorem Spans.le {start stop : Cursor} {taken : List Char} (h : start.Spans stop taken) :
    start ≤ stop :=
  ⟨taken, h⟩

/-- A later place is behind the next character. -/
theorem eq_or_next_le {start place : Cursor} (h : start ≤ place) :
    place = start ∨ ∃ c next, start.next? = some (c, next) ∧ next ≤ place := by
  obtain ⟨taken, htaken⟩ := h
  cases taken with
  | nil => exact Or.inl htaken.eq_of_nil
  | cons c cs =>
    obtain ⟨next, hnext, hrest⟩ := htaken.exists_next
    exact Or.inr ⟨c, next, hnext, hrest.le⟩

theorem index_le_of_le {start stop : Cursor} (h : start ≤ stop) : start.index ≤ stop.index := by
  obtain ⟨taken, htaken⟩ := h
  have := htaken.2
  omega

/-- A span of at least one character leads on. -/
theorem Spans.lt {start stop : Cursor} {c : Char} {cs : List Char}
    (h : start.Spans stop (c :: cs)) : start < stop := by
  refine lt_of_le_of_ne h.le ?_
  rintro rfl
  have := h.2
  simp at this

theorem index_lt_of_lt {start stop : Cursor} (h : start < stop) : start.index < stop.index := by
  refine Nat.lt_of_le_of_ne (index_le_of_le h.le) ?_
  intro heq
  obtain ⟨taken, htaken⟩ := h.le
  have hnil : taken = [] := by
    rw [← List.length_eq_zero_iff]
    have := htaken.2
    omega
  subst hnil
  exact h.ne htaken.eq_of_nil.symm

/-- Fewer characters remain at a later place. -/
theorem remaining_lt_iff {start stop : Cursor} (h : start ≤ stop) :
    stop.remaining < start.remaining ↔ start < stop := by
  obtain ⟨taken, htaken⟩ := h
  have hlen : start.remaining = taken.length + stop.remaining := by
    rw [start.remaining_eq, stop.remaining_eq, htaken.1, List.length_append]
  constructor
  · intro hlt
    refine lt_of_le_of_ne htaken.le ?_
    rintro rfl
    omega
  · intro hlt
    have hindex := index_lt_of_lt hlt
    have := htaken.2
    omega

/-! ## The text between two cursors -/

/-- The text between two cursors. -/
def between (start stop : Cursor) : String :=
  String.ofList (start.rest.take (stop.index - start.index))

theorem Spans.between_eq {start stop : Cursor} {taken : List Char} (h : start.Spans stop taken) :
    start.between stop = String.ofList taken := by
  rw [between, h.taken_eq]

/-- Where something is taken, the text of the span is the text between its ends. -/
theorem spanText_eq_between {start stop : Cursor} (h : start < stop) :
    start.spanText stop = start.between stop := by
  rw [spanText, spanEnd, if_pos (index_lt_of_lt h), between]

end Cursor

end TypedGrammar
