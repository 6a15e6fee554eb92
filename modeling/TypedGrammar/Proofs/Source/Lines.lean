import Mathlib.Data.List.Count
import Mathlib.Data.List.DropRight
import Mathlib.Data.Prod.Lex
import Mathlib.Data.String.Basic
import TypedGrammar.Diagnostic

/-!
# Lines and columns

The table of the lines of a text is searched for the last line that begins at an offset or before
it.  This is the line that is found by counting: as many line feeds stand before the offset as the
line says, and as many bytes behind the last of these as the column says.  All this is about bytes,
so that it holds of offsets inside of characters too; none of the bytes of another character is the
one of a line feed.
-/

namespace TypedGrammar

/-- Positions are ordered by line, and by column within a line. -/
instance : LinearOrder LinePosition :=
  LinearOrder.lift' (fun p => toLex (p.line, p.column)) fun p q h => by
    obtain ⟨hline, hcolumn⟩ := Prod.mk.inj (toLex_inj.mp h)
    cases p
    cases q
    cases hline
    cases hcolumn
    rfl

/-- A position precedes those in later lines, and those further on in its line. -/
theorem LinePosition.le_iff {p q : LinePosition} :
    p ≤ q ↔ p.line < q.line ∨ p.line = q.line ∧ p.column ≤ q.column :=
  Prod.Lex.toLex_le_toLex

namespace LineTable

open String (utf8Len)

/-! ## Bytes -/

/-- The byte of a line feed. -/
def newline : UInt8 := 10

/-- The bytes of a text. -/
def bytes (text : String) : List UInt8 :=
  text.toByteArray.data.toList

/-- The bytes of a text are those of its characters, in their order. -/
theorem bytes_eq_flatMap (text : String) :
    bytes text = text.toList.flatMap String.utf8EncodeChar := by
  conv_lhs => rw [← String.ofList_toList (s := text)]
  rw [bytes, String.toByteArray_ofList, List.utf8Encode, List.data_toByteArray]

/-- A text has as many bytes as its size says. -/
theorem length_bytes (text : String) : (bytes text).length = text.utf8ByteSize :=
  rfl

/-- A line feed is one byte. -/
theorem utf8EncodeChar_newline : String.utf8EncodeChar '\n' = [newline] :=
  rfl

/-- The bytes of other characters than ASCII are no line feeds. -/
theorem ofNat_ne_newline {n : ℕ} (h : 128 ≤ n) (h' : n < 256) : UInt8.ofNat n ≠ newline := by
  intro heq
  have hnat := congrArg UInt8.toNat heq
  rw [UInt8.toNat_ofNat', Nat.mod_eq_of_lt h'] at hnat
  have hnewline : newline.toNat = 10 := rfl
  omega

/-- No other character has the byte of a line feed. -/
theorem ne_newline_of_mem_utf8EncodeChar {c : Char} (hc : c ≠ '\n') :
    ∀ b ∈ String.utf8EncodeChar c, b ≠ newline := by
  unfold String.utf8EncodeChar
  simp only
  split_ifs with hone
  · -- A single byte is the number of the character.
    rw [List.forall_mem_singleton]
    intro heq
    have hnat := congrArg UInt8.toNat heq
    rw [UInt8.toNat_ofNat', Nat.mod_eq_of_lt (by omega)] at hnat
    exact hc (Char.ext (UInt32.toNat_inj.mp hnat))
  all_goals
    simp only [List.forall_mem_cons, List.not_mem_nil, false_implies, implies_true, and_true]
  · exact ⟨ofNat_ne_newline (by omega) (by omega), ofNat_ne_newline (by omega) (by omega)⟩
  · exact ⟨ofNat_ne_newline (by omega) (by omega), ofNat_ne_newline (by omega) (by omega),
      ofNat_ne_newline (by omega) (by omega)⟩
  · exact ⟨ofNat_ne_newline (by omega) (by omega), ofNat_ne_newline (by omega) (by omega),
      ofNat_ne_newline (by omega) (by omega), ofNat_ne_newline (by omega) (by omega)⟩

/-! ## The beginnings of lines -/

/-- Where the lines of some bytes begin: at the first byte, and behind each line feed. -/
def lineStarts (bs : List UInt8) : List ℕ :=
  0 :: (bs.idxsOf newline).map (· + 1)

/-- The bytes behind the last line feed. -/
def lastLineBytes (bs : List UInt8) : List UInt8 :=
  bs.rtakeWhile (· ≠ newline)

/-- The table collects the offsets behind line feeds. -/
theorem startsAfter_eq_map (offset : ℕ) (cs : List Char) :
    startsAfter offset cs =
      ((cs.flatMap String.utf8EncodeChar).idxsOf newline offset).map (· + 1) := by
  induction cs generalizing offset with
  | nil => rfl
  | cons c cs ih =>
    rw [startsAfter, List.flatMap_cons, List.idxsOf_append, List.map_append,
      String.length_utf8EncodeChar]
    by_cases hc : c = '\n'
    · have hsize : c.utf8Size = 1 := by
        rw [hc]
        rfl
      have hfirst : (String.utf8EncodeChar c).idxsOf newline offset = [offset] := by
        rw [hc]
        rfl
      rw [if_pos hc, ih, hfirst, hsize]
      rfl
    · have hfirst : (String.utf8EncodeChar c).idxsOf newline offset = [] :=
        List.idxsOf_eq_nil_iff.mpr fun b hb =>
          beq_false_of_ne (ne_newline_of_mem_utf8EncodeChar hc b hb)
      rw [if_neg hc, ih, hfirst]
      rfl

/-- The table has the starts of all lines. -/
theorem starts_ofText (text : String) : (ofText text).starts = lineStarts (bytes text) := by
  rw [lineStarts, bytes_eq_flatMap, ← startsAfter_eq_map]
  rfl

section Bytes

variable {bs ds : List UInt8} {n o : ℕ}

/-- In a longer text more lines may start, behind the line feeds that are added. -/
theorem lineStarts_append (bs ds : List UInt8) :
    lineStarts (bs ++ ds) = lineStarts bs ++ (ds.idxsOf newline bs.length).map (· + 1) := by
  rw [lineStarts, List.idxsOf_append, List.map_append, Nat.zero_add]
  rfl

/-- There is one line more than there are line feeds. -/
theorem length_lineStarts (bs : List UInt8) : (lineStarts bs).length = bs.count newline + 1 := by
  rw [lineStarts, List.length_cons, List.length_map, List.length_idxsOf]

/-- A line starts within the text, or at its end. -/
theorem le_length_of_mem_lineStarts (h : n ∈ lineStarts bs) : n ≤ bs.length := by
  rcases List.mem_cons.mp h with rfl | h
  · exact Nat.zero_le _
  · obtain ⟨i, hi, rfl⟩ := List.mem_map.mp h
    have := List.lt_add_of_mem_idxsOf i hi
    omega

/-- Behind a line feed the last line is empty. -/
theorem lastLineBytes_concat_newline (bs : List UInt8) : lastLineBytes (bs ++ [newline]) = [] :=
  List.rtakeWhile_concat_neg _ _ _ (by simp)

/-- Bytes that are no line feeds make the last line longer. -/
theorem lastLineBytes_append (bs : List UInt8) (hds : ∀ b ∈ ds, b ≠ newline) :
    lastLineBytes (bs ++ ds) = lastLineBytes bs ++ ds := by
  have hreverse : ∀ b ∈ ds.reverse, decide (b ≠ newline) = true := fun b hb =>
    decide_eq_true (hds b (List.mem_reverse.mp hb))
  rw [lastLineBytes, List.rtakeWhile, List.reverse_append, List.takeWhile_append_of_pos hreverse,
    List.reverse_append, List.reverse_reverse]
  rfl

/-- The last line is no longer than the text. -/
theorem length_lastLineBytes_le (bs : List UInt8) : (lastLineBytes bs).length ≤ bs.length :=
  (List.rtakeWhile_suffix _ bs).length_le

/-- The last line begins where its bytes do. -/
theorem getElem?_lineStarts_count (bs : List UInt8) :
    (lineStarts bs)[bs.count newline]? = some (bs.length - (lastLineBytes bs).length) := by
  induction bs using List.reverseRecOn with
  | nil => rfl
  | append_singleton bs b ih =>
    rw [lineStarts_append, List.count_append, List.length_append, List.length_singleton]
    by_cases hb : b = newline
    · subst hb
      rw [lastLineBytes_concat_newline, List.count_singleton_self, ← length_lineStarts,
        List.getElem?_append_right le_rfl, Nat.sub_self]
      rfl
    · have hnone : [b].idxsOf newline bs.length = [] :=
        List.idxsOf_eq_nil_iff.mpr fun d hd => beq_false_of_ne (List.mem_singleton.mp hd ▸ hb)
      have hcount : [b].count newline = 0 :=
        List.count_eq_zero_of_not_mem fun h => hb (List.mem_singleton.mp h).symm
      rw [lastLineBytes_append bs fun d hd => List.mem_singleton.mp hd ▸ hb, hnone, hcount,
        List.map_nil, List.append_nil, Nat.add_zero, ih, List.length_append, List.length_singleton,
        Nat.add_sub_add_right]

/-- The lines that begin at an offset or before it are the lines of what stands before it. -/
theorem exists_lineStarts_eq (h : o ≤ bs.length) :
    ∃ later, lineStarts bs = lineStarts (bs.take o) ++ later ∧ ∀ n ∈ later, o < n := by
  refine ⟨((bs.drop o).idxsOf newline (bs.take o).length).map (· + 1), ?_, fun n hn => ?_⟩
  · rw [← lineStarts_append, List.take_append_drop]
  · obtain ⟨i, hi, rfl⟩ := List.mem_map.mp hn
    have hle := List.ge_of_mem_idxsOf i hi
    rw [List.length_take_of_le h] at hle
    exact Nat.lt_succ_of_le hle

/-- The lines that start up to an offset are those of the text before it. -/
theorem takeWhile_lineStarts (h : o ≤ bs.length) :
    (lineStarts bs).takeWhile (· ≤ o) = lineStarts (bs.take o) := by
  obtain ⟨later, hsplit, hlater⟩ := exists_lineStarts_eq h
  rw [hsplit, List.takeWhile_append_of_pos]
  · cases later with
    | nil => rw [List.takeWhile_nil, List.append_nil]
    | cons n later =>
      have hn : ¬ n ≤ o := Nat.not_le.mpr (hlater n List.mem_cons_self)
      rw [List.takeWhile_cons_of_neg (by simpa using hn), List.append_nil]
  · intro n hn
    have hle := le_length_of_mem_lineStarts hn
    rw [List.length_take_of_le h] at hle
    exact decide_eq_true hle

end Bytes

/-! ## Positions -/

/-- The bytes of a text before an offset; an offset past the end counts as the end. -/
def bytesBefore (text : String) (offset : ℕ) : List UInt8 :=
  (bytes text).take (min offset text.utf8ByteSize)

/-- There are as many bytes before an offset as it says, but for offsets past the end. -/
theorem length_bytesBefore (text : String) (offset : ℕ) :
    (bytesBefore text offset).length = min offset text.utf8ByteSize :=
  List.length_take_of_le (Nat.min_le_right _ _)

/-- What the position of an offset says of the bytes before it and of the table: its line is the
number of line feeds among them and its column the number of bytes behind the last one; the table
has this line, which begins as many bytes before the offset as the column says, and the lines that
begin at the offset or before it are this one and those before it. -/
structure Counts (text : String) (offset : ℕ) (position : LinePosition) : Prop where
  line_eq : position.line = (bytesBefore text offset).count newline
  column_eq : position.column = (lastLineBytes (bytesBefore text offset)).length
  line_lt : position.line < (ofText text).lineCount
  start_add_column : ∃ start, (ofText text).starts[position.line]? = some start ∧
    start + position.column = min offset text.utf8ByteSize
  start_le_iff : ∀ (i start : ℕ), (ofText text).starts[i]? = some start →
    (start ≤ min offset text.utf8ByteSize ↔ i ≤ position.line)

section Positions

variable {text : String} {offset offset' : ℕ}

/-- The lines of what stands before an offset are the first lines of the text. -/
theorem exists_starts_eq (text : String) (offset : ℕ) :
    ∃ later, (ofText text).starts = lineStarts (bytesBefore text offset) ++ later ∧
      ∀ n ∈ later, min offset text.utf8ByteSize < n := by
  rw [starts_ofText]
  exact exists_lineStarts_eq (Nat.min_le_right _ _)

/-- The line that counting finds begins where its bytes do. -/
theorem getElem?_starts_count (text : String) (offset : ℕ) :
    (ofText text).starts[(bytesBefore text offset).count newline]? =
      some (min offset text.utf8ByteSize - (lastLineBytes (bytesBefore text offset)).length) := by
  obtain ⟨later, hsplit, _⟩ := exists_starts_eq text offset
  rw [hsplit, List.getElem?_append_left, getElem?_lineStarts_count, length_bytesBefore]
  rw [length_lineStarts]
  exact Nat.lt_succ_self _

/-- The last line before an offset is no longer than what is before it. -/
theorem length_lastLineBytes_bytesBefore_le (text : String) (offset : ℕ) :
    (lastLineBytes (bytesBefore text offset)).length ≤ min offset text.utf8ByteSize :=
  (length_lastLineBytes_le _).trans (length_bytesBefore text offset).le

/-- The search finds the line and the column that counting finds. -/
theorem position_eq (text : String) (offset : ℕ) :
    (ofText text).position offset = ⟨(bytesBefore text offset).count newline,
      (lastLineBytes (bytesBefore text offset)).length⟩ := by
  have hline : ((ofText text).starts.takeWhile (· ≤ min offset text.utf8ByteSize)).length - 1 =
      (bytesBefore text offset).count newline := by
    have hle : min offset text.utf8ByteSize ≤ (bytes text).length := Nat.min_le_right _ _
    rw [starts_ofText, takeWhile_lineStarts hle, length_lineStarts]
    rfl
  have hstart : (ofText text).starts.getD ((bytesBefore text offset).count newline) 0 =
      min offset text.utf8ByteSize - (lastLineBytes (bytesBefore text offset)).length := by
    rw [List.getD_eq_getElem?_getD, getElem?_starts_count]
    rfl
  have hlength : (ofText text).length = text.utf8ByteSize := rfl
  unfold position
  simp only [hlength]
  rw [hline, hstart, Nat.sub_sub_self (length_lastLineBytes_bytesBefore_le text offset)]

/-- The position of an offset counts the lines and the columns before it. -/
theorem counts_position (text : String) (offset : ℕ) :
    Counts text offset ((ofText text).position offset) := by
  have hle := length_lastLineBytes_bytesBefore_le text offset
  obtain ⟨later, hsplit, hlater⟩ := exists_starts_eq text offset
  rw [position_eq]
  refine ⟨rfl, rfl, ?_, ⟨_, getElem?_starts_count text offset, Nat.sub_add_cancel hle⟩, ?_⟩
  · rw [lineCount, hsplit, List.length_append, length_lineStarts]
    simp only
    omega
  · intro i start hstart
    rw [hsplit] at hstart
    simp only
    rcases Nat.lt_or_ge i (lineStarts (bytesBefore text offset)).length with hi | hi
    · -- A line of what stands before the offset.
      rw [List.getElem?_append_left hi] at hstart
      have hstart' := le_length_of_mem_lineStarts (List.mem_of_getElem? hstart)
      rw [length_bytesBefore] at hstart'
      rw [length_lineStarts] at hi
      exact iff_of_true hstart' (Nat.le_of_lt_succ hi)
    · rw [List.getElem?_append_right hi] at hstart
      have hstart' := hlater start (List.mem_of_getElem? hstart)
      rw [length_lineStarts] at hi
      exact iff_of_false (Nat.not_le.mpr hstart') (Nat.not_le.mpr hi)

/-- Positions that are on one line differ by as much as their offsets. -/
theorem Counts.add_column_eq {p q : LinePosition} (hp : Counts text offset p)
    (hq : Counts text offset' q) (hline : p.line = q.line) :
    min offset text.utf8ByteSize + q.column = min offset' text.utf8ByteSize + p.column := by
  obtain ⟨start, hstart, hadd⟩ := hp.start_add_column
  obtain ⟨start', hstart', hadd'⟩ := hq.start_add_column
  rw [hline, hstart'] at hstart
  obtain rfl := Option.some.inj hstart
  omega

/-- A later offset has a later position. -/
theorem monotone_position (text : String) : Monotone (ofText text).position := by
  intro a b hab
  have ha := counts_position text a
  have hb := counts_position text b
  have hoffset : min a text.utf8ByteSize ≤ min b text.utf8ByteSize := min_le_min_right _ hab
  have hlines : ((ofText text).position a).line ≤ ((ofText text).position b).line := by
    rw [ha.line_eq, hb.line_eq]
    exact (List.take_sublist_take_left hoffset).count_le _
  rw [LinePosition.le_iff]
  rcases hlines.lt_or_eq with hlt | heq
  · exact Or.inl hlt
  · have hadd := ha.add_column_eq hb heq
    exact Or.inr ⟨heq, by omega⟩

/-- Offsets within a text have different positions. -/
theorem injOn_position (text : String) :
    Set.InjOn (ofText text).position (Set.Iic text.utf8ByteSize) := by
  intro a ha b hb heq
  have hadd := (counts_position text a).add_column_eq (counts_position text b)
    (congrArg LinePosition.line heq)
  rw [heq, Nat.min_eq_left ha, Nat.min_eq_left hb] at hadd
  exact Nat.add_right_cancel hadd

/-- **Lines and columns.**  In a text of less than 2 ^ 32 bytes, each offset has the position that
is found by counting; the position is never looked for outside the table.  Positions are in the
order of their offsets, and those of different offsets within the text are different.  All the
numbers fit into 32 bits. -/
theorem position_counts (text : String) (hsize : text.utf8ByteSize < 2 ^ 32) :
    (∀ offset, Counts text offset ((ofText text).position offset)) ∧
    Monotone (ofText text).position ∧
    Set.InjOn (ofText text).position (Set.Iic text.utf8ByteSize) ∧
    (∀ start ∈ (ofText text).starts, start < 2 ^ 32) ∧
    ∀ offset, ((ofText text).position offset).line < 2 ^ 32 ∧
      ((ofText text).position offset).column < 2 ^ 32 := by
  refine ⟨counts_position text, monotone_position text, injOn_position text, fun start hstart => ?_,
    fun offset => ⟨?_, ?_⟩⟩
  · rw [starts_ofText] at hstart
    exact (le_length_of_mem_lineStarts hstart).trans_lt hsize
  · rw [position_eq]
    have hcount : (bytesBefore text offset).count newline ≤ (bytesBefore text offset).length :=
      List.count_le_length
    rw [length_bytesBefore] at hcount
    exact (hcount.trans (Nat.min_le_right _ _)).trans_lt hsize
  · rw [position_eq]
    exact ((length_lastLineBytes_bytesBefore_le text offset).trans
      (Nat.min_le_right _ _)).trans_lt hsize

/-- The end of a text of two lines, of which the first has a character of two bytes, is behind the
one byte of the second line; an offset inside of the character is on the first line. -/
theorem position_counts_twoLines :
    "é\nx".utf8ByteSize < 2 ^ 32 ∧ (ofText "é\nx").starts = [0, 3] ∧
      Counts "é\nx" 40 ((ofText "é\nx").position 40) ∧
      (ofText "é\nx").position 40 = ⟨1, 1⟩ ∧ (ofText "é\nx").position 1 = ⟨0, 1⟩ := by
  have hsize : "é\nx".utf8ByteSize < 2 ^ 32 := by decide
  obtain ⟨hcounts, _⟩ := position_counts "é\nx" hsize
  exact ⟨hsize, rfl, hcounts 40, rfl, rfl⟩

end Positions

/-! ## Offsets between characters -/

/-- The characters behind the last line feed. -/
def lastLine (cs : List Char) : List Char :=
  cs.rtakeWhile (· ≠ '\n')

/-- Behind a line feed no characters are in the last line. -/
theorem lastLine_concat_newline (cs : List Char) : lastLine (cs ++ ['\n']) = [] :=
  List.rtakeWhile_concat_neg _ _ _ (by simp)

/-- Any other character is added to the last line. -/
theorem lastLine_concat {c : Char} (hc : c ≠ '\n') (cs : List Char) :
    lastLine (cs ++ [c]) = lastLine cs ++ [c] :=
  List.rtakeWhile_concat_pos _ _ _ (by simpa using hc)

/-- Line feeds are counted alike in characters and in their bytes. -/
theorem count_newline (cs : List Char) :
    (cs.flatMap String.utf8EncodeChar).count newline = cs.count '\n' := by
  induction cs with
  | nil => rfl
  | cons c cs ih =>
    rw [List.flatMap_cons, List.count_append, ih]
    by_cases hc : c = '\n'
    · rw [hc, List.count_cons_self, utf8EncodeChar_newline, List.count_singleton_self, Nat.add_comm]
    · rw [List.count_cons_of_ne hc, List.count_eq_zero_of_not_mem, Nat.zero_add]
      exact fun h => ne_newline_of_mem_utf8EncodeChar hc newline h rfl

/-- The last line has the bytes of its characters. -/
theorem length_lastLineBytes (cs : List Char) :
    (lastLineBytes (cs.flatMap String.utf8EncodeChar)).length = utf8Len (lastLine cs) := by
  induction cs using List.reverseRecOn with
  | nil => rfl
  | append_singleton cs c ih =>
    rw [List.flatMap_append, List.flatMap_singleton]
    by_cases hc : c = '\n'
    · rw [hc, utf8EncodeChar_newline, lastLineBytes_concat_newline, lastLine_concat_newline]
      rfl
    · rw [lastLineBytes_append _ (ne_newline_of_mem_utf8EncodeChar hc), List.length_append, ih,
        String.length_utf8EncodeChar, lastLine_concat hc, String.utf8Len_append,
        String.utf8Len_cons, String.utf8Len_nil, Nat.zero_add]

/-- At the offset of a character, the position is also found by counting characters: the line is the
number of line feeds before it, the column the length in bytes of the characters behind the last
one. -/
theorem position_ofText (before after : String) :
    (ofText (before ++ after)).position before.utf8ByteSize =
      ⟨before.toList.count '\n', utf8Len (lastLine before.toList)⟩ := by
  have hbefore : bytesBefore (before ++ after) before.utf8ByteSize =
      before.toList.flatMap String.utf8EncodeChar := by
    rw [bytesBefore, String.utf8ByteSize_append, Nat.min_eq_left (Nat.le_add_right _ _),
      bytes_eq_flatMap, String.toList_append, List.flatMap_append, ← bytes_eq_flatMap before,
      ← length_bytes, List.take_left]
  rw [position_eq, hbefore, count_newline, length_lastLineBytes]

end LineTable

end TypedGrammar
