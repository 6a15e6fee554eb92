import Mathlib.Algebra.GroupWithZero.Nat
import TypedGrammar.Proofs.Node.DeclaredTypes

/-!
# How many values a list has

A list keeps the nodes that declare the type of its elements, and each time its values are read from
the start.  A node that declares the type holds something of this type, or it holds nothing at all
and the type is the unit type.  So there is one value for each node that is kept, but for absent
optionals in lists of units: they are kept and counted, and have no value.
-/

namespace TypedGrammar

namespace Node

variable {node : Node}

/-- An absent optional, with any number of optionals and braces around it. -/
inductive IsHollow : Node → Prop
  | absent (location : Location) : IsHollow (.absent location)
  | present (location : Location) {inner : Node} (h : IsHollow inner) :
    IsHollow (.present location inner)
  | brace (location : Location) (opening closing : Option String) {nested : Node}
    (h : IsHollow nested) : IsHollow (.brace location opening closing nested)

/-- Only hollow nodes hold nothing. -/
theorem payload?_eq_none_iff : node.payload? = none ↔ node.IsHollow := by
  constructor
  · intro h
    induction node using payload?.induct with
    | case2 location => exact .absent location
    | case3 location inner ih => exact .present location (ih h)
    | case4 location opening closing nested ih => exact .brace location opening closing (ih h)
    | _ => cases h
  · intro h
    induction h with
    | absent => rfl
    | present _ _ ih => exact ih
    | brace _ _ _ _ ih => exact ih

theorem hasValue_iff_not_isHollow : node.hasValue = true ↔ ¬ node.IsHollow := by
  rw [hasValue, Option.isSome_iff_ne_none, ne_eq, payload?_eq_none_iff]

/-- The values of a list node, from the start. -/
def values? : Node → Option ListReader
  | list _ element children => some ⟨element, children⟩
  | _ => none

end Node

namespace ListReader

variable {element : ValueType} {nodes : List Node}

/-- Reads portions of up to so many values, one after the other: all that is read, and what is
left. -/
def takes (reader : ListReader) : List ℕ → List Payload × ListReader
  | [] => ([], reader)
  | count :: counts =>
    ((reader.take count).1 ++ ((reader.take count).2.takes counts).1,
      ((reader.take count).2.takes counts).2)

/-- Portions are read as if all of them were read at once. -/
theorem takes_eq (reader : ListReader) (counts : List ℕ) :
    (reader.takes counts).1 = reader.toList.take counts.sum ∧
      (reader.takes counts).2.toList = reader.toList.drop counts.sum := by
  induction counts generalizing reader with
  | nil => exact ⟨rfl, rfl⟩
  | cons count counts ih =>
    -- The other portions are read from what the first one leaves.
    obtain ⟨hfirst, hleft⟩ := reader.take_eq count
    obtain ⟨hmore, hrest⟩ := ih (reader.take count).2
    rw [hleft] at hmore hrest
    rw [takes, List.sum_cons, hfirst, hmore, hrest]
    exact ⟨List.take_add.symm, by rw [List.drop_drop]⟩

section Kept

variable (h : ∀ node ∈ nodes, node.payloadType = element)
include h

/-- The values are what the nodes hold, if they declare the type of the elements. -/
theorem toList_eq : (ListReader.mk element nodes).toList = nodes.filterMap Node.payload? :=
  List.filterMap_congr fun node hnode => Node.payloadOf?_eq (h node hnode)

theorem type_of_mem_toList {payload : Payload}
    (hpayload : payload ∈ (ListReader.mk element nodes).toList) : payload.type = element := by
  rw [toList_eq h] at hpayload
  obtain ⟨node, hnode, hheld⟩ := List.mem_filterMap.mp hpayload
  exact (Node.type_of_payload? hheld).trans (h node hnode)

/-- There are as many values as nodes, if none of them is hollow. -/
theorem length_toList_eq_iff :
    (ListReader.mk element nodes).toList.length = nodes.length ↔ ∀ n ∈ nodes, ¬ n.IsHollow := by
  rw [toList_eq h, List.filterMap_length_eq_length]
  exact forall₂_congr fun _ _ => Node.hasValue_iff_not_isHollow

/-- So there is one value for each node, in the same order. -/
theorem map_some_toList_iff :
    (ListReader.mk element nodes).toList.map some = nodes.map Node.payload? ↔
      ∀ n ∈ nodes, ¬ n.IsHollow := by
  constructor
  · intro heach
    have hlength := congrArg List.length heach
    rw [List.length_map, List.length_map] at hlength
    exact (length_toList_eq_iff h).mp hlength
  · exact fun hsolid => map_some_toList fun n hn =>
      ⟨h n hn, Node.hasValue_iff_not_isHollow.mpr (hsolid n hn)⟩

/-- Only elements of the unit type can be hollow. -/
theorem not_isHollow_of_ne_unit (helement : element ≠ .unit) : ∀ n ∈ nodes, ¬ n.IsHollow := by
  intro n hn hhollow
  have htype := Node.payloadType_of_payload?_eq_none (Node.payload?_eq_none_iff.mpr hhollow)
  exact helement ((h n hn).symm.trans htype)

end Kept

end ListReader

namespace Node

/-- **Values of lists.**  A list of some nodes keeps those that declare the type of its elements, in
their order.  Whenever its values are read, and in whatever portions, they come from the first one
on: what the nodes that are kept hold, in their order, all of the type of the elements.  That is one
value for each node, or as many of them as nodes, exactly if none of the nodes is an absent optional
or layers around one, which is always so for elements of another type than the unit type. -/
theorem exists_values?_ofList (location : Location) (element : ValueType) (nodes : List Node) :
    ∃ kept reader, ofList location element nodes = .list location element kept ∧
      kept = nodes.filter (·.payloadType = element) ∧
      (ofList location element nodes).values? = some reader ∧
      (∀ counts, (reader.takes counts).1 = reader.toList.take counts.sum ∧
        (reader.takes counts).2.toList = reader.toList.drop counts.sum) ∧
      reader.toList = kept.filterMap payload? ∧
      (∀ payload ∈ reader.toList, payload.type = element) ∧
      (reader.toList.map some = kept.map payload? ↔ ∀ n ∈ kept, ¬ n.IsHollow) ∧
      (reader.toList.length = kept.length ↔ ∀ n ∈ kept, ¬ n.IsHollow) ∧
      (element ≠ .unit → ∀ n ∈ kept, ¬ n.IsHollow) := by
  have hkept : ∀ n ∈ nodes.filter (·.payloadType = element), n.payloadType = element :=
    fun n hn => of_decide_eq_true (List.mem_filter.mp hn).2
  exact ⟨_, ⟨element, _⟩, rfl, rfl, rfl, ListReader.takes_eq _, ListReader.toList_eq hkept,
    fun _ => ListReader.type_of_mem_toList hkept, ListReader.map_some_toList_iff hkept,
    ListReader.length_toList_eq_iff hkept, ListReader.not_isHollow_of_ne_unit hkept⟩

/-- Two numbers, one of them optional, with a word between them. -/
def twoNumbers : List Node :=
  [.literal ⟨0, 0, 0, "text"⟩ (.int64 1) "1", .identifier ⟨0, 2, 2, "text"⟩ "skip",
    .present ⟨0, 7, 7, "text"⟩ (.literal ⟨0, 7, 7, "text"⟩ (.int64 2) "2")]

/-- The word is left out of a list of numbers, and the numbers are read one after the other. -/
theorem exists_values?_ofList_twoNumbers :
    ∃ kept reader,
      ofList ⟨0, 0, 0, "text"⟩ .int64 twoNumbers = .list ⟨0, 0, 0, "text"⟩ .int64 kept ∧
      (ofList ⟨0, 0, 0, "text"⟩ .int64 twoNumbers).values? = some reader ∧
      kept.length = 2 ∧ reader.toList.length = 2 ∧ (reader.takes [1, 1]).1 = reader.toList := by
  obtain ⟨kept, reader, hlist, hkept, hvalues, htakes, _, _, _, hlength, hsolid⟩ :=
    exists_values?_ofList ⟨0, 0, 0, "text"⟩ .int64 twoNumbers
  have htwo : kept.length = 2 := by
    rw [hkept]
    rfl
  have hall : reader.toList.length = 2 := (hlength.mpr (hsolid (by decide))).trans htwo
  refine ⟨kept, reader, hlist, hvalues, htwo, hall, ?_⟩
  rw [(htakes [1, 1]).1]
  exact List.take_of_length_le (Nat.le_of_eq hall)

/-- A list of units keeps an absent optional, counts it and has no value for it. -/
theorem length_toList_ne_absent :
    ∃ kept reader,
      ofList ⟨0, 0, 0, "text"⟩ .unit [.absent ⟨0, 0, 0, "text"⟩] =
        .list ⟨0, 0, 0, "text"⟩ .unit kept ∧
      (ofList ⟨0, 0, 0, "text"⟩ .unit [.absent ⟨0, 0, 0, "text"⟩]).values? = some reader ∧
      kept.length = 1 ∧ reader.toList = [] ∧ reader.toList.length ≠ kept.length :=
  ⟨_, _, rfl, rfl, rfl, rfl, Nat.zero_ne_one⟩

end Node

end TypedGrammar
