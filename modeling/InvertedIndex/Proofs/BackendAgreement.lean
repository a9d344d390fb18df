/-
This file compares the two implementations of searching. They refuse the same ranges, those
that are reversed or end beyond the words, and on keys in ascending order their four searches
give one answer, which does not mention how it was found: the first entry of the range with
the key searched, or else the place after all the smaller keys. That a position is the first
whose key is not smaller is known of each search; here it is turned into that answer.
-/

import InvertedIndex.Proofs.Search

namespace InvertedIndex

/-- What there is to say about a key in a range: the first entry that has it, or where it
would go among the others. -/
def Position.answer (keys : Nat → UInt64) (key : UInt64) (start stop : Nat) : Position :=
  match (List.range' start (stop - start)).find? fun entry => keys entry == key with
  | some entry => .found entry
  | none => .insertion
      (start + (List.range' start (stop - start)).countP fun entry => keys entry < key)

namespace Position

variable {keys : Nat → UInt64} {key : UInt64} {start stop : Nat}

theorem answer_of_present {entry : Nat} (above : start ≤ entry) (below : entry < stop)
    (isKey : keys entry = key) (before : ∀ earlier, start ≤ earlier → earlier < entry →
      keys earlier ≠ key) : answer keys key start stop = .found entry := by
  have found : ((List.range' start (stop - start)).find? fun entry => keys entry == key) =
      some entry := by
    rw [List.find?_range'_eq_some]
    refine ⟨beq_iff_eq.mpr isKey, List.mem_range'_1.mpr ⟨above, by omega⟩, ?_⟩
    intro earlier from_start earlierThan
    simpa using before earlier from_start earlierThan
  rw [answer, found]

/-- With the smaller keys in front and the larger ones behind, an absent key goes between. -/
theorem answer_of_absent {entry : Nat} (above : start ≤ entry) (below : entry ≤ stop)
    (smaller : ∀ earlier, start ≤ earlier → earlier < entry → keys earlier < key)
    (larger : ∀ later, entry ≤ later → later < stop → key < keys later) :
    answer keys key start stop = .insertion entry := by
  have absent : ((List.range' start (stop - start)).find? fun entry => keys entry == key) =
      none := by
    rw [List.find?_range'_eq_none]
    intro other from_start inside
    have differs : keys other ≠ key := by
      rcases Nat.lt_or_ge other entry with inFront | behind
      · exact UInt64.ne_of_lt (smaller other from_start inFront)
      · exact (UInt64.ne_of_lt (larger other behind (by omega))).symm
    simpa using differs
  have counted : ((List.range' start (stop - start)).countP fun entry => keys entry < key) =
      entry - start := by
    have parts : List.range' start (stop - start) =
        List.range' start (entry - start) ++ List.range' entry (stop - entry) := by
      have middle := @List.range'_append_1 start (entry - start) (stop - entry)
      have together : entry - start + (stop - entry) = stop - start := by omega
      rw [Nat.add_sub_cancel' above, together] at middle
      exact middle.symm
    have inFront : ((List.range' start (entry - start)).countP fun entry => keys entry < key) =
        (List.range' start (entry - start)).length := by
      refine List.countP_eq_length.mpr fun other member => ?_
      obtain ⟨from_start, inside⟩ := List.mem_range'_1.mp member
      exact decide_eq_true (smaller other from_start (by omega))
    have behind : ((List.range' entry (stop - entry)).countP fun entry => keys entry < key) =
        0 := by
      refine List.countP_eq_zero.mpr fun other member => ?_
      obtain ⟨from_entry, inside⟩ := List.mem_range'_1.mp member
      simpa using UInt64.le_of_lt (larger other from_entry (by omega))
    rw [parts, List.countP_append, inFront, behind, List.length_range', Nat.add_zero]
  rw [answer, absent, counted]
  show Position.insertion (start + (entry - start)) = .insertion entry
  rw [Nat.add_sub_cancel' above]

/-- The first entry that is not smaller is the whole answer when the keys ascend. -/
theorem IsFirst.eq_answer {position : Position} (first : position.IsFirst keys key start stop)
    (ascending : AscendingOn keys start stop) : position = answer keys key start stop := by
  by_cases present : position.entry < stop ∧ keys position.entry = key
  · obtain ⟨below, isKey⟩ := present
    have found := (first.found_iff position.entry).mpr ⟨rfl, below, isKey⟩
    exact found.trans (answer_of_present first.start_le below isKey
      fun earlier from_start before =>
        UInt64.ne_of_lt (first.smaller earlier from_start before)).symm
  · have missed : position = .insertion position.entry := by
      have outcome := first.outcome
      rwa [decide_eq_false present] at outcome
    refine missed.trans (answer_of_absent first.start_le first.le_stop first.smaller
      fun later from_entry inside => ?_).symm
    have below : position.entry < stop := Nat.lt_of_le_of_lt from_entry inside
    have larger : key < keys position.entry :=
      UInt64.lt_of_le_of_ne (first.notSmaller below) fun same => present ⟨below, same.symm⟩
    exact UInt64.lt_of_lt_of_le larger
      (ascending position.entry later first.start_le from_entry inside)

end Position

/-! ### Refused ranges -/

variable {layout : Layout} {data : Array UInt64} {start stop : Nat}

theorem Scalar.range_refused (outside : ¬ (start ≤ stop ∧ stop * layout.stride ≤ data.size)) :
    ∃ reason, Scalar.range layout data start stop = .error reason := by
  have notInside : ¬ (layout.stride * start ≤ layout.stride * stop ∧
      layout.stride * stop ≤ data.size) := fun ⟨ordered, inside⟩ =>
    outside ⟨Nat.le_of_mul_le_mul_left ordered layout.stride_pos, by rwa [Nat.mul_comm]⟩
  rw [Scalar.range]
  cases checkedMul layout.stride start with
  | error reason => exact ⟨reason, rfl⟩
  | ok firstWord =>
    cases checkedMul layout.stride stop with
    | error reason => exact ⟨reason, rfl⟩
    | ok lastWord =>
      refine ⟨.outOfRange, ?_⟩
      rw [ok_bind, ok_bind, dif_neg notInside]

theorem Vector.range_refused (outside : ¬ (start ≤ stop ∧ stop * layout.stride ≤ data.size)) :
    ∃ reason, Vector.range layout data start stop = .error reason := by
  rw [Vector.range]
  split
  · rename_i ordered
    cases checkedMul stop layout.stride with
    | error reason => exact ⟨reason, rfl⟩
    | ok words =>
      refine ⟨.outOfRange, ?_⟩
      rw [ok_bind, dif_neg fun inside => outside ⟨ordered, inside⟩]
  · exact ⟨.outOfRange, rfl⟩

namespace Backend

theorem range_refused (backend : Backend)
    (outside : ¬ (start ≤ stop ∧ stop * layout.stride ≤ data.size)) :
    ∃ reason, backend.range layout data start stop = .error reason := by
  cases backend with
  | scalar => exact Scalar.range_refused outside
  | vector => exact Vector.range_refused outside

/-- A linear search is refused exactly where its range is not inside the words. -/
theorem linearSearch_refused_iff (backend : Backend) (key : UInt64)
    (small : data.size < wordLimit) :
    (∃ reason, backend.linearSearch layout key data start stop = .error reason) ↔
      ¬ (start ≤ stop ∧ stop * layout.stride ≤ data.size) := by
  constructor
  · rintro ⟨reason, refused⟩ ⟨ordered, inside⟩
    obtain ⟨position, answered, -⟩ := backend.linearSearch_isFirst layout key ordered inside small
    rw [answered] at refused
    cases refused
  · intro outside
    obtain ⟨reason, refused⟩ := backend.range_refused outside
    exact ⟨reason, by rw [linearSearch, refused, error_bind]⟩

/-- So is a binary search, whatever the order of the keys. -/
theorem binarySearch_refused_iff (backend : Backend) (key : UInt64)
    (small : data.size < wordLimit) :
    (∃ reason, backend.binarySearch layout key data start stop = .error reason) ↔
      ¬ (start ≤ stop ∧ stop * layout.stride ≤ data.size) := by
  constructor
  · rintro ⟨reason, refused⟩ ⟨ordered, inside⟩
    obtain ⟨position, answered, -⟩ := backend.binarySearch_eq layout key ordered inside small
    rw [answered] at refused
    cases refused
  · intro outside
    obtain ⟨reason, refused⟩ := backend.range_refused outside
    exact ⟨reason, by rw [binarySearch, refused, error_bind]⟩

end Backend

/-! ### One answer -/

/-- Both backends refuse the same ranges, and on ascending keys the linear and the binary
search of either give one answer. -/
theorem backends_search_alike (layout : Layout) (data : Array UInt64) (key : UInt64)
    (start stop : Nat) (small : data.size < wordLimit) (backend : Backend) :
    (((∃ reason, backend.linearSearch layout key data start stop = .error reason) ↔
          ¬ (start ≤ stop ∧ stop * layout.stride ≤ data.size)) ∧
      ((∃ reason, backend.binarySearch layout key data start stop = .error reason) ↔
          ¬ (start ≤ stop ∧ stop * layout.stride ≤ data.size))) ∧
    (start ≤ stop → stop * layout.stride ≤ data.size →
      AscendingOn (layout.keyOf data) start stop →
      backend.linearSearch layout key data start stop =
          .ok (.answer (layout.keyOf data) key start stop) ∧
        backend.binarySearch layout key data start stop =
          .ok (.answer (layout.keyOf data) key start stop)) := by
  refine ⟨⟨backend.linearSearch_refused_iff key small,
    backend.binarySearch_refused_iff key small⟩, fun ordered inside ascending => ?_⟩
  obtain ⟨scanned, scan, scanFirst⟩ :=
    backend.linearSearch_isFirst layout key ordered inside small
  obtain ⟨halved, halve, -, halveFirst⟩ := backend.binarySearch_eq layout key ordered inside small
  rw [scan, halve, scanFirst.eq_answer ascending, (halveFirst ascending).eq_answer ascending]
  exact ⟨rfl, rfl⟩

/-- Twenty pairs with four of each key, the keys of the last eight with the top bit set. -/
def keysInFours : Array UInt64 := ((List.range 40).map fun word =>
  if word % 2 = 0 then UInt64.ofNat (word / 8) * 0x3000000000000000
  else UInt64.ofNat word).toArray

/-- Of four equal keys a search finds the first one that the range has, an absent key goes
after the smaller ones, and past the end of the words nothing is searched. -/
theorem backends_search_alike_in_fours :
    (∀ backend : Backend,
      backend.binarySearch .pairs 0x9000000000000000 keysInFours 1 19 = .ok (.found 12) ∧
        backend.linearSearch .pairs 0x9000000000000000 keysInFours 13 19 = .ok (.found 13) ∧
        backend.binarySearch .pairs 0x9000000000000001 keysInFours 1 19 = .ok (.insertion 16)) ∧
      ∃ reason, Backend.vector.binarySearch .pairs 0 keysInFours 0 21 = .error reason := by
  have small : keysInFours.size < wordLimit := by decide
  have ascending : AscendingOn (Layout.pairs.keyOf keysInFours) 1 19 := by
    have checked : ∀ second < 19, ∀ first < second + 1,
        Layout.pairs.keyOf keysInFours first ≤ Layout.pairs.keyOf keysInFours second := by
      decide +kernel
    exact fun first second _ ordered below => checked second below first (by omega)
  refine ⟨fun backend => ⟨?_, ?_, ?_⟩, ?_⟩
  · exact ((backends_search_alike .pairs keysInFours 0x9000000000000000 1 19 small backend).2
      (by decide) (by decide) ascending).2
  · exact ((backends_search_alike .pairs keysInFours 0x9000000000000000 13 19 small backend).2
      (by decide) (by decide) (ascending.narrow (by decide) (Nat.le_refl 19))).1
  · exact ((backends_search_alike .pairs keysInFours 0x9000000000000001 1 19 small backend).2
      (by decide) (by decide) ascending).2
  · exact (backends_search_alike .pairs keysInFours 0 0 21 small .vector).1.2.mpr (by decide)

end InvertedIndex
