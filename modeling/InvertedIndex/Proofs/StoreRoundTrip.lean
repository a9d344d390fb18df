/-
This file proves that a written store reads back. Records whose keys ascend are written
behind a header and a block index, in exactly the words that their number asks for. Opened
at the place where it was written, with any words before and after it, the store has the
records that were given, and a lookup finds exactly the keys among them. All other records
are refused before anything is written.
-/

import InvertedIndex.Proofs.StoreLookup
import InvertedIndex.Store.Encoding

namespace InvertedIndex

namespace Shape

variable (shape : Shape)

/-- The key of an entry in a run of records, or 0 where there is no such entry. -/
def keyIn (records : Array UInt64) (entry : Nat) : UInt64 :=
  (records[entry * shape.width]?).getD 0

/-- The keys of a run of records: the first word of each. -/
def keysIn (records : Array UInt64) : List UInt64 :=
  (List.range (records.size / shape.width)).map (shape.keyIn records)

/-- Records that a store can hold: whole ones, with strictly ascending keys. -/
structure Accepts (records : Array UInt64) : Prop where
  whole : records.size % shape.width = 0
  ascending : (shape.keysIn records).Pairwise (· < ·)

/-- The last key of each block of this many records. -/
def lastKeys (records : Array UInt64) (entries : Nat) : List UInt64 :=
  (List.range (shape.indexWords entries)).map fun block =>
    shape.keyIn records (min ((block + 1) * shape.blockEntries) entries - 1)

/-- The words of the store that holds these records. -/
def storeOf (records : Array UInt64) : Array UInt64 :=
  (Header.of shape (records.size / shape.width)).toWords.toArray ++
    (shape.lastKeys records (records.size / shape.width)).toArray ++ records

variable {shape} {records : Array UInt64}

theorem getElem_eq_keyIn {entry : Nat} (inside : entry * shape.width < records.size) :
    records[entry * shape.width] = shape.keyIn records entry := by
  rw [keyIn, Array.getElem?_eq_getElem inside, Option.getD_some]

theorem size_of_whole (whole : records.size % shape.width = 0) :
    records.size / shape.width * shape.width = records.size :=
  Nat.div_mul_cancel (Nat.dvd_of_mod_eq_zero whole)

theorem entry_inside (whole : records.size % shape.width = 0) {entry : Nat} :
    entry * shape.width < records.size ↔ entry < records.size / shape.width := by
  rw [← size_of_whole whole, Nat.mul_lt_mul_right shape.width_pos, size_of_whole whole]

theorem getElem?_keysIn {entry : Nat} {key : UInt64} :
    (shape.keysIn records)[entry]? = some key ↔
      entry < records.size / shape.width ∧ shape.keyIn records entry = key := by
  rw [List.getElem?_eq_some_iff]
  simp only [keysIn, List.length_map, List.length_range, List.getElem_map, List.getElem_range,
    exists_prop]

theorem mem_keysIn {key : UInt64} :
    key ∈ shape.keysIn records ↔
      ∃ entry, entry < records.size / shape.width ∧ shape.keyIn records entry = key := by
  simp only [keysIn, List.mem_map, List.mem_range]

theorem keysIn_pairwise_iff :
    (shape.keysIn records).Pairwise (· < ·) ↔
      ∀ first second, first < second → second < records.size / shape.width →
        shape.keyIn records first < shape.keyIn records second := by
  rw [keysIn, List.pairwise_map, List.pairwise_iff_getElem]
  simp only [List.length_range, List.getElem_range]
  exact ⟨fun pairs first second before below => pairs first second (by omega) below before,
    fun all first second _ below before => all first second before below⟩

/-! ### Refusing records -/

/-- The check for descending keys stops at the first key that is not greater than the one
before it. -/
theorem firstDescent_eq_some {entry place : Nat} {key : UInt64}
    (descent : shape.firstDescent records entry = some (key, place)) :
    entry < place ∧ place * shape.width < records.size ∧ key = shape.keyIn records place ∧
      key ≤ shape.keyIn records (place - 1) ∧
      ∀ earlier, entry ≤ earlier → earlier + 1 < place →
        shape.keyIn records earlier < shape.keyIn records (earlier + 1) := by
  fun_induction Shape.firstDescent shape records entry with
  | case1 entry more inside notGreater =>
    rw [getElem_eq_keyIn more, getElem_eq_keyIn inside] at notGreater
    rw [getElem_eq_keyIn more] at descent
    cases descent
    exact ⟨Nat.lt_succ_self entry, more, rfl, notGreater, by omega⟩
  | case2 entry more inside greater inductionHypothesis =>
    rw [getElem_eq_keyIn more, getElem_eq_keyIn inside, UInt64.not_le] at greater
    obtain ⟨before, placeInside, isKey, notGreater, ascending⟩ := inductionHypothesis descent
    refine ⟨by omega, placeInside, isKey, notGreater, fun earlier from_entry below => ?_⟩
    rcases Nat.eq_or_lt_of_le from_entry with rfl | later
    · exact greater
    · exact ascending earlier later below
  | case3 => cases descent

/-- The check finds nothing exactly when the keys ascend from one record to the next. -/
theorem firstDescent_eq_none {entry : Nat} :
    shape.firstDescent records entry = none ↔
      ∀ later, entry ≤ later → (later + 1) * shape.width < records.size →
        shape.keyIn records later < shape.keyIn records (later + 1) := by
  fun_induction Shape.firstDescent shape records entry with
  | case1 entry more inside notGreater =>
    rw [getElem_eq_keyIn more, getElem_eq_keyIn inside] at notGreater
    simp only [reduceCtorEq, false_iff]
    intro ascending
    have greater := ascending entry (Nat.le_refl entry) more
    exact absurd (UInt64.lt_of_lt_of_le greater notGreater) (UInt64.lt_irrefl _)
  | case2 entry more inside greater inductionHypothesis =>
    rw [getElem_eq_keyIn more, getElem_eq_keyIn inside, UInt64.not_le] at greater
    rw [inductionHypothesis]
    refine ⟨fun ascending later from_entry below => ?_,
      fun ascending later from_entry => ascending later (by omega)⟩
    rcases Nat.eq_or_lt_of_le from_entry with rfl | after
    · exact greater
    · exact ascending later after below
  | case3 entry done =>
    refine ⟨fun _ later from_entry below => ?_, fun _ => rfl⟩
    have grows : (entry + 1) * shape.width ≤ (later + 1) * shape.width :=
      Nat.mul_le_mul_right _ (Nat.succ_le_succ from_entry)
    omega

/-- Keys that ascend from one record to the next ascend altogether. -/
theorem accepts_iff (whole : records.size % shape.width = 0) :
    shape.Accepts records ↔ shape.firstDescent records 0 = none := by
  rw [firstDescent_eq_none]
  constructor
  · rintro accepts later - inside
    exact keysIn_pairwise_iff.mp accepts.ascending later (later + 1) (Nat.lt_succ_self later)
      ((entry_inside whole).mp inside)
  · refine fun steps => ⟨whole, keysIn_pairwise_iff.mpr fun first second before below => ?_⟩
    induction second with
    | zero => omega
    | succ second inductionHypothesis =>
      have step := steps second (Nat.zero_le second) ((entry_inside whole).mpr below)
      rcases Nat.eq_or_lt_of_le (Nat.le_of_lt_succ before) with rfl | earlier
      · exact step
      · exact UInt64.lt_trans (inductionHypothesis earlier (by omega)) step

/-- A run of words that is no whole number of records is refused as such. -/
theorem write_of_ragged (ragged : records.size % shape.width ≠ 0) :
    shape.write records = .error (.error (.records (.ragged records.size shape.width))) := by
  rw [write, if_pos ragged]
  rfl

/-- Whole records whose keys do not ascend are refused at the first key that is not greater
than the one before it. -/
theorem write_of_descent (whole : records.size % shape.width = 0)
    (refused : ¬ shape.Accepts records) :
    ∃ place, 0 < place ∧ place < records.size / shape.width ∧
      shape.keyIn records place ≤ shape.keyIn records (place - 1) ∧
      (∀ earlier, earlier + 1 < place →
        shape.keyIn records earlier < shape.keyIn records (earlier + 1)) ∧
      shape.write records =
        .error (.error (.records (.keyNotGreater (shape.keyIn records place) place))) := by
  rw [accepts_iff whole] at refused
  obtain ⟨⟨key, place⟩, descent⟩ := Option.ne_none_iff_exists'.mp refused
  obtain ⟨positive, inside, rfl, notGreater, ascending⟩ := firstDescent_eq_some descent
  refine ⟨place, positive, (entry_inside whole).mp inside, notGreater,
    fun earlier => ascending earlier (Nat.zero_le earlier), ?_⟩
  rw [write, if_neg (by omega), descent]

/-! ### Writing -/

theorem blockIndex_eq (sized : shape.Sized) (few : records.size / shape.width < regionLimit)
    (small : records.size < wordLimit) (whole : records.size % shape.width = 0) :
    shape.blockIndex records (records.size / shape.width) =
      .ok (shape.lastKeys records (records.size / shape.width)) := by
  refine mapM_eq_ok fun block member => ?_
  have inside := List.mem_range.mp member
  have start := shape.block_start_lt inside
  have positive := shape.block_pos
  have stop := shape.block_stop_lt sized few inside
  have lastInside : (min ((block + 1) * shape.blockEntries) (records.size / shape.width) - 1) *
      shape.width < records.size := (entry_inside whole).mpr (by rw [Nat.succ_mul]; omega)
  rw [lastKey, checkedMul_eq stop, ok_bind]
  dsimp only
  rw [checkedMul_eq (by omega), ok_bind, wordAt_eq lastInside, getElem_eq_keyIn lastInside]

theorem size_storeOf (whole : records.size % shape.width = 0) :
    (shape.storeOf records).size = shape.extent (records.size / shape.width) := by
  simp only [storeOf, Array.size_append, List.size_toArray, lastKeys, List.length_map,
    List.length_range, extent, size_of_whole whole]
  rfl

/-- Whatever is written begins with a header of the shape and ends with the records. -/
theorem exists_parts_of_write {written : WrittenStore}
    (isWritten : shape.write records = .ok written) :
    ∃ (header : Header) (index : Array UInt64), header.tag = shape.tag ∧
      written.words = header.toWords.toArray ++ index ++ records := by
  rw [write] at isWritten
  split at isWritten
  · cases isWritten
  · split at isWritten
    · cases isWritten
    · obtain ⟨header, isHeader, indexed⟩ := bind_eq_ok.mp isWritten
      obtain ⟨index, -, sized⟩ := bind_eq_ok.mp indexed
      obtain ⟨size, -, same⟩ := bind_eq_ok.mp sized
      cases same
      refine ⟨header, index.toArray, ?_, rfl⟩
      cases offset : shape.dataOffset (records.size / shape.width) with
      | error reason =>
        rw [Header.forEntries, offset] at isHeader
        cases isHeader
      | ok start =>
        rw [Header.forEntries, offset] at isHeader
        cases isHeader
        rfl

/-- Records that a store can hold are written in exactly the words that their number asks
for, as long as these words can be counted. -/
theorem write_of_accepts (sized : shape.Sized) (accepts : shape.Accepts records)
    (few : records.size / shape.width < regionLimit)
    (small : shape.extent (records.size / shape.width) < wordLimit) :
    shape.write records =
      .ok ⟨shape.storeOf records, shape.extent (records.size / shape.width)⟩ := by
  have whole := accepts.whole
  have recordsSmall : records.size < wordLimit := by
    rw [extent, size_of_whole whole] at small
    omega
  rw [write, if_neg (by omega), (accepts_iff whole).mp accepts]
  dsimp only
  rw [Header.forEntries_eq shape few, lift_ok, ok_bind, blockIndex_eq sized few recordsSmall whole,
    lift_ok, ok_bind, Header.storeWords_of shape small, lift_ok, ok_bind]
  rfl

/-- So are records whose store fits into a region. -/
theorem write_eq (sized : shape.Sized) (accepts : shape.Accepts records)
    (small : shape.extent (records.size / shape.width) < regionLimit) :
    shape.write records =
      .ok ⟨shape.storeOf records, shape.extent (records.size / shape.width)⟩ :=
  write_of_accepts sized accepts (Nat.lt_of_le_of_lt (entries_le_extent _ _) small)
    (Nat.lt_trans small (by decide))

/-- Records that are written and fit into a region are whole and in order. -/
theorem storeOf_of_write (sized : shape.Sized) {written : WrittenStore}
    (isWritten : shape.write records = .ok written) (small : written.words.size < regionLimit) :
    shape.Accepts records ∧ written.words = shape.storeOf records := by
  obtain ⟨header, index, -, parts⟩ := exists_parts_of_write isWritten
  rw [parts, Array.size_append] at small
  have accepts : shape.Accepts records := by
    rw [write] at isWritten
    split at isWritten
    · cases isWritten
    · rename_i whole
      cases descent : shape.firstDescent records 0 with
      | some found =>
        rw [descent] at isWritten
        cases isWritten
      | none => exact (accepts_iff (not_not.mp whole)).mpr descent
  refine ⟨accepts, ?_⟩
  have fewer := Nat.div_le_self records.size shape.width
  have blocks := shape.indexWords_le (records.size / shape.width)
  have stored := write_of_accepts sized accepts (by omega) (by
    rw [extent, size_of_whole accepts.whole]
    simp only [headerWords, regionLimit, wordLimit] at *
    omega)
  cases isWritten.symm.trans stored
  rfl

/-! ### Reading back -/

theorem extract_middle {region middle : Array UInt64} (before after : Array UInt64)
    {start stop : Nat} (parts : region = before ++ middle ++ after)
    (from_start : start = before.size)
    (to_stop : stop = before.size + middle.size) : region.extract start stop = middle := by
  subst parts from_start to_stop
  simp [Array.extract_append]

/-- A written store stands where it was written, whatever surrounds it. -/
theorem storeOf_standsAt (whole : records.size % shape.width = 0) (before after : Array UInt64) :
    shape.StandsAt (before ++ shape.storeOf records ++ after) before.size
      (records.size / shape.width) where
  inside := by
    simp only [Array.size_append, size_storeOf whole]
    omega
  spelled place below := by
    have long : (Header.of shape (records.size / shape.width)).toWords.toArray.size =
      headerWords := rfl
    rw [storeOf, Array.append_assoc, Array.append_assoc, Array.append_assoc,
      Array.getElem?_append_right (Nat.le_add_right _ _), Nat.add_sub_cancel_left,
      Array.getElem?_append_left (long ▸ below), List.getElem?_toArray]

/-- The parts of a written store are its block index and the records. -/
theorem cut_storeOf (whole : records.size % shape.width = 0) (before after : Array UInt64)
    (backend : Backend) :
    Store.cut (before ++ shape.storeOf records ++ after) before.size shape
        (records.size / shape.width) backend =
      { shape, header := Header.of shape (records.size / shape.width)
        index := (shape.lastKeys records (records.size / shape.width)).toArray
        data := records, backend } := by
  have long : (Header.of shape (records.size / shape.width)).toWords.toArray.size =
    headerWords := rfl
  have blocks : (shape.lastKeys records (records.size / shape.width)).toArray.size =
      shape.indexWords (records.size / shape.width) := by
    rw [List.size_toArray, lastKeys, List.length_map, List.length_range]
  rw [Store.cut, size_of_whole whole]
  congr 1
  · refine extract_middle (before ++
      (Header.of shape (records.size / shape.width)).toWords.toArray) (records ++ after) ?_ ?_ ?_
    · simp only [storeOf, Array.append_assoc]
    · rw [Array.size_append, long]
    · rw [Array.size_append, long, blocks, Nat.add_assoc]
  · refine extract_middle (before ++
      (Header.of shape (records.size / shape.width)).toWords.toArray ++
        (shape.lastKeys records (records.size / shape.width)).toArray) after ?_ ?_ ?_
    · simp only [storeOf, Array.append_assoc]
    · rw [Array.size_append, Array.size_append, long, blocks, Nat.add_assoc]
    · rw [Array.size_append, Array.size_append, long, blocks]
      omega

/-- A written store finds its keys. -/
theorem cut_storeOf_ordered (sized : shape.Sized) (accepts : shape.Accepts records)
    (before after : Array UInt64)
    (small : before.size + shape.extent (records.size / shape.width) + after.size < regionLimit)
    (backend : Backend) :
    (Store.cut (before ++ shape.storeOf records ++ after) before.size shape
      (records.size / shape.width) backend).Ordered where
  toSound := Store.cut_sound sized
    (by rwa [Array.size_append, Array.size_append, size_storeOf accepts.whole])
    (storeOf_standsAt accepts.whole before after) backend
  ascending := by
    rw [cut_storeOf accepts.whole]
    exact keysIn_pairwise_iff.mp accepts.ascending
  indexed block inside := by
    rw [cut_storeOf accepts.whole] at inside ⊢
    simp only [Store.entries, Header.of] at inside
    rw [List.getElem?_toArray, lastKeys, List.getElem?_map, List.getElem?_range inside,
      Option.map_some]
    rfl

/-- What was written reads back: the store opens where it stands, holds the records that
were given, and finds each of their keys and no other. What cannot be written is refused
with the reason, and nothing is written. -/
theorem write_open_round_trip (shape : Shape) (sized : shape.Sized) :
    (∀ records before after : Array UInt64, shape.Accepts records →
      before.size + shape.extent (records.size / shape.width) + after.size < regionLimit →
      ∃ written, shape.write records = .ok written ∧
        shape.storeWords (records.size / shape.width) = .ok written.size ∧
        written.words.size = written.size ∧
        ∀ backend, ∃ store,
          Store.open (before ++ written.words ++ after) before.size shape backend = .ok store ∧
          store.entries = records.size / shape.width ∧
          store.sizeWords = .ok written.size ∧
          (∀ entry, entry < records.size / shape.width →
            store.record entry = .ok (records.extract (entry * shape.width)
              (entry * shape.width + shape.width))) ∧
          store.keys = shape.keysIn records ∧
          (∀ key entry, store.find key = .ok (some entry) ↔
            (shape.keysIn records)[entry]? = some key) ∧
          (∀ key, store.find key = .ok none ↔ key ∉ shape.keysIn records)) ∧
    (∀ records : Array UInt64, ¬ shape.Accepts records →
      (records.size % shape.width ≠ 0 ∧
        shape.write records = .error (.error (.records (.ragged records.size shape.width)))) ∨
      ∃ place, 0 < place ∧ place < records.size / shape.width ∧
        shape.keyIn records place ≤ shape.keyIn records (place - 1) ∧
        shape.write records =
          .error (.error (.records (.keyNotGreater (shape.keyIn records place) place)))) := by
  have limit : regionLimit < wordLimit := by decide
  refine ⟨fun records before after accepts small => ?_, fun records refused => ?_⟩
  · have whole := accepts.whole
    have extentSmall : shape.extent (records.size / shape.width) < regionLimit := by omega
    refine ⟨_, write_eq sized accepts extentSmall,
      storeWords_eq shape (Nat.lt_of_le_of_lt (entries_le_extent _ _) extentSmall)
        (Nat.lt_trans extentSmall limit), size_storeOf whole, fun backend => ?_⟩
    have ordered := cut_storeOf_ordered sized accepts before after small backend
    have stands := storeOf_standsAt whole before after
    refine ⟨_, Store.open_of_standsAt sized
      (by rwa [Array.size_append, Array.size_append, size_storeOf whole]) stands backend,
      rfl, ordered.sizeWords_eq, fun entry below => ?_, ?_, fun key entry => ?_, fun key => ?_⟩
    · rw [ordered.record_eq below, cut_storeOf whole]
    · rw [ordered.keys_eq, cut_storeOf whole]
      rfl
    · rw [ordered.find_eq_some_iff, cut_storeOf whole]
      exact getElem?_keysIn.symm
    · rw [ordered.find_eq_none_iff, cut_storeOf whole, mem_keysIn]
      exact ⟨fun absent ⟨entry, below, isKey⟩ => absent entry below isKey,
        fun absent entry below isKey => absent ⟨entry, below, isKey⟩⟩
  · by_cases whole : records.size % shape.width = 0
    · obtain ⟨place, positive, below, notGreater, -, written⟩ := write_of_descent whole refused
      exact .inr ⟨place, positive, below, notGreater, written⟩
    · exact .inl ⟨whole, write_of_ragged whole⟩

/-- Three postings between foreign words, looked up with the vector backend. -/
theorem write_open_round_trip_three_postings :
    postings.Sized ∧ postings.Accepts #[10, 1, 20, 2, 30, 3] ∧
      ∃ written, postings.write #[10, 1, 20, 2, 30, 3] = .ok written ∧ written.words.size = 12 ∧
        ∃ store, Store.open (#[5] ++ written.words ++ #[6, 7]) 1 postings .vector = .ok store ∧
          store.keys = [10, 20, 30] ∧ store.find 20 = .ok (some 1) ∧ store.find 25 = .ok none := by
  have sized : postings.Sized := ⟨by decide, by decide⟩
  have accepts : postings.Accepts #[10, 1, 20, 2, 30, 3] := ⟨by decide, by decide⟩
  obtain ⟨written, isWritten, counted, size, opens⟩ :=
    (write_open_round_trip postings sized).1 _ #[5] #[6, 7] accepts (by decide)
  obtain ⟨store, opened, -, -, -, keys, found, absent⟩ := opens .vector
  have extent : postings.storeWords 3 = .ok 12 := by decide
  refine ⟨sized, accepts, written, isWritten, ?_, store, opened, keys, (found 20 1).mpr (by decide),
    (absent 25).mpr (by decide)⟩
  rw [size]
  exact Except.ok.inj (counted.symm.trans extent)

end Shape

end InvertedIndex
