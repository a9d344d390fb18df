/-
This file proves what the header of a store is worth. A header is accepted at an offset
exactly when the five words there are those of a store of some entry count and the whole
store is inside the region. What a lookup computes from an accepted header, the last
entry of a block or the end of the records, is then in range and free of overflow, for
every width and every block size that fits in a word.
-/

import InvertedIndex.Proofs.Checked
import InvertedIndex.Store.Header

namespace InvertedIndex

/-- The parameters of a shape are words. -/
structure Shape.Sized (shape : Shape) : Prop where
  width_lt : shape.width < wordLimit
  block_lt : shape.blockEntries < wordLimit

/-- No region in memory is this long: its size in bytes would not fit in a signed word. -/
def regionLimit : Nat := 1152921504606846976

namespace Shape

variable (shape : Shape)

/-! ### Blocks -/

theorem indexWords_le (entries : Nat) : shape.indexWords entries ≤ entries := by
  have positive := shape.block_pos
  rw [indexWords]
  refine Nat.le_of_lt_succ ((Nat.div_lt_iff_lt_mul positive).mpr ?_)
  have grows : entries * 1 ≤ entries * shape.blockEntries := Nat.mul_le_mul_left _ positive
  rw [Nat.succ_mul]
  omega

/-- The first entry of a block is an entry. -/
theorem block_start_lt {entries block : Nat} (inside : block < shape.indexWords entries) :
    block * shape.blockEntries < entries := by
  have positive := shape.block_pos
  have counted := (Nat.le_div_iff_mul_le positive).mp (Nat.succ_le_of_lt inside)
  rw [Nat.succ_mul] at counted
  omega

/-- The blocks cover all entries. -/
theorem le_blocks (entries : Nat) : entries ≤ shape.indexWords entries * shape.blockEntries := by
  have positive := shape.block_pos
  have remainder := Nat.mod_lt (entries + (shape.blockEntries - 1)) positive
  have whole := Nat.div_add_mod (entries + (shape.blockEntries - 1)) shape.blockEntries
  rw [Nat.mul_comm] at whole
  rw [indexWords]
  omega

/-- The end of a block fits in a word: it is the end of the first block, or at most twice
the number of entries. -/
theorem block_stop_lt (sized : shape.Sized) {entries block : Nat} (small : entries < regionLimit)
    (inside : block < shape.indexWords entries) : (block + 1) * shape.blockEntries < wordLimit := by
  have start := shape.block_start_lt inside
  have block_lt := sized.block_lt
  rw [Nat.succ_mul]
  cases block with
  | zero => omega
  | succ block =>
    have wide : 1 * shape.blockEntries ≤ (block + 1) * shape.blockEntries :=
      Nat.mul_le_mul_right _ (Nat.succ_le_succ (Nat.zero_le block))
    simp only [regionLimit, wordLimit] at *
    omega

/-! ### The extent of a store -/

/-- The words that a store of this many entries takes. -/
def extent (entries : Nat) : Nat :=
  headerWords + shape.indexWords entries + entries * shape.width

theorem entries_le_mul_width (entries : Nat) : entries ≤ entries * shape.width :=
  Nat.le_mul_of_pos_right entries shape.width_pos

theorem entries_le_extent (entries : Nat) : entries ≤ shape.extent entries := by
  have := shape.entries_le_mul_width entries
  rw [extent]
  omega

theorem dataOffset_eq {entries : Nat} (small : entries < regionLimit) :
    shape.dataOffset entries = .ok (headerWords + shape.indexWords entries) := by
  have blocks := shape.indexWords_le entries
  refine checkedAdd_eq ?_
  simp only [headerWords, regionLimit, wordLimit] at *
  omega

end Shape

namespace Header

/-- The header of a store of this many entries. -/
def of (shape : Shape) (entries : Nat) : Header where
  tag := shape.tag
  entries := entries
  width := shape.width
  dataOffset := headerWords + shape.indexWords entries

theorem forEntries_eq (shape : Shape) {entries : Nat} (small : entries < regionLimit) :
    forEntries shape entries = .ok (of shape entries) := by
  rw [forEntries, shape.dataOffset_eq small]
  rfl

theorem storeWords_of (shape : Shape) {entries : Nat}
    (small : shape.extent entries < wordLimit) :
    (of shape entries).storeWords = .ok (shape.extent entries) := by
  have product : entries * shape.width < wordLimit := by
    rw [Shape.extent] at small
    omega
  have sum : headerWords + shape.indexWords entries + entries * shape.width < wordLimit := small
  dsimp only [storeWords, of]
  rw [checkedMul_eq product, ok_bind, checkedAdd_eq sum]
  rfl

end Header

theorem Shape.storeWords_eq (shape : Shape) {entries : Nat} (small : entries < regionLimit)
    (extent : shape.extent entries < wordLimit) :
    shape.storeWords entries = .ok (shape.extent entries) := by
  rw [storeWords, Header.forEntries_eq shape small]
  exact Header.storeWords_of shape extent

/-! ### Accepted headers -/

/-- A store of this many entries stands at an offset of a region: its header is there, and
the region goes on to its end. -/
structure Shape.StandsAt (shape : Shape) (words : Array UInt64) (offset entries : Nat) :
    Prop where
  inside : offset + shape.extent entries ≤ words.size
  spelled : ∀ place, place < headerWords →
    words[offset + place]? = (Header.of shape entries).toWords[place]?

namespace Header

variable {words : Array UInt64} {offset : Nat} {shape : Shape}

/-- The header of a store that stands at an offset is accepted. -/
theorem read_of_standsAt (sized : shape.Sized) (small : words.size < regionLimit) {entries : Nat}
    (stands : shape.StandsAt words offset entries) :
    read words offset shape = .ok (of shape entries) := by
  have whole := stands.inside
  have blocks := shape.indexWords_le entries
  have width_lt := sized.width_lt
  simp only [Shape.extent, headerWords, regionLimit, wordLimit] at whole small width_lt
  have start := shape.entries_le_mul_width entries
  have inside : offset + headerWords ≤ words.size := by rw [headerWords]; omega
  -- The bound of this word is the condition of `read` itself.
  have dataOffset : words[offset + 4] = UInt64.ofNat (headerWords + shape.indexWords entries) :=
    Option.some.inj ((getElem?_pos words _ inside).symm.trans (stands.spelled 4 (by decide)))
  obtain ⟨_, magic⟩ := Array.getElem?_eq_some_iff.mp (stands.spelled 0 (by decide))
  obtain ⟨_, tag⟩ := Array.getElem?_eq_some_iff.mp (stands.spelled 1 (by decide))
  obtain ⟨_, count⟩ := Array.getElem?_eq_some_iff.mp (stands.spelled 2 (by decide))
  obtain ⟨_, width⟩ := Array.getElem?_eq_some_iff.mp (stands.spelled 3 (by decide))
  simp only [Header.of, Nat.add_zero] at magic tag count width
  have countValue : (UInt64.ofNat entries).toNat = entries :=
    toNat_ofNat (by rw [wordLimit]; omega)
  have widthValue : (UInt64.ofNat shape.width).toNat = shape.width :=
    toNat_ofNat (by rw [wordLimit]; omega)
  have dataOffsetValue : (UInt64.ofNat (headerWords + shape.indexWords entries)).toNat =
      headerWords + shape.indexWords entries :=
    toNat_ofNat (by rw [wordLimit, headerWords]; omega)
  rw [read, dif_pos inside]
  dsimp only
  rw [magic, tag, count, width, dataOffset, countValue, widthValue, dataOffsetValue,
    if_neg (by simp), if_neg (by simp), if_neg (by simp), if_neg (by omega),
    shape.dataOffset_eq (by rw [regionLimit]; omega), lift_ok, ok_bind, if_neg (by simp),
    if_neg (by rw [wordLimit, headerWords]; omega), if_neg (by rw [headerWords]; omega)]
  rfl

/-- An accepted header belongs to a store that stands at the offset. -/
theorem standsAt_of_read (small : words.size < regionLimit) {header : Header}
    (accepted : read words offset shape = .ok header) :
    ∃ entries, shape.StandsAt words offset entries ∧ header = of shape entries := by
  rw [read] at accepted
  dsimp only at accepted
  split at accepted
  case isFalse => cases accepted
  rename_i inside
  split at accepted
  case isTrue => cases accepted
  rename_i magic
  split at accepted
  case isTrue => cases accepted
  rename_i tag
  split at accepted
  case isTrue => cases accepted
  rename_i width
  split at accepted
  case isTrue => cases accepted
  rename_i few
  rw [shape.dataOffset_eq (by omega), lift_ok, ok_bind] at accepted
  split at accepted
  case isTrue => cases accepted
  rename_i dataOffset
  split at accepted
  case isTrue => cases accepted
  split at accepted
  case isTrue => cases accepted
  rename_i short
  rw [Classical.not_not] at magic tag width dataOffset
  injection accepted with accepted
  simp only [headerWords] at inside dataOffset short
  refine ⟨words[offset + 2].toNat, ⟨?_, fun place below => ?_⟩, ?_⟩
  · simp only [Shape.extent, headerWords]
    rw [← width]
    omega
  · obtain rfl | rfl | rfl | rfl | rfl :
        place = 0 ∨ place = 1 ∨ place = 2 ∨ place = 3 ∨ place = 4 := by
      rw [headerWords] at below
      omega
    · exact Array.getElem?_eq_some_iff.mpr ⟨by omega, magic⟩
    · exact Array.getElem?_eq_some_iff.mpr ⟨by omega, tag⟩
    · exact Array.getElem?_eq_some_iff.mpr ⟨by omega, UInt64.ofNat_toNat.symm⟩
    · refine Array.getElem?_eq_some_iff.mpr ⟨by omega, ?_⟩
      rw [of, ← width, UInt64.ofNat_toNat]
    · refine Array.getElem?_eq_some_iff.mpr ⟨by omega, ?_⟩
      rw [of, headerWords, ← dataOffset, UInt64.ofNat_toNat]
  · rw [← accepted, of, tag, width, dataOffset]
    rfl

end Header

end InvertedIndex
