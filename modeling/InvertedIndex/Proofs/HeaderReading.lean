/-
This file proves that reading a header is exact. The five words at an offset are accepted when
they are the header of a store of some number of entries and that whole store, counted without
a limit on sizes, ends inside the region; then the header is the one that such a store is given.
Everything else is refused with an error that carries the offset. The words may hold any counts,
and no check on them overflows: each bound that is tested early is implied by the last one.
-/

import InvertedIndex.Proofs.StoreHeader
import Mathlib.Algebra.Order.Floor.Div

namespace InvertedIndex

namespace Shape

variable (shape : Shape)

/-- Entries take as many blocks as they fill, the last one perhaps in part. -/
theorem indexWords_eq_ceilDiv (entries : Nat) :
    shape.indexWords entries = entries ⌈/⌉ shape.blockEntries := by
  rw [indexWords, Nat.ceilDiv_eq_add_pred_div, Nat.add_sub_assoc shape.block_pos]

variable {shape} {words : Array UInt64} {offset entries : Nat}

/-- A store stands at an offset when the words there are its header and it ends inside the
region. -/
theorem standsAt_iff :
    shape.StandsAt words offset entries ↔
      (words.extract offset (offset + headerWords)).toList = (Header.of shape entries).toWords ∧
        offset + shape.extent entries ≤ words.size := by
  have long : (Header.of shape entries).toWords.length = headerWords := rfl
  constructor
  · intro stands
    have inside := stands.inside
    refine ⟨List.ext_getElem? fun place => ?_, inside⟩
    rw [extent] at inside
    rw [Array.getElem?_toList, Array.getElem?_extract]
    split
    · exact stands.spelled place (by omega)
    · rw [List.getElem?_eq_none (by omega)]
  · rintro ⟨spelled, inside⟩
    refine ⟨inside, fun place below => ?_⟩
    rw [extent] at inside
    rw [← spelled, Array.getElem?_toList, Array.getElem?_extract, if_pos (by omega)]

/-- The entries of a store that ends inside a region are few. -/
theorem StandsAt.entries_small (stands : shape.StandsAt words offset entries)
    (small : words.size < regionLimit) : entries < regionLimit := by
  have inside := stands.inside
  have fewer := shape.entries_le_extent entries
  omega

end Shape

namespace Header

variable {words : Array UInt64} {shape : Shape}

/-- What is not accepted is refused with the offset, and never with a fault. -/
theorem read_cases (small : words.size < regionLimit) (offset : Nat) (shape : Shape) :
    (∃ header, read words offset shape = .ok header) ∨
      ∃ defect, read words offset shape = .error (.error (.header offset defect)) := by
  rw [read]
  dsimp only
  split
  case isFalse => exact .inr ⟨_, rfl⟩
  split
  case isTrue => exact .inr ⟨_, rfl⟩
  split
  case isTrue => exact .inr ⟨_, rfl⟩
  split
  case isTrue => exact .inr ⟨_, rfl⟩
  split
  case isTrue => exact .inr ⟨_, rfl⟩
  -- The count was bounded by the region, so the offset of the records can be computed.
  rw [shape.dataOffset_eq (by omega), lift_ok, ok_bind]
  split
  case isTrue => exact .inr ⟨_, rfl⟩
  split
  case isTrue => exact .inr ⟨_, rfl⟩
  split
  case isTrue => exact .inr ⟨_, rfl⟩
  exact .inl ⟨_, rfl⟩

/-- Reading a header accepts exactly the headers of stores that end inside the region. An
accepted header is the one that a store of its entry count is given: its words are those that
were read, and the size of its store can be counted. All other words are refused with the
offset. -/
theorem read_accepts_exactly (small : words.size < regionLimit) (sized : shape.Sized)
    (offset : Nat) :
    (∀ header, read words offset shape = .ok header ↔
      ∃ entries, forEntries shape entries = .ok header ∧
        (words.extract offset (offset + headerWords)).toList = header.toWords ∧
        offset + headerWords + entries ⌈/⌉ shape.blockEntries + entries * shape.width ≤
          words.size) ∧
    (∀ header, read words offset shape = .ok header →
      header.toWords = (words.extract offset (offset + headerWords)).toList ∧
        ∃ size, header.storeWords = .ok size ∧
          size = headerWords + header.entries ⌈/⌉ shape.blockEntries +
            header.entries * shape.width ∧
          offset + size ≤ words.size) ∧
    ((∀ header, read words offset shape ≠ .ok header) →
      ∃ defect, read words offset shape = .error (.error (.header offset defect))) := by
  have limit : regionLimit < wordLimit := by decide
  refine ⟨fun header => ⟨fun accepted => ?_, ?_⟩, fun header accepted => ?_, fun refused => ?_⟩
  · obtain ⟨entries, stands, rfl⟩ := standsAt_of_read small accepted
    obtain ⟨spelled, inside⟩ := Shape.standsAt_iff.mp stands
    refine ⟨entries, forEntries_eq shape (stands.entries_small small), spelled, ?_⟩
    rw [← shape.indexWords_eq_ceilDiv]
    rw [Shape.extent] at inside
    omega
  · rintro ⟨entries, isHeader, spelled, inside⟩
    rw [← shape.indexWords_eq_ceilDiv] at inside
    have wide := shape.entries_le_mul_width entries
    rw [forEntries_eq shape (by omega)] at isHeader
    cases isHeader
    refine read_of_standsAt sized small (Shape.standsAt_iff.mpr ⟨spelled, ?_⟩)
    rw [Shape.extent]
    omega
  · obtain ⟨entries, stands, rfl⟩ := standsAt_of_read small accepted
    obtain ⟨spelled, inside⟩ := Shape.standsAt_iff.mp stands
    refine ⟨spelled.symm, _, storeWords_of shape (by omega), ?_, inside⟩
    rw [Shape.extent, shape.indexWords_eq_ceilDiv]
    rfl
  · rcases read_cases small offset shape with ⟨header, accepted⟩ | isRefused
    · exact absurd accepted (refused header)
    · exact isRefused

/-- Records of the largest width in blocks of the largest size. -/
def widest : Shape where
  tag := 9
  width := 18446744073709551615
  blockEntries := 18446744073709551615
  width_pos := by decide
  block_pos := by decide

/-- Behind a foreign word, an empty store of the widest records, and then a header that
promises one record of them. -/
def widestRegion : Array UInt64 :=
  #[7, storeMagic, 9, 0, 18446744073709551615, 5, storeMagic, 9, 1, 18446744073709551615, 6]

theorem read_accepts_exactly_widest :
    widestRegion.size < regionLimit ∧ widest.Sized ∧
      read widestRegion 1 widest = .ok (of widest 0) ∧
      (∃ defect, read widestRegion 6 widest = .error (.error (.header 6 defect))) := by
  have small : widestRegion.size < regionLimit := by decide
  have sized : widest.Sized := ⟨by decide, by decide⟩
  obtain ⟨first, -, -⟩ := read_accepts_exactly small sized 1
  obtain ⟨second, -, refused⟩ := read_accepts_exactly small sized 6
  refine ⟨small, sized, (first _).mpr ⟨0, rfl, by decide, by decide⟩,
    refused fun header accepted => ?_⟩
  -- Only a store without entries would end inside the region, and the words count one entry.
  obtain ⟨entries, isHeader, spelled, inside⟩ := (second header).mp accepted
  change 6 + 5 + _ + entries * 18446744073709551615 ≤ 11 at inside
  obtain rfl : entries = 0 := by omega
  cases isHeader
  exact absurd spelled (by decide)

end Header

end InvertedIndex
