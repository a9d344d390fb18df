/-
This file proves what lookups in a store answer. A store whose header was accepted can be
asked for any key: every position that a lookup computes is inside the store, whatever its
block index and its keys hold, so no lookup faults. When the keys ascend and the block
index holds the last key of each block, a lookup finds exactly the entry with the key.
-/

import InvertedIndex.Proofs.Search
import InvertedIndex.Proofs.StoreHeader
import InvertedIndex.Store.Lookup
import Mathlib.Data.List.Basic

namespace InvertedIndex

namespace Store

/-- The key of an entry, or 0 where the store has no such entry. -/
def key (store : Store) (entry : Nat) : UInt64 :=
  (store.data[entry * store.shape.width]?).getD 0

theorem key_eq_keyOf (store : Store) (layout : Layout)
    (width : store.shape.width = layout.stride) : store.key = layout.keyOf store.data := by
  funext entry
  rw [key, Layout.keyOf, width]

/-- What an accepted header promises of a store: its two parts have the lengths that the
number of entries asks for. Nothing is said about the words in them. -/
structure Sound (store : Store) : Prop where
  sized : store.shape.Sized
  header : store.header = Header.of store.shape store.entries
  index_size : store.index.size = store.shape.indexWords store.entries
  data_size : store.data.size = store.entries * store.shape.width
  small : store.shape.extent store.entries < regionLimit

/-- A store that finds its keys: they ascend, and the block index holds the last key of
each block. -/
structure Ordered (store : Store) : Prop extends Sound store where
  ascending : ∀ first second, first < second → second < store.entries →
    store.key first < store.key second
  indexed : ∀ block, block < store.shape.indexWords store.entries →
    store.index[block]? =
      some (store.key (min ((block + 1) * store.shape.blockEntries) store.entries - 1))

/-! ### Opening -/

/-- The store of this many entries at an offset of a region. -/
def cut (words : Array UInt64) (offset : Nat) (shape : Shape) (entries : Nat)
    (backend : Backend) : Store where
  shape := shape
  header := Header.of shape entries
  index := words.extract (offset + headerWords) (offset + (headerWords + shape.indexWords entries))
  data := words.extract (offset + (headerWords + shape.indexWords entries))
    (offset + (headerWords + shape.indexWords entries) + entries * shape.width)
  backend := backend

section

variable {words : Array UInt64} {offset entries : Nat} {shape : Shape}

theorem cut_sound (sized : shape.Sized) (small : words.size < regionLimit)
    (stands : shape.StandsAt words offset entries) (backend : Backend) :
    (cut words offset shape entries backend).Sound where
  sized := sized
  header := rfl
  index_size := by
    have whole := stands.inside
    rw [Shape.extent] at whole
    simp only [cut, Array.size_extract, Store.entries, Header.of]
    omega
  data_size := by
    have whole := stands.inside
    rw [Shape.extent] at whole
    simp only [cut, Array.size_extract, Store.entries, Header.of]
    omega
  small := Nat.lt_of_le_of_lt (Nat.le_trans (Nat.le_add_left _ offset) stands.inside) small

theorem ofHeader_eq (small : words.size < regionLimit)
    (stands : shape.StandsAt words offset entries) (backend : Backend) :
    ofHeader words offset (Header.of shape entries) shape backend =
      .ok (cut words offset shape entries backend) := by
  have whole := stands.inside
  have limit : regionLimit < wordLimit := by decide
  rw [Shape.extent] at whole
  dsimp only [ofHeader, Header.of]
  rw [checkedAdd_eq (by omega), ok_bind, checkedAdd_eq (by omega), ok_bind,
    checkedMul_eq (by omega), ok_bind, checkedAdd_eq (by omega), ok_bind,
    slice_eq (by omega) (by omega), ok_bind, slice_eq (by omega) (by omega), ok_bind]
  rfl

/-- A store that stands in a region can be opened there. -/
theorem open_of_standsAt (sized : shape.Sized) (small : words.size < regionLimit)
    (stands : shape.StandsAt words offset entries) (backend : Backend) :
    Store.open words offset shape backend = .ok (cut words offset shape entries backend) := by
  rw [Store.open, Header.read_of_standsAt sized small stands, ok_bind,
    ofHeader_eq small stands backend]
  rfl

/-- Only a store that stands in a region is opened. -/
theorem standsAt_of_open (small : words.size < regionLimit) {backend : Backend} {store : Store}
    (opened : Store.open words offset shape backend = .ok store) :
    ∃ entries, shape.StandsAt words offset entries ∧
      store = cut words offset shape entries backend := by
  obtain ⟨header, accepted, rest⟩ := bind_eq_ok.mp opened
  obtain ⟨entries, stands, rfl⟩ := Header.standsAt_of_read small accepted
  rw [ofHeader_eq small stands backend] at rest
  cases rest
  exact ⟨entries, stands, rfl⟩

/-- What can be opened with a check can be opened without one. -/
theorem openTrusted_of_standsAt (sized : shape.Sized) (small : words.size < regionLimit)
    (stands : shape.StandsAt words offset entries) (backend : Backend) :
    openTrusted words offset shape backend = .ok (cut words offset shape entries backend) := by
  rw [openTrusted, Header.read_of_standsAt sized small stands]
  exact ofHeader_eq small stands backend

end

/-! ### Single records -/

namespace Sound

variable {store : Store}

theorem data_small (sound : store.Sound) : store.data.size < wordLimit := by
  have small := sound.small
  have limit : regionLimit < wordLimit := by decide
  rw [Shape.extent, ← sound.data_size] at small
  omega

theorem index_small (sound : store.Sound) : store.index.size < wordLimit := by
  have small := sound.small
  have limit : regionLimit < wordLimit := by decide
  rw [Shape.extent, ← sound.index_size] at small
  omega

theorem entries_small (sound : store.Sound) : store.entries < regionLimit :=
  Nat.lt_of_le_of_lt (store.shape.entries_le_extent store.entries) sound.small

theorem sizeWords_eq (sound : store.Sound) :
    store.sizeWords = .ok (store.shape.extent store.entries) := by
  rw [sizeWords, sound.header]
  exact Header.storeWords_of store.shape (Nat.lt_trans sound.small (by decide))

/-- The words of an entry are inside the records. -/
theorem record_inside (sound : store.Sound) {entry : Nat} (below : entry < store.entries) :
    entry * store.shape.width + store.shape.width ≤ store.data.size := by
  have whole : (entry + 1) * store.shape.width ≤ store.entries * store.shape.width :=
    Nat.mul_le_mul_right _ below
  rwa [Nat.succ_mul, ← sound.data_size] at whole

theorem keyAt_eq (sound : store.Sound) {entry : Nat} (below : entry < store.entries) :
    store.keyAt entry = .ok (store.key entry) := by
  have inside := sound.record_inside below
  have positive := store.shape.width_pos
  have small := sound.data_small
  rw [keyAt, checkedMul_eq (by omega), ok_bind, wordAt_eq (by omega), key,
    Array.getElem?_eq_getElem (by omega), Option.getD_some]

theorem record_eq (sound : store.Sound) {entry : Nat} (below : entry < store.entries) :
    store.record entry = .ok (store.data.extract (entry * store.shape.width)
      (entry * store.shape.width + store.shape.width)) := by
  have inside := sound.record_inside below
  have small := sound.data_small
  rw [record, checkedMul_eq (by omega), ok_bind, checkedAdd_eq (by omega), ok_bind,
    slice_eq (by omega) inside]

/-- The keys are listed in the order of the entries. -/
theorem keys_eq (sound : store.Sound) : store.keys = (List.range store.entries).map store.key := by
  have positive := store.shape.width_pos
  have count : (store.data.size + (store.shape.width - 1)) / store.shape.width = store.entries := by
    rw [sound.data_size]
    refine Nat.div_eq_of_lt_le (Nat.le_add_right _ _) ?_
    rw [Nat.succ_mul]
    omega
  rw [keys, count, List.filterMap_eq_map_iff_forall_eq_some]
  intro entry member
  have inside := sound.record_inside (List.mem_range.mp member)
  rw [key, Array.getElem?_eq_getElem (by omega), Option.getD_some]

/-! ### Searching records -/

/-- Halving records of any width ends inside the range, and on ascending keys at the first
entry that is not smaller. -/
theorem halve_eq (sound : store.Sound) (key : UInt64) {low high : Nat} (ordered : low ≤ high)
    (inside : high ≤ store.entries) :
    ∃ entry, store.halve key low high = .ok entry ∧ low ≤ entry ∧ entry ≤ high ∧
      (AscendingOn store.key low high →
        (∀ earlier, low ≤ earlier → earlier < entry → store.key earlier < key) ∧
          (entry < high → key ≤ store.key entry)) := by
  induction gap : high - low using Nat.strongRecOn generalizing low high with
  | ind gap inductionHypothesis =>
    rw [halve]
    split
    · rename_i more
      have middle_lt : low + (high - low) / 2 < high := by omega
      dsimp only
      rw [sound.keyAt_eq (by omega), ok_bind]
      split
      · rename_i isSmaller
        obtain ⟨entry, halved, from_low, to_high, separates⟩ := inductionHypothesis
          (high - (low + (high - low) / 2 + 1)) (by omega) (by omega) inside rfl
        refine ⟨entry, halved, by omega, to_high, fun ascending => ?_⟩
        obtain ⟨smaller, notSmaller⟩ := separates (ascending.narrow (by omega) (Nat.le_refl _))
        refine ⟨fun earlier from_start before => ?_, notSmaller⟩
        rcases Nat.lt_or_ge earlier (low + (high - low) / 2 + 1) with lower | upper
        · exact UInt64.lt_of_le_of_lt
            (ascending earlier _ from_start (by omega) middle_lt) isSmaller
        · exact smaller earlier upper before
      · rename_i isNotSmaller
        rw [UInt64.not_lt] at isNotSmaller
        obtain ⟨entry, halved, from_low, to_middle, separates⟩ := inductionHypothesis
          (low + (high - low) / 2 - low) (by omega) (by omega) (by omega) rfl
        refine ⟨entry, halved, from_low, by omega, fun ascending => ?_⟩
        obtain ⟨smaller, notSmaller⟩ := separates (ascending.narrow (Nat.le_refl _) (by omega))
        refine ⟨smaller, fun _ => ?_⟩
        rcases Nat.lt_or_ge entry (low + (high - low) / 2) with lower | upper
        · exact notSmaller lower
        · rwa [Nat.le_antisymm to_middle upper]
    · refine ⟨low, rfl, Nat.le_refl low, ordered, fun _ => ⟨?_, ?_⟩⟩
      · exact fun earlier from_low before => absurd before (by omega)
      · exact fun below => absurd below (by omega)

/-- A search of the entries inside a store ends inside its range, and on ascending keys at
the first entry that is not smaller, whatever the width of the records. -/
theorem searchEntries_eq (sound : store.Sound) (key : UInt64) {start stop : Nat}
    (ordered : start ≤ stop) (inside : stop ≤ store.entries) (walk : Bool) :
    ∃ position, store.searchEntries key start stop walk = .ok position ∧
      position.Within start stop ∧
      (AscendingOn store.key start stop → position.IsFirst store.key key start stop) := by
  have small := sound.data_small
  have words : stop * store.shape.width ≤ store.data.size := by
    rw [sound.data_size]
    exact Nat.mul_le_mul_right _ inside
  unfold searchEntries
  split
  case h_1 width =>
    have sameKeys := store.key_eq_keyOf .keys width
    rw [width] at words
    obtain ⟨position, searched, first⟩ :=
      store.backend.linearSearch_isFirst .keys key ordered words small
    exact ⟨position, searched, first.within, fun _ => sameKeys ▸ first⟩
  case h_2 width =>
    have sameKeys := store.key_eq_keyOf .keys width
    rw [width] at words
    rw [sameKeys]
    exact store.backend.binarySearch_eq .keys key ordered words small
  case h_3 width =>
    have sameKeys := store.key_eq_keyOf .pairs width
    rw [width] at words
    obtain ⟨position, searched, first⟩ :=
      store.backend.linearSearch_isFirst .pairs key ordered words small
    exact ⟨position, searched, first.within, fun _ => sameKeys ▸ first⟩
  case h_4 width =>
    have sameKeys := store.key_eq_keyOf .pairs width
    rw [width] at words
    rw [sameKeys]
    exact store.backend.binarySearch_eq .pairs key ordered words small
  case h_5 =>
    obtain ⟨entry, halved, from_start, to_stop, separates⟩ := sound.halve_eq key ordered inside
    rw [halved, ok_bind]
    split
    · rename_i below
      rw [sound.keyAt_eq (by omega), ok_bind]
      refine ⟨_, rfl, Position.within_at from_start below, fun ascending => ?_⟩
      obtain ⟨smaller, notSmaller⟩ := separates ascending
      exact .of_entry from_start below smaller (notSmaller below)
    · rename_i beyond
      obtain rfl : entry = stop := by omega
      refine ⟨_, rfl, Position.within_insertion from_start to_stop, fun ascending => ?_⟩
      exact .of_end from_start (separates ascending).1

/-- A lookup of any key in any accepted store comes to an entry of it or to none. On ascending
keys it comes to no entry but the one with the key, whatever the block index holds. -/
theorem find_inside (sound : store.Sound) (key : UInt64) :
    ∃ found, store.find key = .ok found ∧ ∀ entry, found = some entry →
      entry < store.entries ∧
        (AscendingOn store.key 0 store.entries → store.key entry = key) := by
  rw [find]
  split
  · exact ⟨none, rfl, fun _ equal => nomatch equal⟩
  · obtain ⟨position, searched, within, -⟩ := store.backend.binarySearch_eq .keys key
      (Nat.zero_le store.index.size) (Nat.le_of_eq (Nat.mul_one _)) sound.index_small
    rw [searched, ok_bind]
    dsimp only
    split
    · exact ⟨none, rfl, fun _ equal => nomatch equal⟩
    · rename_i notEnd
      have inside : position.entry < store.shape.indexWords store.entries := by
        have upTo := within.le_stop
        rw [← sound.index_size]
        omega
      have start := store.shape.block_start_lt inside
      have stop := store.shape.block_stop_lt sound.sized sound.entries_small inside
      rw [Nat.succ_mul] at stop
      rw [checkedMul_eq (by omega), ok_bind, checkedAdd_eq stop, ok_bind]
      obtain ⟨place, walked, placed, first⟩ := sound.searchEntries_eq key
        (show position.entry * store.shape.blockEntries ≤
          min (position.entry * store.shape.blockEntries + store.shape.blockEntries)
            store.entries by omega) (by omega) true
      rw [walked, ok_bind]
      cases place with
      | found entry =>
        refine ⟨some entry, rfl, fun other equal => ?_⟩
        cases equal
        refine ⟨Nat.lt_of_lt_of_le (placed.found_lt entry rfl) (Nat.min_le_right _ _), ?_⟩
        intro ascending
        have isFirst := first (ascending.narrow (Nat.zero_le _) (Nat.min_le_right _ _))
        exact ((isFirst.found_iff entry).mp rfl).2.2
      | insertion entry => exact ⟨none, rfl, fun _ equal => nomatch equal⟩

theorem find_eq (sound : store.Sound) (key : UInt64) :
    ∃ found, store.find key = .ok found ∧ ∀ entry, found = some entry → entry < store.entries := by
  obtain ⟨found, located, inside⟩ := sound.find_inside key
  exact ⟨found, located, fun entry isFound => (inside entry isFound).1⟩

theorem contains_eq (sound : store.Sound) (key : UInt64) :
    ∃ present, store.contains key = .ok present := by
  obtain ⟨found, located, -⟩ := sound.find_eq key
  exact ⟨found.isSome, by rw [contains, located]; rfl⟩

end Sound

/-! ### Finding a key -/

/-- Where keys ascend, different entries have different keys. -/
theorem eq_of_keys_eq {keys : Nat → UInt64} {stop : Nat}
    (ascending : ∀ first second, first < second → second < stop → keys first < keys second)
    {first second : Nat} (firstBelow : first < stop) (secondBelow : second < stop)
    (same : keys first = keys second) : first = second := by
  rcases Nat.lt_trichotomy first second with before | equal | after
  · exact absurd (same ▸ ascending first second before secondBelow) (UInt64.lt_irrefl _)
  · exact equal
  · exact absurd (same ▸ ascending second first after firstBelow) (UInt64.lt_irrefl _)

/-- The right answer to a lookup: the entry with the key, or none when no entry has it. -/
def Finds (store : Store) (key : UInt64) : Option Nat → Prop
  | some entry => entry < store.entries ∧ store.key entry = key
  | none => ∀ entry, entry < store.entries → store.key entry ≠ key

namespace Ordered

variable {store : Store}

theorem key_le (ordered : store.Ordered) {first second : Nat} (before : first ≤ second)
    (below : second < store.entries) : store.key first ≤ store.key second := by
  rcases Nat.lt_or_eq_of_le before with before | rfl
  · exact UInt64.le_of_lt (ordered.ascending first second before below)
  · exact UInt64.le_refl _

theorem ascendingOn (ordered : store.Ordered) {start stop : Nat} (inside : stop ≤ store.entries) :
    AscendingOn store.key start stop := fun _ _ _ before below =>
  ordered.key_le before (Nat.lt_of_lt_of_le below inside)

/-- No two entries have the same key. -/
theorem key_injective (ordered : store.Ordered) {first second : Nat}
    (firstBelow : first < store.entries) (secondBelow : second < store.entries)
    (same : store.key first = store.key second) : first = second :=
  eq_of_keys_eq ordered.ascending firstBelow secondBelow same

/-- The last key of a block, as the block index holds it. -/
theorem keyOf_index (ordered : store.Ordered) {block : Nat}
    (inside : block < store.shape.indexWords store.entries) :
    Layout.keys.keyOf store.index block =
      store.key (min ((block + 1) * store.shape.blockEntries) store.entries - 1) := by
  rw [Layout.keyOf, Layout.stride, Nat.mul_one, ordered.indexed block inside, Option.getD_some]

theorem index_ascendingOn (ordered : store.Ordered) :
    AscendingOn (Layout.keys.keyOf store.index) 0 store.index.size := by
  intro first second _ before below
  rw [ordered.index_size] at below
  have start := store.shape.block_start_lt below
  have grows : (first + 1) * store.shape.blockEntries ≤ (second + 1) * store.shape.blockEntries :=
    Nat.mul_le_mul_right _ (Nat.succ_le_succ before)
  rw [ordered.keyOf_index below, ordered.keyOf_index (Nat.lt_of_le_of_lt before below)]
  exact ordered.key_le (by omega) (by omega)

/-- The entry that a position found. -/
def foundEntry : Position → Option Nat
  | .found entry => some entry
  | .insertion _ => none

/-- A search of a range that reports the first key that is not smaller answers for the whole
store, when the keys outside the range are known to be too small or too large. -/
theorem finds_of_isFirst (ordered : store.Ordered) {key : UInt64} {start stop : Nat}
    {position : Position} (inside : stop ≤ store.entries)
    (first : position.IsFirst store.key key start stop)
    (below : ∀ entry, entry < start → store.key entry < key)
    (above : ∀ entry, stop ≤ entry → entry < store.entries → key < store.key entry) :
    store.Finds key (foundEntry position) := by
  cases position with
  | found entry =>
    obtain ⟨-, here, isKey⟩ := (first.found_iff entry).mp rfl
    exact ⟨Nat.lt_of_lt_of_le here inside, isKey⟩
  | insertion entry =>
    rintro other otherBelow rfl
    have notBelow : start ≤ other := Nat.le_of_not_lt fun before =>
      UInt64.lt_irrefl _ (below other before)
    have notAbove : other < stop := Nat.lt_of_not_le fun after =>
      UInt64.lt_irrefl _ (above other after otherBelow)
    have notSmaller : entry ≤ other := Nat.le_of_not_lt fun before =>
      UInt64.lt_irrefl _ (first.smaller other notBelow before)
    have entryBelow : entry < stop := Nat.lt_of_le_of_lt notSmaller notAbove
    -- The keys ascend, so the first key that is not smaller is the key itself.
    have isKey : store.key entry = store.key other :=
      UInt64.le_antisymm (ordered.key_le notSmaller otherBelow) (first.notSmaller entryBelow)
    have found := (first.found_iff entry).mpr ⟨rfl, entryBelow, isKey⟩
    cases found

/-- In a store that finds its keys a lookup is right for every key. -/
theorem find_eq (ordered : store.Ordered) (key : UInt64) :
    ∃ found, store.find key = .ok found ∧ store.Finds key found := by
  have sound := ordered.toSound
  rw [find]
  split
  · rename_i empty
    exact ⟨none, rfl, fun entry below => absurd below (by omega)⟩
  rename_i nonempty
  obtain ⟨position, searched, -, splits⟩ := store.backend.binarySearch_eq .keys key
    (Nat.zero_le store.index.size) (Nat.le_of_eq (Nat.mul_one _)) sound.index_small
  have first := splits ordered.index_ascendingOn
  have upTo := first.le_stop
  rw [sound.index_size] at upTo
  rw [searched, ok_bind]
  dsimp only
  -- Blocks before the one found hold smaller keys only.
  have below : ∀ entry, entry < position.entry * store.shape.blockEntries →
      entry < store.entries → store.key entry < key := by
    intro entry before entryBelow
    have block_pos : 0 < position.entry := Nat.pos_of_mul_pos_right (Nat.zero_lt_of_lt before)
    have inside : position.entry - 1 < store.shape.indexWords store.entries := by omega
    have smaller := first.smaller (position.entry - 1) (Nat.zero_le _) (by omega)
    rw [ordered.keyOf_index inside, Nat.sub_add_cancel block_pos] at smaller
    exact UInt64.lt_of_le_of_lt (ordered.key_le (by omega) (by omega)) smaller
  split
  · rename_i atEnd
    refine ⟨none, rfl, fun entry entryBelow isKey => ?_⟩
    have covered := store.shape.le_blocks store.entries
    rw [← sound.index_size, ← atEnd] at covered
    exact UInt64.lt_irrefl key (isKey ▸ below entry (by omega) entryBelow)
  · rename_i notEnd
    have inside : position.entry < store.shape.indexWords store.entries := by
      rw [← sound.index_size]
      rw [← sound.index_size] at upTo
      omega
    have start := store.shape.block_start_lt inside
    have stop := store.shape.block_stop_lt sound.sized sound.entries_small inside
    rw [Nat.succ_mul] at stop
    rw [checkedMul_eq (by omega), ok_bind, checkedAdd_eq stop, ok_bind]
    obtain ⟨place, walked, -, splitsBlock⟩ := sound.searchEntries_eq key
      (show position.entry * store.shape.blockEntries ≤
        min (position.entry * store.shape.blockEntries + store.shape.blockEntries)
          store.entries by omega) (by omega) true
    have firstInBlock := splitsBlock (ordered.ascendingOn (by omega))
    have lastNotSmaller := first.notSmaller (by rw [sound.index_size]; exact inside)
    rw [ordered.keyOf_index inside, Nat.succ_mul] at lastNotSmaller
    refine ⟨foundEntry place, ?_, ordered.finds_of_isFirst (by omega) firstInBlock
      (fun entry before => below entry before (by omega)) fun entry after entryBelow => ?_⟩
    · rw [walked, ok_bind]
      cases place <;> rfl
    · have block_pos := store.shape.block_pos
      exact UInt64.lt_of_le_of_lt lastNotSmaller
        (ordered.ascending _ entry (by omega) entryBelow)

theorem find_eq_some_iff (ordered : store.Ordered) {key : UInt64} {entry : Nat} :
    store.find key = .ok (some entry) ↔ entry < store.entries ∧ store.key entry = key := by
  obtain ⟨found, located, finds⟩ := ordered.find_eq key
  rw [located, Except.ok.injEq]
  constructor
  · rintro rfl
    exact finds
  · rintro ⟨below, isKey⟩
    cases found with
    | none => exact absurd isKey (finds entry below)
    | some other => rw [ordered.key_injective finds.1 below (finds.2.trans isKey.symm)]

theorem find_eq_none_iff (ordered : store.Ordered) {key : UInt64} :
    store.find key = .ok none ↔ ∀ entry, entry < store.entries → store.key entry ≠ key := by
  obtain ⟨found, located, finds⟩ := ordered.find_eq key
  rw [located, Except.ok.injEq]
  constructor
  · rintro rfl
    exact finds
  · intro absent
    cases found with
    | none => rfl
    | some entry => exact absurd finds.2 (absent entry finds.1)

end Ordered

end Store

end InvertedIndex
