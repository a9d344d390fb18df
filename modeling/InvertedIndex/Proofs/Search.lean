/-
This file says what a search answers and proves it of every search. Two statements are
kept apart. Whatever the words are, a position reported for a range stays inside the
range, so a caller may go on reading at it. When the keys of the range ascend, the
position is the first entry whose key is not smaller than the one searched. The linear
searches have the second property on every range; only halving relies on the order.

Keys are read through a function from entries to words, so that plain keys, pairs and
records of any width share one statement.
-/

import InvertedIndex.Proofs.Checked
import InvertedIndex.Search.Backend

namespace InvertedIndex

/-- The key of an entry in an array of words, or 0 where the array has no such entry. -/
def Layout.keyOf (layout : Layout) (data : Array UInt64) (entry : Nat) : UInt64 :=
  (data[entry * layout.stride]?).getD 0

theorem EntryRange.keyAt_eq {layout : Layout} {data : Array UInt64}
    (range : EntryRange layout data) (entry : Nat) (below : entry < range.stop) :
    range.keyAt entry below = layout.keyOf data entry := by
  rw [Layout.keyOf, Array.getElem?_eq_getElem (range.word_lt below), Option.getD_some]
  rfl

/-- The keys from `start` up to `stop` never descend. -/
def AscendingOn (keys : Nat → UInt64) (start stop : Nat) : Prop :=
  ∀ first second, start ≤ first → first ≤ second → second < stop → keys first ≤ keys second

theorem AscendingOn.narrow {keys : Nat → UInt64} {start stop low high : Nat}
    (ascending : AscendingOn keys start stop) (above : start ≤ low) (below : high ≤ stop) :
    AscendingOn keys low high := fun first second from_low ordered to_high =>
  ascending first second (Nat.le_trans above from_low) ordered (Nat.lt_of_lt_of_le to_high below)

namespace Position

/-- A position that lies inside a range: an entry of it, or its end for an absent key. -/
structure Within (position : Position) (start stop : Nat) : Prop where
  start_le : start ≤ position.entry
  le_stop : position.entry ≤ stop
  found_lt : ∀ entry, position = .found entry → entry < stop

/-- The position of the first entry of a range whose key is not smaller than the one
searched; found when its key is the one searched. -/
structure IsFirst (position : Position) (keys : Nat → UInt64) (key : UInt64)
    (start stop : Nat) : Prop where
  start_le : start ≤ position.entry
  le_stop : position.entry ≤ stop
  smaller : ∀ entry, start ≤ entry → entry < position.entry → keys entry < key
  notSmaller : position.entry < stop → key ≤ keys position.entry
  outcome : position =
    .at (decide (position.entry < stop ∧ keys position.entry = key)) position.entry

@[simp]
theorem entry_at (isKey : Bool) (entry : Nat) : (Position.at isKey entry).entry = entry := by
  cases isKey <;> rfl

theorem at_eq_found_iff {isKey : Bool} {entry other : Nat} :
    Position.at isKey entry = .found other ↔ isKey = true ∧ entry = other := by
  cases isKey <;> simp [Position.at]

theorem within_at {isKey : Bool} {entry start stop : Nat} (above : start ≤ entry)
    (below : entry < stop) : (Position.at isKey entry).Within start stop where
  start_le := by simpa using above
  le_stop := by simpa using Nat.le_of_lt below
  found_lt other equal := (at_eq_found_iff.mp equal).2 ▸ below

theorem within_insertion {entry start stop : Nat} (above : start ≤ entry)
    (below : entry ≤ stop) : (Position.insertion entry).Within start stop where
  start_le := above
  le_stop := below
  found_lt _ equal := by cases equal

theorem Within.widen {position : Position} {start stop low high : Nat}
    (within : position.Within low high) (above : start ≤ low) (below : high ≤ stop) :
    position.Within start stop where
  start_le := Nat.le_trans above within.start_le
  le_stop := Nat.le_trans within.le_stop below
  found_lt entry equal := Nat.lt_of_lt_of_le (within.found_lt entry equal) below

namespace IsFirst

variable {keys : Nat → UInt64} {key : UInt64} {start stop : Nat} {position : Position}

theorem found_iff (first : position.IsFirst keys key start stop) (entry : Nat) :
    position = .found entry ↔
      entry = position.entry ∧ position.entry < stop ∧ keys position.entry = key := by
  rw [first.outcome, at_eq_found_iff, decide_eq_true_iff, entry_at]
  exact ⟨fun ⟨here, equal⟩ => ⟨equal.symm, here⟩, fun ⟨equal, here⟩ => ⟨here, equal.symm⟩⟩

theorem within (first : position.IsFirst keys key start stop) : position.Within start stop where
  start_le := first.start_le
  le_stop := first.le_stop
  found_lt entry equal := by
    obtain ⟨rfl, below, -⟩ := (first.found_iff entry).mp equal
    exact below

/-- A search that stops at an entry looks at the key there. -/
theorem of_entry {entry : Nat} (above : start ≤ entry) (below : entry < stop)
    (smaller : ∀ earlier, start ≤ earlier → earlier < entry → keys earlier < key)
    (notSmaller : key ≤ keys entry) :
    (Position.at (keys entry == key) entry).IsFirst keys key start stop where
  start_le := by simpa using above
  le_stop := by simpa using Nat.le_of_lt below
  smaller := by simpa using smaller
  notSmaller _ := by simpa using notSmaller
  outcome := by
    rw [entry_at]
    simp only [below, true_and]
    rfl

/-- A search that runs through the whole range reports its end. -/
theorem of_end (ordered : start ≤ stop)
    (smaller : ∀ earlier, start ≤ earlier → earlier < stop → keys earlier < key) :
    (Position.insertion stop).IsFirst keys key start stop where
  start_le := ordered
  le_stop := Nat.le_refl stop
  smaller := smaller
  notSmaller below := absurd below (Nat.lt_irrefl stop)
  outcome := by simp [Position.at, Position.entry]

/-- Entries below the range are as good as entries of it, when their keys are smaller. -/
theorem extend_down {low : Nat} (first : position.IsFirst keys key low stop)
    (above : start ≤ low)
    (smaller : ∀ earlier, start ≤ earlier → earlier < low → keys earlier < key) :
    position.IsFirst keys key start stop where
  start_le := Nat.le_trans above first.start_le
  le_stop := first.le_stop
  smaller entry from_start before := by
    rcases Nat.lt_or_ge entry low with outside | inside
    · exact smaller entry from_start outside
    · exact first.smaller entry inside before
  notSmaller := first.notSmaller
  outcome := first.outcome

/-- Entries above the range do not matter once the position is inside it. -/
theorem extend_up {high : Nat} (first : position.IsFirst keys key start high)
    (below : high ≤ stop) (reached : position.entry < high ∨ high = stop) :
    position.IsFirst keys key start stop where
  start_le := first.start_le
  le_stop := Nat.le_trans first.le_stop below
  smaller := first.smaller
  notSmaller inside := first.notSmaller (by omega)
  outcome := by
    have same : position.entry < high ↔ position.entry < stop := by omega
    exact first.outcome.trans (by simp only [same])

/-- No two positions of a range are the first entry that is not smaller. -/
theorem unique {other : Position} (first : position.IsFirst keys key start stop)
    (second : other.IsFirst keys key start stop) : position = other := by
  have same : position.entry = other.entry := by
    rcases Nat.lt_trichotomy position.entry other.entry with before | equal | after
    · have smaller := second.smaller position.entry first.start_le before
      have notSmaller := first.notSmaller (Nat.lt_of_lt_of_le before second.le_stop)
      exact absurd (UInt64.lt_of_le_of_lt notSmaller smaller) (UInt64.lt_irrefl key)
    · exact equal
    · have smaller := first.smaller other.entry second.start_le after
      have notSmaller := second.notSmaller (Nat.lt_of_lt_of_le after first.le_stop)
      exact absurd (UInt64.lt_of_le_of_lt notSmaller smaller) (UInt64.lt_irrefl key)
  rw [first.outcome, second.outcome, same]

end IsFirst

end Position

/-! ### Scanning -/

variable {layout : Layout} {data : Array UInt64}

/-- Walking on from an entry with only smaller keys before it. -/
theorem EntryRange.scanFrom_isFirst (range : EntryRange layout data) (key : UInt64)
    {start entry : Nat} (above : start ≤ entry) (below : entry ≤ range.stop)
    (smaller : ∀ earlier, start ≤ earlier → earlier < entry → layout.keyOf data earlier < key) :
    (range.scanFrom key entry).IsFirst (layout.keyOf data) key start range.stop := by
  fun_induction EntryRange.scanFrom range key entry with
  | case1 entry inside value notSmaller =>
    have here : value = layout.keyOf data entry := range.keyAt_eq entry inside
    rw [here] at notSmaller ⊢
    exact .of_entry above inside smaller notSmaller
  | case2 entry inside value isSmaller inductionHypothesis =>
    have here : value = layout.keyOf data entry := range.keyAt_eq entry inside
    rw [here, UInt64.not_le] at isSmaller
    refine inductionHypothesis (by omega) (by omega) fun earlier from_start before => ?_
    rcases Nat.lt_succ_iff_lt_or_eq.mp before with before | rfl
    · exact smaller earlier from_start before
    · exact isSmaller
  | case3 entry outside =>
    have atEnd : entry = range.stop := by omega
    subst atEnd
    exact .of_end above smaller

/-! ### The portable searches -/

theorem Scalar.range_eq {start stop : Nat} (ordered : start ≤ stop)
    (inside : stop * layout.stride ≤ data.size) (small : data.size < wordLimit) :
    ∃ range, Scalar.range layout data start stop = .ok range ∧
      range.start = start ∧ range.stop = stop := by
  have firstInside : layout.stride * start ≤ layout.stride * stop := Nat.mul_le_mul_left _ ordered
  have lastInside : layout.stride * stop ≤ data.size := by rwa [Nat.mul_comm]
  have firstSmall : layout.stride * start < wordLimit := by omega
  have lastSmall : layout.stride * stop < wordLimit := by omega
  refine ⟨{ start, stop, ordered, inside }, ?_, rfl, rfl⟩
  rw [Scalar.range, checkedMul_eq firstSmall, ok_bind, checkedMul_eq lastSmall, ok_bind,
    dif_pos ⟨firstInside, lastInside⟩]
  rfl

/-- The partition point of any keys lies inside the part that is halved. -/
theorem Scalar.partitionPoint_bounds (range : EntryRange layout data) (key : UInt64)
    (base size : Nat) (below : base + size ≤ range.stop) :
    base ≤ partitionPoint range key base size below ∧
      partitionPoint range key base size below ≤ base + size := by
  fun_induction Scalar.partitionPoint range key base size below with
  | case1 => omega
  | case2 => omega
  | case3 => omega
  | case4 => omega
  | case5 => omega

/-- The partition point of ascending keys separates the smaller ones from the others. -/
theorem Scalar.partitionPoint_separates (range : EntryRange layout data) (key : UInt64)
    (base size : Nat) (below : base + size ≤ range.stop)
    (ascending : AscendingOn (layout.keyOf data) base (base + size)) :
    (∀ entry, base ≤ entry → entry < partitionPoint range key base size below →
      layout.keyOf data entry < key) ∧
    (partitionPoint range key base size below < base + size →
      key ≤ layout.keyOf data (partitionPoint range key base size below)) := by
  fun_induction Scalar.partitionPoint range key base size below with
  | case1 base size below several half isSmaller inductionHypothesis =>
    rw [range.keyAt_eq] at isSmaller
    have upper : base + half + (size - half) = base + size := by omega
    rw [upper] at inductionHypothesis
    obtain ⟨smaller, notSmaller⟩ :=
      inductionHypothesis (ascending.narrow (Nat.le_add_right base half) (Nat.le_refl _))
    refine ⟨fun entry from_base before => ?_, notSmaller⟩
    rcases Nat.lt_or_ge entry (base + half) with lower | inside
    · exact UInt64.lt_of_le_of_lt
        (ascending entry (base + half) from_base (by omega) (by omega)) isSmaller
    · exact smaller entry inside before
  | case2 base size below several half notSmaller inductionHypothesis =>
    rw [range.keyAt_eq, UInt64.not_lt] at notSmaller
    obtain ⟨smaller, here⟩ :=
      inductionHypothesis (ascending.narrow (Nat.le_refl _) (by omega))
    refine ⟨smaller, fun inside => ?_⟩
    rcases Nat.lt_or_ge (partitionPoint range key base (size - half) (by omega))
      (base + (size - half)) with lower | upper
    · exact here lower
    · exact UInt64.le_trans notSmaller
        (ascending (base + half) _ (by omega) (by omega) inside)
  | case3 base below several isSmaller =>
    rw [range.keyAt_eq] at isSmaller
    refine ⟨fun entry from_base before => ?_, fun inside => absurd inside (by omega)⟩
    obtain rfl : entry = base := by omega
    exact isSmaller
  | case4 base below several notSmaller =>
    rw [range.keyAt_eq, UInt64.not_lt] at notSmaller
    exact ⟨fun entry from_base before => absurd before (by omega), fun _ => notSmaller⟩
  | case5 base size below several single =>
    exact ⟨fun entry from_base before => absurd before (by omega),
      fun inside => absurd inside (by omega)⟩

theorem Scalar.binarySearch_within (range : EntryRange layout data) (key : UInt64) :
    (binarySearch range key).Within range.start range.stop := by
  have ordered := range.ordered
  obtain ⟨lower, upper⟩ := partitionPoint_bounds range key range.start
    (range.stop - range.start) (by omega)
  rw [binarySearch]
  split
  · exact Position.within_at lower ‹_›
  · exact Position.within_insertion lower (by omega)

theorem Scalar.binarySearch_isFirst (range : EntryRange layout data) (key : UInt64)
    (ascending : AscendingOn (layout.keyOf data) range.start range.stop) :
    (binarySearch range key).IsFirst (layout.keyOf data) key range.start range.stop := by
  have ordered := range.ordered
  have upTo : range.start + (range.stop - range.start) = range.stop := by omega
  obtain ⟨lower, upper⟩ := partitionPoint_bounds range key range.start
    (range.stop - range.start) (by omega)
  obtain ⟨smaller, notSmaller⟩ := partitionPoint_separates range key range.start
    (range.stop - range.start) (by omega) (by rwa [upTo])
  rw [binarySearch]
  split
  · rename_i inside
    rw [range.keyAt_eq]
    exact .of_entry lower inside smaller (notSmaller (by omega))
  · rename_i outside
    obtain atEnd : partitionPoint range key range.start (range.stop - range.start) (by omega) =
      range.stop := by omega
    rw [atEnd] at smaller ⊢
    exact .of_end ordered smaller

/-! ### Four words at once -/

/-- Flipping the sign bit turns the signed order into the unsigned one. -/
theorem Vector.toInt_biased (word : UInt64) :
    (biased word).toInt = (word.toNat : Int) - 9223372036854775808 := by
  have bound := word.toNat_lt
  have quotient : (word.toNat ^^^ 9223372036854775808) / 2 ^ 63 = word.toNat / 2 ^ 63 ^^^ 1 :=
    Nat.xor_div_two_pow
  have remainder : (word.toNat ^^^ 9223372036854775808) % 2 ^ 63 = word.toNat % 2 ^ 63 ^^^ 0 :=
    Nat.xor_mod_two_pow
  have flipped : (biased word).toInt =
      Int.bmod ((word.toNat ^^^ 9223372036854775808 : Nat) : Int) (2 ^ 64) :=
    BitVec.toInt_xor word.toBitVec signBit.toBitVec
  rw [Nat.xor_zero] at remainder
  rw [flipped, Int.bmod_def]
  have half : word.toNat / 2 ^ 63 = 0 ∨ word.toNat / 2 ^ 63 = 1 := by omega
  rcases half with low | high
  · rw [low, Nat.zero_xor] at quotient
    omega
  · rw [high, Nat.xor_self] at quotient
    omega

theorem Vector.biased_lt_biased (first second : UInt64) :
    biased first < biased second ↔ first < second := by
  rw [Int64.lt_iff_toInt_lt, toInt_biased, toInt_biased, UInt64.lt_iff_toNat_lt]
  omega

theorem Vector.lessThan_eq (key : UInt64) (lanes : Lanes UInt64) :
    lessThan key lanes = lanes.map fun lane => decide (lane < key) := by
  simp only [lessThan, biased_lt_biased]

/-- The leading lanes hold the keys below the one searched, and the next lane does not. -/
theorem Vector.leadingCount_lessThan (keys : Nat → UInt64) (key : UInt64) (entry : Nat) :
    let count := (lessThan key ⟨keys entry, keys (entry + 1), keys (entry + 2),
      keys (entry + 3)⟩).leadingCount
    (∀ earlier, entry ≤ earlier → earlier < entry + count → keys earlier < key) ∧
      (count < 4 → key ≤ keys (entry + count)) ∧ count ≤ 4 := by
  intro count
  have value : count = (lessThan key ⟨keys entry, keys (entry + 1), keys (entry + 2),
      keys (entry + 3)⟩).leadingCount := rfl
  simp only [lessThan_eq, Lanes.map, Lanes.leadingCount] at value
  have cover : ∀ earlier, entry ≤ earlier → earlier < entry + count → count ≤ 4 →
      earlier = entry ∨ earlier = entry + 1 ∨ earlier = entry + 2 ∨ earlier = entry + 3 := by
    omega
  grind [UInt64.not_lt]

/-- Scanning plain keys from an entry with only smaller keys before it. -/
theorem Vector.scanKeys_isFirst {data : Array UInt64} (range : EntryRange .keys data)
    (key : UInt64) {start entry : Nat} (above : start ≤ entry) (below : entry ≤ range.stop)
    (smaller : ∀ earlier, start ≤ earlier → earlier < entry →
      Layout.keys.keyOf data earlier < key) :
    (scanKeys range key entry).IsFirst (Layout.keys.keyOf data) key start range.stop := by
  fun_induction Vector.scanKeys range key entry with
  | case1 entry four lanes count partway =>
    have counted := leadingCount_lessThan (Layout.keys.keyOf data) key entry
    simp only [count, lanes, range.keyAt_eq] at partway ⊢
    obtain ⟨before, here, -⟩ := counted
    refine .of_entry (by omega) (by omega) (fun earlier from_start inside => ?_) (here partway)
    rcases Nat.lt_or_ge earlier entry with outside | scanned
    · exact smaller earlier from_start outside
    · exact before earlier scanned inside
  | case2 entry four lanes count whole inductionHypothesis =>
    have counted := leadingCount_lessThan (Layout.keys.keyOf data) key entry
    simp only [count, lanes, range.keyAt_eq] at whole
    obtain ⟨before, -, atMost⟩ := counted
    refine inductionHypothesis (by omega) (by omega) fun earlier from_start inside => ?_
    rcases Nat.lt_or_ge earlier entry with outside | scanned
    · exact smaller earlier from_start outside
    · exact before earlier scanned (by omega)
  | case3 entry outside => exact range.scanFrom_isFirst key above below smaller

/-- The two lanes with keys tell which of two neighbouring pairs are below a key. -/
theorem Vector.lessThan_pairLanes {data : Array UInt64} (range : EntryRange .pairs data)
    (key : UInt64) (entry : Nat) (two : entry + 2 ≤ range.stop) :
    (lessThan key (pairLanes range entry two)).first =
        decide (Layout.pairs.keyOf data entry < key) ∧
      (lessThan key (pairLanes range entry two)).third =
        decide (Layout.pairs.keyOf data (entry + 1) < key) := by
  have inside : range.stop * 2 ≤ data.size := range.inside
  have first : Layout.pairs.keyOf data entry = data[2 * entry] := by
    rw [Layout.keyOf, Layout.stride, Nat.mul_comm, Array.getElem?_eq_getElem (by omega),
      Option.getD_some]
  have second : Layout.pairs.keyOf data (entry + 1) = data[2 * entry + 2] := by
    rw [Layout.keyOf, Layout.stride, Nat.mul_comm, Array.getElem?_eq_getElem (by omega),
      Option.getD_some]
    rfl
  rw [lessThan_eq, first, second]
  exact ⟨rfl, rfl⟩

/-- Scanning pairs from an entry with only smaller keys before it. -/
theorem Vector.scanPairs_isFirst {data : Array UInt64} (range : EntryRange .pairs data)
    (key : UInt64) {start entry : Nat} (above : start ≤ entry) (below : entry ≤ range.stop)
    (smaller : ∀ earlier, start ≤ earlier → earlier < entry →
      Layout.pairs.keyOf data earlier < key) :
    (scanPairs range key entry).IsFirst (Layout.pairs.keyOf data) key start range.stop := by
  fun_induction Vector.scanPairs range key entry with
  | case1 entry two mask both inductionHypothesis =>
    obtain ⟨first, second⟩ := lessThan_pairLanes range key entry two
    simp only [mask, first, second, Bool.and_eq_true, decide_eq_true_eq] at both
    refine inductionHypothesis (by omega) (by omega) fun earlier from_start before => ?_
    rcases Nat.lt_or_ge earlier entry with outside | scanned
    · exact smaller earlier from_start outside
    · obtain rfl | rfl : earlier = entry ∨ earlier = entry + 1 := by omega
      · exact both.1
      · exact both.2
  | case2 entry two mask notBoth notFirst =>
    obtain ⟨first, -⟩ := lessThan_pairLanes range key entry two
    simp only [mask, first, Bool.not_eq_true', decide_eq_false_iff_not, UInt64.not_lt] at notFirst
    rw [range.keyAt_eq]
    exact .of_entry above (by omega) smaller notFirst
  | case3 entry two mask notBoth notNotFirst =>
    obtain ⟨first, second⟩ := lessThan_pairLanes range key entry two
    simp only [mask, first, second, Bool.and_eq_true, decide_eq_true_eq, Bool.not_eq_true',
      decide_eq_false_iff_not, not_and, UInt64.not_lt, UInt64.not_le] at notBoth notNotFirst
    rw [range.keyAt_eq]
    refine .of_entry (by omega) (by omega) (fun earlier from_start before => ?_)
      (notBoth notNotFirst)
    rcases Nat.lt_succ_iff_lt_or_eq.mp before with outside | rfl
    · exact smaller earlier from_start outside
    · exact notNotFirst
  | case4 entry outside => exact range.scanFrom_isFirst key above below smaller

theorem Vector.linearSearch_isFirst (range : EntryRange layout data) (key : UInt64) :
    (linearSearch range key).IsFirst (layout.keyOf data) key range.start range.stop := by
  cases layout with
  | keys =>
    exact scanKeys_isFirst range key (Nat.le_refl _) range.ordered
      fun earlier from_start before => absurd before (by omega)
  | pairs =>
    exact scanPairs_isFirst range key (Nat.le_refl _) range.ordered
      fun earlier from_start before => absurd before (by omega)

/-- Narrowing any range ends inside it. -/
theorem Vector.narrow_within (range : EntryRange layout data) (key : UInt64) (low high : Nat)
    (ordered : low ≤ high) (below : high ≤ range.stop) :
    (narrow range key low high ordered below).Within low range.stop := by
  fun_induction Vector.narrow range key low high ordered below with
  | case1 low high ordered below wide middle lower upper isSmaller inductionHypothesis =>
    exact inductionHypothesis.widen (by omega) (Nat.le_refl _)
  | case2 low high ordered below wide middle lower upper notSmaller inductionHypothesis =>
    exact inductionHypothesis
  | case3 low high ordered below short =>
    exact (linearSearch_isFirst (range.narrowed low (min (high + 1) range.stop) _ _)
      key).within.widen (Nat.le_refl low) (Nat.min_le_right _ _)

/-- On ascending keys narrowing keeps the first entry that is not smaller in the window, or
just after it; the scan looks at that entry too. -/
theorem Vector.narrow_isFirst (range : EntryRange layout data) (key : UInt64) (low high : Nat)
    (ordered : low ≤ high) (below : high ≤ range.stop)
    (ascending : AscendingOn (layout.keyOf data) range.start range.stop)
    (above : range.start ≤ low)
    (smaller : ∀ earlier, range.start ≤ earlier → earlier < low →
      layout.keyOf data earlier < key)
    (notSmaller : high < range.stop → key ≤ layout.keyOf data high) :
    (narrow range key low high ordered below).IsFirst (layout.keyOf data) key
      range.start range.stop := by
  fun_induction Vector.narrow range key low high ordered below with
  | case1 low high ordered below wide middle lower upper isSmaller inductionHypothesis =>
    rw [range.keyAt_eq] at isSmaller
    refine inductionHypothesis (by omega) (fun earlier from_start before => ?_) notSmaller
    exact UInt64.lt_of_le_of_lt
      (ascending earlier middle from_start (by omega) (by omega)) isSmaller
  | case2 low high ordered below wide middle lower upper isNotSmaller inductionHypothesis =>
    rw [range.keyAt_eq, UInt64.not_lt] at isNotSmaller
    exact inductionHypothesis above smaller fun _ => isNotSmaller
  | case3 low high ordered below short =>
    have scanned := linearSearch_isFirst (range.narrowed low (min (high + 1) range.stop)
      (by omega) (by omega)) key
    have from_low : low ≤ (linearSearch (range.narrowed low (min (high + 1) range.stop)
      (by omega) (by omega)) key).entry := scanned.start_le
    refine (scanned.extend_down above smaller).extend_up (Nat.min_le_right _ _) ?_
    -- Past the end of the window the key there would be smaller, against `notSmaller`.
    refine (Nat.lt_or_ge _ _).imp_right fun beyond => ?_
    change min (high + 1) range.stop ≤ _ at beyond
    change min (high + 1) range.stop = range.stop
    rcases Nat.lt_or_ge high range.stop with inner | atEnd
    · have before := scanned.smaller high ordered (by omega)
      exact absurd (UInt64.lt_of_le_of_lt (notSmaller inner) before) (UInt64.lt_irrefl key)
    · omega

theorem Vector.range_eq {start stop : Nat} (ordered : start ≤ stop)
    (inside : stop * layout.stride ≤ data.size) (small : data.size < wordLimit) :
    ∃ range, Vector.range layout data start stop = .ok range ∧
      range.start = start ∧ range.stop = stop := by
  have lastSmall : stop * layout.stride < wordLimit := by omega
  refine ⟨{ start, stop, ordered, inside }, ?_, rfl, rfl⟩
  rw [Vector.range, dif_pos ordered, checkedMul_eq lastSmall, ok_bind, dif_pos inside]
  rfl

/-! ### Both backends -/

namespace Backend

theorem range_eq (backend : Backend) {start stop : Nat} (ordered : start ≤ stop)
    (inside : stop * layout.stride ≤ data.size) (small : data.size < wordLimit) :
    ∃ range, backend.range layout data start stop = .ok range ∧
      range.start = start ∧ range.stop = stop := by
  cases backend with
  | scalar => exact Scalar.range_eq ordered inside small
  | vector => exact Vector.range_eq ordered inside small

/-- A linear search of any words inside the array reports the first entry of the range
whose key is not smaller. -/
theorem linearSearch_isFirst (backend : Backend) (layout : Layout) (key : UInt64) {start stop : Nat}
    (ordered : start ≤ stop) (inside : stop * layout.stride ≤ data.size)
    (small : data.size < wordLimit) :
    ∃ position, backend.linearSearch layout key data start stop = .ok position ∧
      position.IsFirst (layout.keyOf data) key start stop := by
  obtain ⟨range, cut, rfl, rfl⟩ := backend.range_eq ordered inside small
  cases backend with
  | scalar =>
    refine ⟨Scalar.linearSearch range key, ?_, range.scanFrom_isFirst key (Nat.le_refl _) ordered
      fun earlier from_start before => absurd before (by omega)⟩
    rw [linearSearch, cut]
    rfl
  | vector =>
    refine ⟨Vector.linearSearch range key, ?_, Vector.linearSearch_isFirst range key⟩
    rw [linearSearch, cut]
    rfl

/-- A binary search of any words inside the array ends inside the range, and on ascending
keys at the first entry that is not smaller. -/
theorem binarySearch_eq (backend : Backend) (layout : Layout) (key : UInt64) {start stop : Nat}
    (ordered : start ≤ stop) (inside : stop * layout.stride ≤ data.size)
    (small : data.size < wordLimit) :
    ∃ position, backend.binarySearch layout key data start stop = .ok position ∧
      position.Within start stop ∧
      (AscendingOn (layout.keyOf data) start stop →
        position.IsFirst (layout.keyOf data) key start stop) := by
  obtain ⟨range, cut, rfl, rfl⟩ := backend.range_eq ordered inside small
  cases backend with
  | scalar =>
    refine ⟨Scalar.binarySearch range key, ?_, Scalar.binarySearch_within range key,
      Scalar.binarySearch_isFirst range key⟩
    rw [binarySearch, cut]
    rfl
  | vector =>
    refine ⟨Vector.binarySearch range key, ?_, Vector.narrow_within range key _ _ _ _,
      fun ascending => ?_⟩
    · rw [binarySearch, cut]
      rfl
    · exact Vector.narrow_isFirst range key _ _ _ _ ascending (Nat.le_refl _)
        (fun earlier from_start before => absurd before (by omega))
        (fun inside => absurd inside (Nat.lt_irrefl _))

end Backend

end InvertedIndex
