/-
Searches run over a range of entries inside an array of words. Entries are laid out
either as plain keys or as pairs of a key and a payload, and positions count
entries, not words. A range that is inside its array carries that fact with it, so
reading a key can never miss.
-/

import InvertedIndex.Fault

namespace InvertedIndex

/-- How entries are laid out in an array of words. -/
inductive Layout where
  /-- Each word is a key. -/
  | keys
  /-- Each key is followed by one payload word. -/
  | pairs
  deriving Repr, DecidableEq

/-- The words that one entry takes. -/
def Layout.stride : Layout → Nat
  | .keys => 1
  | .pairs => 2

theorem Layout.stride_pos (layout : Layout) : 0 < layout.stride := by
  cases layout <;> decide

/-- What a search for a key reports. -/
inductive Position where
  /-- The key is the key of this entry. -/
  | found (entry : Nat)
  /-- The key is absent and would be inserted here. -/
  | insertion (entry : Nat)
  deriving Repr, DecidableEq

/-- The entry of either outcome. -/
def Position.entry : Position → Nat
  | .found entry => entry
  | .insertion entry => entry

/-- The outcome at an entry, once it is known whether its key is the one searched. -/
def Position.at (isKey : Bool) (entry : Nat) : Position :=
  if isKey then .found entry else .insertion entry

/-- A half-open range of entries that is inside an array of words. -/
structure EntryRange (layout : Layout) (data : Array UInt64) where
  start : Nat
  stop : Nat
  ordered : start ≤ stop
  inside : stop * layout.stride ≤ data.size

namespace EntryRange

variable {layout : Layout} {data : Array UInt64}

theorem word_lt (range : EntryRange layout data) {entry : Nat} (below : entry < range.stop) :
    entry * layout.stride < data.size :=
  Nat.lt_of_lt_of_le (Nat.mul_lt_mul_of_pos_right below layout.stride_pos) range.inside

/-- The key of an entry of the range. -/
def keyAt (range : EntryRange layout data) (entry : Nat) (below : entry < range.stop) : UInt64 :=
  have : entry * layout.stride < data.size := range.word_lt below
  data[entry * layout.stride]

/-- The part of a range between two of its positions. -/
def narrowed (range : EntryRange layout data) (start stop : Nat) (ordered : start ≤ stop)
    (below : stop ≤ range.stop) : EntryRange layout data where
  start := start
  stop := stop
  ordered := ordered
  inside := Nat.le_trans (Nat.mul_le_mul_right layout.stride below) range.inside

/-- Walks from `entry` to the first key that is not smaller. -/
def scanFrom (range : EntryRange layout data) (key : UInt64) (entry : Nat) : Position :=
  if below : entry < range.stop then
    let value := range.keyAt entry below
    if key ≤ value then .at (value == key) entry else range.scanFrom key (entry + 1)
  else .insertion range.stop
termination_by range.stop - entry

end EntryRange

end InvertedIndex
