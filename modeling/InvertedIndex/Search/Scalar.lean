/-
The portable searches. The linear search walks the range; the binary search halves
it until one entry is left. On a range with ascending keys both report the first
entry whose key is not smaller than the one searched.
-/

import InvertedIndex.Search.Range

namespace InvertedIndex.Scalar

variable {layout : Layout} {data : Array UInt64}

/-- The range from `start` up to `stop`, cut out of the words as a slice; a fault when
the slice is not inside the array. -/
def range (layout : Layout) (data : Array UInt64) (start stop : Nat) :
    Except Fault (EntryRange layout data) := do
  let _firstWord ← checkedMul layout.stride start
  let _lastWord ← checkedMul layout.stride stop
  if inside : layout.stride * start ≤ layout.stride * stop ∧
      layout.stride * stop ≤ data.size then
    return {
      start, stop
      ordered := Nat.le_of_mul_le_mul_left inside.1 layout.stride_pos
      inside := Nat.mul_comm stop layout.stride ▸ inside.2 }
  else .error .outOfRange

/-- The linear search: the first key of the range that is not smaller. -/
def linearSearch (range : EntryRange layout data) (key : UInt64) : Position :=
  range.scanFrom key range.start

/-- The number of keys before the first one that is not smaller, counted from entry 0,
when that entry is among the `size` entries from `base` or just after them. -/
def partitionPoint (range : EntryRange layout data) (key : UInt64) (base size : Nat)
    (below : base + size ≤ range.stop) : Nat :=
  if several : 1 < size then
    let half := size / 2
    if range.keyAt (base + half) (by omega) < key then
      partitionPoint range key (base + half) (size - half) (by omega)
    else
      partitionPoint range key base (size - half) (by omega)
  else if single : size = 1 then
    if range.keyAt base (by omega) < key then base + 1 else base
  else base
termination_by size

/-- The binary search: halves the range to the partition point and looks at its key. -/
def binarySearch (range : EntryRange layout data) (key : UInt64) : Position :=
  let entry := partitionPoint range key range.start (range.stop - range.start)
    (by have := range.ordered; omega)
  if below : entry < range.stop then .at (range.keyAt entry below == key) entry
  else .insertion entry

end InvertedIndex.Scalar
