/-
The searches for a machine that compares four words at once. A comparison of four
lanes is a signed one, so keys and words are moved by the sign bit first, which
turns it into the unsigned order. The linear search looks at four words a step and
leaves the rest to the portable search; the binary search first narrows the range to
a short window and then scans that.
-/

import InvertedIndex.Search.Scalar

namespace InvertedIndex.Vector

/-- Four values side by side. -/
structure Lanes (α : Type) where
  first : α
  second : α
  third : α
  fourth : α

/-- The same change in every lane. -/
def Lanes.map {α β : Type} (lanes : Lanes α) (change : α → β) : Lanes β :=
  ⟨change lanes.first, change lanes.second, change lanes.third, change lanes.fourth⟩

/-- How many lanes hold before the first one that does not. -/
def Lanes.leadingCount (mask : Lanes Bool) : Nat :=
  if !mask.first then 0 else if !mask.second then 1 else if !mask.third then 2
  else if !mask.fourth then 3 else 4

/-- The sign bit of a word. -/
def signBit : UInt64 := 0x8000000000000000

/-- A word whose signed order is the unsigned order of the word given. -/
def biased (word : UInt64) : Int64 := (word ^^^ signBit).toInt64

/-- The lanes that are smaller than the key. -/
def lessThan (key : UInt64) (lanes : Lanes UInt64) : Lanes Bool :=
  lanes.map fun lane => decide (biased lane < biased key)

/-- The range from `start` up to `stop`; a fault when it is reversed or ends beyond the
words. -/
def range (layout : Layout) (data : Array UInt64) (start stop : Nat) :
    Except Fault (EntryRange layout data) :=
  if ordered : start ≤ stop then do
    let _words ← checkedMul stop layout.stride
    if inside : stop * layout.stride ≤ data.size then
      return { start, stop, ordered, inside }
    else .error .outOfRange
  else .error .outOfRange

variable {data : Array UInt64}

/-- Plain keys, four entries a step. -/
def scanKeys (range : EntryRange .keys data) (key : UInt64) (entry : Nat) : Position :=
  if four : entry + 4 ≤ range.stop then
    let lanes : Lanes UInt64 := ⟨range.keyAt entry (by omega), range.keyAt (entry + 1) (by omega),
      range.keyAt (entry + 2) (by omega), range.keyAt (entry + 3) (by omega)⟩
    let smaller := (lessThan key lanes).leadingCount
    if partway : smaller < 4 then
      .at (range.keyAt (entry + smaller) (by omega) == key) (entry + smaller)
    else scanKeys range key (entry + 4)
  else range.scanFrom key entry
termination_by range.stop - entry

/-- The four words of two neighbouring entries. -/
def pairLanes (range : EntryRange .pairs data) (entry : Nat) (two : entry + 2 ≤ range.stop) :
    Lanes UInt64 :=
  have inside : range.stop * 2 ≤ data.size := range.inside
  ⟨data[2 * entry], data[2 * entry + 1], data[2 * entry + 2], data[2 * entry + 3]⟩

/-- Pairs, two entries a step: their keys are in the first and the third lane. -/
def scanPairs (range : EntryRange .pairs data) (key : UInt64) (entry : Nat) : Position :=
  if two : entry + 2 ≤ range.stop then
    let mask := lessThan key (pairLanes range entry two)
    if mask.first && mask.third then scanPairs range key (entry + 2)
    else if !mask.first then .at (range.keyAt entry (by omega) == key) entry
    else .at (range.keyAt (entry + 1) (by omega) == key) (entry + 1)
  else range.scanFrom key entry
termination_by range.stop - entry

/-- The linear search of either layout. -/
def linearSearch : {layout : Layout} → EntryRange layout data → UInt64 → Position
  | .keys, range, key => scanKeys range key range.start
  | .pairs, range, key => scanPairs range key range.start

/-- A range this short is scanned rather than narrowed further. -/
def windowSize : Nat := 16

variable {layout : Layout}

/-- Halves the window from `low` up to `high` until it is short, then scans it together
with the entry at its end, whose key may be the one searched. -/
def narrow (range : EntryRange layout data) (key : UInt64) (low high : Nat)
    (ordered : low ≤ high) (below : high ≤ range.stop) : Position :=
  if wide : windowSize < high - low then
    let middle := low + (high - low) / 2
    have lower : middle < high := by simp only [middle, windowSize] at *; omega
    have upper : low ≤ middle := by simp only [middle]; omega
    if range.keyAt middle (by omega) < key then
      narrow range key (middle + 1) high (by omega) below
    else
      narrow range key low middle upper (by omega)
  else
    linearSearch (range.narrowed low (min (high + 1) range.stop) (by omega) (by omega)) key
termination_by high - low

/-- The binary search of either layout. -/
def binarySearch (range : EntryRange layout data) (key : UInt64) : Position :=
  narrow range key range.start range.stop range.ordered (Nat.le_refl _)

end InvertedIndex.Vector
