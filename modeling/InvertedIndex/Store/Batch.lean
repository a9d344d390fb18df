/-
Looking up many sorted keys in a store at once. One strategy scans the keys and the
entries side by side; the other searches for each key from where the last one was
found. They give the same answers, so the choice between them is one of cost.
-/

import InvertedIndex.Store.Lookup

namespace InvertedIndex

/-- How a batch of sorted keys is matched against a store. -/
inductive Strategy where
  /-- One scan over the keys and the entries together. -/
  | merge
  /-- A binary search for each key in the entries that are left. -/
  | search
  deriving Repr, DecidableEq

/-- The ratio of entries to keys from which on searching is preferred by default. -/
def defaultMergeRatio : Nat := 32

/-- Searches when there are fewer keys than entries by more than the ratio. -/
def Strategy.choose (keys entries ratio : Nat) : Strategy :=
  if saturatingMul keys (max ratio 1) < entries then .search else .merge

/-- Each key is smaller than the next one. -/
def strictlyAscending : List UInt64 → Bool
  | first :: second :: rest => first < second && strictlyAscending (second :: rest)
  | _ => true

/-- No key is greater than the next one. -/
def ascending : List UInt64 → Bool
  | first :: second :: rest => first ≤ second && ascending (second :: rest)
  | _ => true

namespace Store

/-- The first entry from `entry` on whose key is not smaller than the one given, or the
number of entries. -/
def advance (store : Store) (key : UInt64) (entry : Nat) : Except Fault Nat :=
  if more : entry < store.entries then do
    if (← store.keyAt entry) < key then store.advance key (entry + 1) else return entry
  else return entry
termination_by store.entries - entry

/-- The entries of the keys, found by one scan that starts at `entry`. -/
def locateByMerge (store : Store) (entry : Nat) : List UInt64 → Except Fault (List (Option Nat))
  | [] => return []
  | key :: rest => do
    let next ← store.advance key entry
    if next = store.entries then return none :: rest.map fun _ => none
    let here := (← store.keyAt next) == key
    return (if here then some next else none) :: (← store.locateByMerge next rest)

/-- The entries of the keys, each searched for from `entry` on. -/
def locateBySearch (store : Store) (entry : Nat) : List UInt64 → Except Fault (List (Option Nat))
  | [] => return []
  | key :: rest => do
    if entry = store.entries then return none :: rest.map fun _ => none
    match ← store.searchEntries key entry store.entries false with
    | .found found => return some found :: (← store.locateBySearch found rest)
    | .insertion next => return none :: (← store.locateBySearch next rest)

/-- For each of the sorted keys, the entry that holds it. -/
def locate (store : Store) (strategy : Strategy) (keys : List UInt64) :
    Except Fault (List (Option Nat)) :=
  match strategy with
  | .merge => store.locateByMerge 0 keys
  | .search => store.locateBySearch 0 keys

/-- For each of the strictly ascending keys, one word of its record, or 0 where no
record has the key. -/
def columnWith (store : Store) (strategy : Strategy) (keys : List UInt64) (column : Nat) :
    Except Fault (List UInt64) := do
  if store.shape.width ≤ column then .error (.columnOutOfWidth column)
  if !strictlyAscending keys then .error .keysNotAscending
  (← store.locate strategy keys).mapM fun
    | none => return 0
    | some entry => do
      wordAt store.data (← checkedAdd (← checkedMul entry store.shape.width) column)

/-- `columnWith` with the strategy chosen by size. -/
def column (store : Store) (keys : List UInt64) (column : Nat) : Except Fault (List UInt64) :=
  store.columnWith (.choose keys.length store.entries defaultMergeRatio) keys column

/-- The candidates that some record has as its key, or with `present` false those that
none has. The candidates are sorted and may repeat. -/
def select (store : Store) (present : Bool) (candidates : List UInt64) :
    Except Fault (List UInt64) := do
  if !ascending candidates then .error .candidatesNotSorted
  let strategy := Strategy.choose candidates.length store.entries defaultMergeRatio
  let found ← store.locate strategy candidates
  return ((candidates.zip found).filter fun entry => entry.2.isSome == present).map (·.1)

/-- Keeps the candidates that are keys of the store. -/
def retain (store : Store) (candidates : List UInt64) : Except Fault (List UInt64) :=
  store.select true candidates

/-- Drops the candidates that are keys of the store. -/
def reject (store : Store) (candidates : List UInt64) : Except Fault (List UInt64) :=
  store.select false candidates

end Store

end InvertedIndex
