/-
Journal shards as files. A shard is named after its number, padded to four digits,
and the shards of a directory are the regular files with such names, in the order of
their numbers. A build reads shards through a `ShardSource`, so entries can also come
from elsewhere.
-/

import InvertedIndex.Journal.Entry
import InvertedIndex.World

namespace InvertedIndex.Journal

/-- The decimal digits of a number, padded with zeros to four. -/
def paddedNumber (number : Nat) : String :=
  let digits := toString number
  String.ofList (List.replicate (4 - digits.length) '0') ++ digits

/-- The name of a shard. -/
def shardName (number : Nat) : String := "page-index-" ++ paddedNumber number ++ ".dat"

/-- The path of a shard below a directory. -/
def shardPath (directory : Path) (number : Nat) : Path := directory.join (shardName number)

/-- The value of a run of decimal digits. -/
def decimalValue (digits : List Char) : Nat :=
  digits.foldl (fun value digit => 10 * value + (digit.toNat - '0'.toNat)) 0

/-- The number of the shard with this name: at least four decimal digits between the
fixed ends, whose value fits in a word. -/
def shardNumber? (name : String) : Option Nat := do
  let afterLead ← dropStart "page-index-".toList name.toList
  let reversed ← dropStart ".dat".toList.reverse afterLead.reverse
  let digits := reversed.reverse
  if 4 ≤ digits.length ∧ digits.all Char.isDigit ∧ decimalValue digits < wordLimit then
    return decimalValue digits
  else none
where
  /-- What follows the characters of `start`. -/
  dropStart : List Char → List Char → Option (List Char)
    | [], rest => some rest
    | _ :: _, [] => none
    | expected :: start, character :: rest =>
      if expected = character then dropStart start rest else none

/-- The order of shards by number, then by path. -/
def shardLE (first second : Nat × Path) : Bool :=
  first.1 < second.1 || (first.1 == second.1 && first.2.text ≤ second.2.text)

/-- The shards of a directory in order. -/
def findShards (directory : Path) (files : FileSystem) : Except StorageError (List Path) :=
  match files.list directory with
  | .error reason => .error (.files reason)
  | .ok entries =>
    let shards := entries.filterMap fun (name, node) =>
      match node, shardNumber? name with
      | .file _, some number => some (number, directory.child name)
      | _, _ => none
    .ok ((shards.mergeSort shardLE).map (·.2))

/-- Starts to read a shard from its file. -/
def openFile (path : Path) (files : FileSystem) : Except StorageError Reader :=
  match files.read path with
  | .error reason => .error (.files reason)
  | .ok .directory => Reader.open path []
  | .ok (.file contents) => Reader.open path contents

/-- Where a build gets the entries of a shard from. -/
structure ShardSource where
  «open» : Path → FileSystem → Except StorageError (List (Except StorageError Entry))

/-- Shards are files. -/
def ShardSource.files : ShardSource where
  «open» path files := (openFile path files).map Reader.items

/-- Shards are kept in memory, by the spelling of their paths. -/
def ShardSource.memory (shards : List (String × List Entry)) : ShardSource where
  «open» path _ :=
    match shards.lookup path.text with
    | some entries => .ok (entries.map .ok)
    | none => .error (.journal path .unknownShard)

end InvertedIndex.Journal
