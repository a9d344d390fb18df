/-
A region is a run of words, either held in memory or taken from a file. A file is a
region when its length is a whole number of words.
-/

import InvertedIndex.Word
import InvertedIndex.World

namespace InvertedIndex

/-- A run of words, with the path of the file it comes from. -/
structure Region where
  words : Array UInt64
  path : Option Path

namespace Region

/-- Words held in memory. -/
def ofWords (words : Array UInt64) : Region := ⟨words, none⟩

/-- The size of a region in bytes. -/
def sizeBytes (region : Region) : Nat := region.words.size * 8

/-- The bytes of a region as a file holds them. -/
def toBytes (words : Array UInt64) : List UInt8 := wordsToBytes words.toList

/-- The words of a file. -/
def map (path : Path) (files : FileSystem) : Except StorageError Region :=
  match files.read path with
  | .error reason => .error (.files reason)
  | .ok .directory => .error (.files .notMappable)
  | .ok (.file contents) =>
    match splitWords contents with
    | (words, []) => .ok ⟨words, some path⟩
    | (_, _ :: _) => .error (.file path (.partialWord contents.length))

end Region

end InvertedIndex
