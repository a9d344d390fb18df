/-
Words are stored as eight bytes, the least significant byte first. This file fixes
that encoding in both directions, for one word and for a run of words.
-/

namespace InvertedIndex

/-- The eight bytes of a word, the least significant first. -/
def wordBytes (word : UInt64) : List UInt8 :=
  let value := word.toNat
  [UInt8.ofNat value, UInt8.ofNat (value / 0x100), UInt8.ofNat (value / 0x10000),
    UInt8.ofNat (value / 0x1000000), UInt8.ofNat (value / 0x100000000),
    UInt8.ofNat (value / 0x10000000000), UInt8.ofNat (value / 0x1000000000000),
    UInt8.ofNat (value / 0x100000000000000)]

/-- The word spelled by the first eight bytes, and the bytes after it; `none` when
fewer than eight bytes are left. -/
def takeWord : List UInt8 → Option (UInt64 × List UInt8)
  | b0 :: b1 :: b2 :: b3 :: b4 :: b5 :: b6 :: b7 :: rest =>
    some (UInt64.ofNat (b0.toNat + 0x100 * b1.toNat + 0x10000 * b2.toNat +
      0x1000000 * b3.toNat + 0x100000000 * b4.toNat + 0x10000000000 * b5.toNat +
      0x1000000000000 * b6.toNat + 0x100000000000000 * b7.toNat), rest)
  | _ => none

theorem length_lt_of_takeWord {bytes rest : List UInt8} {word : UInt64}
    (taken : takeWord bytes = some (word, rest)) : rest.length < bytes.length := by
  unfold takeWord at taken
  split at taken
  · cases taken
    simp only [List.length_cons]
    omega
  · cases taken

/-- The bytes of a run of words. -/
def wordsToBytes (words : List UInt64) : List UInt8 := words.flatMap wordBytes

/-- Appends to `words` every whole word of `bytes`, and returns them with the bytes
left over. -/
def splitWordsOnto (words : Array UInt64) (bytes : List UInt8) : Array UInt64 × List UInt8 :=
  match taken : takeWord bytes with
  | some (word, rest) =>
    have : rest.length < bytes.length := length_lt_of_takeWord taken
    splitWordsOnto (words.push word) rest
  | none => (words, bytes)
termination_by bytes.length

/-- Every whole word of a run of bytes, and the fewer than eight bytes left over. -/
def splitWords (bytes : List UInt8) : Array UInt64 × List UInt8 := splitWordsOnto #[] bytes

end InvertedIndex
