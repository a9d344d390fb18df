/-
This file proves that words survive the trip through bytes in both directions. Eight
bytes determine a word and a word determines its eight bytes, so a run of bytes is cut
into words in exactly one way, and what is left over is shorter than a word.
-/

import InvertedIndex.Region

namespace InvertedIndex

/-! ### One word -/

/-- The digits of a number in base 256 give it back. -/
theorem sum_of_digits {value : Nat} (small : value < 0x10000000000000000) :
    value % 256 + 0x100 * (value / 0x100 % 256) + 0x10000 * (value / 0x10000 % 256) +
      0x1000000 * (value / 0x1000000 % 256) + 0x100000000 * (value / 0x100000000 % 256) +
      0x10000000000 * (value / 0x10000000000 % 256) +
      0x1000000000000 * (value / 0x1000000000000 % 256) +
      0x100000000000000 * (value / 0x100000000000000 % 256) = value := by
  omega

@[simp] theorem takeWord_wordBytes (word : UInt64) (rest : List UInt8) :
    takeWord (wordBytes word ++ rest) = some (word, rest) := by
  have small : word.toNat < 0x10000000000000000 := word.toNat_lt
  have digits := sum_of_digits small
  simp only [wordBytes, List.cons_append, List.nil_append, takeWord, UInt8.toNat_ofNat',
    Nat.reducePow, digits, UInt64.ofNat_toNat]

/-- A word that was taken from the front of some bytes is spelled there. -/
theorem eq_of_takeWord {bytes rest : List UInt8} {word : UInt64}
    (taken : takeWord bytes = some (word, rest)) : bytes = wordBytes word ++ rest := by
  unfold takeWord at taken
  split at taken
  · rename_i b0 b1 b2 b3 b4 b5 b6 b7 tail
    cases taken
    have := b0.toNat_lt
    have := b1.toNat_lt
    have := b2.toNat_lt
    have := b3.toNat_lt
    have := b4.toNat_lt
    have := b5.toNat_lt
    have := b6.toNat_lt
    have := b7.toNat_lt
    simp only [wordBytes, List.cons_append, List.nil_append, List.cons.injEq, and_true,
      UInt64.toNat_ofNat', ← UInt8.toNat_inj, UInt8.toNat_ofNat', Nat.reducePow]
    omega
  · cases taken

theorem takeWord_eq_none {bytes : List UInt8} (short : bytes.length < 8) :
    takeWord bytes = none := by
  unfold takeWord
  split
  · simp only [List.length_cons] at short
    omega
  · rfl

theorem length_lt_of_takeWord_eq_none {bytes : List UInt8} (nothing : takeWord bytes = none) :
    bytes.length < 8 := by
  match bytes with
  | [] | [_] | [_, _] | [_, _, _] | [_, _, _, _] | [_, _, _, _, _] | [_, _, _, _, _, _]
  | [_, _, _, _, _, _, _] => simp
  | _ :: _ :: _ :: _ :: _ :: _ :: _ :: _ :: _ => cases nothing

/-! ### Runs of words -/

@[simp] theorem length_wordsToBytes (words : List UInt64) :
    (wordsToBytes words).length = 8 * words.length := by
  induction words with
  | nil => rfl
  | cons word rest inductionHypothesis =>
    rw [wordsToBytes, List.flatMap_cons, List.length_append, List.length_cons]
    rw [wordsToBytes] at inductionHypothesis
    rw [inductionHypothesis]
    show 8 + 8 * rest.length = 8 * (rest.length + 1)
    omega

/-- The first of some words is taken from the front of their bytes. -/
@[simp] theorem takeWord_wordsToBytes (word : UInt64) (words : List UInt64) (rest : List UInt8) :
    takeWord (wordsToBytes (word :: words) ++ rest) = some (word, wordsToBytes words ++ rest) := by
  rw [wordsToBytes, List.flatMap_cons, List.append_assoc]
  exact takeWord_wordBytes word _

theorem splitWordsOnto_append (before : Array UInt64) (words : List UInt64) {rest : List UInt8}
    (short : rest.length < 8) :
    splitWordsOnto before (wordsToBytes words ++ rest) = (before ++ words.toArray, rest) := by
  induction words generalizing before with
  | nil =>
    unfold splitWordsOnto
    rw [wordsToBytes, List.flatMap_nil, List.nil_append]
    split
    · rename_i taken
      rw [takeWord_eq_none short] at taken
      cases taken
    · rw [Array.append_empty]
  | cons word more inductionHypothesis =>
    have front := takeWord_wordsToBytes word more rest
    unfold splitWordsOnto
    split
    · rename_i taken
      rw [front] at taken
      cases taken
      rw [inductionHypothesis, Array.push_eq_append, Array.append_assoc]
      simp
    · rename_i taken
      rw [front] at taken
      cases taken

/-- The bytes of some words are cut into these words. -/
@[simp] theorem splitWords_wordsToBytes (words : List UInt64) :
    splitWords (wordsToBytes words) = (words.toArray, []) := by
  have cut := splitWordsOnto_append #[] words (show [].length < 8 by decide)
  rwa [List.append_nil, Array.empty_append] at cut

/-- Different words have different bytes. -/
theorem Region.eq_of_toBytes {first second : Array UInt64}
    (same : toBytes first = toBytes second) : first = second := by
  have cut := congrArg splitWords same
  rw [toBytes, toBytes, splitWords_wordsToBytes, splitWords_wordsToBytes] at cut
  exact congrArg Prod.fst cut

/-- What bytes are cut into spells them. -/
theorem eq_of_splitWordsOnto {before words : Array UInt64} {bytes rest : List UInt8}
    (cut : splitWordsOnto before bytes = (words, rest)) :
    ∃ found : List UInt64, words = before ++ found.toArray ∧
      bytes = wordsToBytes found ++ rest ∧ rest.length < 8 := by
  fun_induction splitWordsOnto before bytes with
  | case1 before bytes word tail taken shorter inductionHypothesis =>
    obtain ⟨found, isFound, spelled, short⟩ := inductionHypothesis cut
    refine ⟨word :: found, ?_, ?_, short⟩
    · rw [isFound, Array.push_eq_append, Array.append_assoc]
      simp
    · rw [eq_of_takeWord taken, spelled, ← List.append_assoc]
      rfl
  | case2 before bytes nothing =>
    cases cut
    exact ⟨[], (Array.append_empty).symm, rfl, length_lt_of_takeWord_eq_none nothing⟩

theorem eq_of_splitWords {words : Array UInt64} {bytes rest : List UInt8}
    (cut : splitWords bytes = (words, rest)) :
    bytes = wordsToBytes words.toList ++ rest ∧ rest.length < 8 := by
  obtain ⟨found, rfl, spelled, short⟩ := eq_of_splitWordsOnto cut
  exact ⟨by simpa using spelled, short⟩

/-! ### Files of words -/

@[simp] theorem Region.length_toBytes (words : Array UInt64) :
    (Region.toBytes words).length = words.size * 8 := by
  simp [Region.toBytes, Nat.mul_comm]

/-- A file that holds words is the region of these words. -/
theorem Region.map_eq {files : FileSystem} {path : Path} {words : List UInt64}
    (holds : files.read path = .ok (.file (wordsToBytes words))) :
    Region.map path files = .ok ⟨words.toArray, some path⟩ := by
  rw [Region.map, holds]
  dsimp only
  rw [splitWords_wordsToBytes]

/-- Only a file that holds words is a region. -/
theorem Region.read_of_map {files : FileSystem} {path : Path} {region : Region}
    (mapped : Region.map path files = .ok region) :
    files.read path = .ok (.file (wordsToBytes region.words.toList)) := by
  unfold Region.map at mapped
  split at mapped
  · cases mapped
  · cases mapped
  · rename_i contents isFile
    split at mapped
    · rename_i words cut
      cases mapped
      rw [isFile, (eq_of_splitWords cut).1, List.append_nil]
    · cases mapped

end InvertedIndex
