/-
This file proves what reading a shard makes of what a writer has put into it. A finished shard
yields the entries in their order, up to an entry that claims more terms than a reader accepts,
which is reported. The count in front is put there at the end, so a shard that was never
finished reads as one that is empty.
-/

import InvertedIndex.Proofs.Shards
import InvertedIndex.Proofs.Words

namespace InvertedIndex.Journal

/-! ### Entries -/

/-- The words of the terms of an entry. -/
@[simp] theorem takeTerms_wordsToBytes (terms : List (Term × Metadata)) (rest : List UInt8) :
    takeTerms terms.length
      (wordsToBytes (terms.flatMap fun term => [term.1, term.2]) ++ rest) = some (terms, rest) := by
  induction terms with
  | nil => rfl
  | cons term others inductionHypothesis =>
    rw [List.flatMap_cons, List.length_cons, takeTerms, List.cons_append, List.cons_append,
      List.nil_append, takeWord_wordsToBytes]
    dsimp only [Option.bind_eq_bind, Option.bind_some]
    rw [takeWord_wordsToBytes]
    dsimp only [Option.bind_some]
    rw [inductionHypothesis]
    rfl

/-- An entry that was written is read, or it is refused for its number of terms. -/
theorem takeEntry_entryWords (entry : Entry) (sized : entry.terms.length < wordLimit)
    (rest : List UInt8) :
    takeEntry (wordsToBytes (entryWords entry) ++ rest) =
      if maxTerms < entry.terms.length then
        .error (.tooManyTerms entry.doc (UInt64.ofNat entry.terms.length))
      else .ok (entry, rest) := by
  have words : entryWords entry = entry.doc :: entry.docMetadata ::
      UInt64.ofNat entry.terms.length ::
        entry.terms.flatMap fun term => [term.1, term.2] := rfl
  rw [takeEntry, words, takeWord_wordsToBytes]
  dsimp only
  rw [takeWord_wordsToBytes]
  dsimp only
  rw [takeWord_wordsToBytes]
  dsimp only
  rw [toNat_ofNat sized]
  split
  · rfl
  · rw [takeTerms_wordsToBytes]
    rfl

/-! ### What a reader yields -/

/-- What is read of these entries: all of them, or those before the first one with too many
terms and then the defect. -/
def readBack (path : Path) : List Entry → List (Except StorageError Entry)
  | [] => []
  | entry :: rest =>
    if maxTerms < entry.terms.length then
      [.error (.journal path (.tooManyTerms entry.doc (UInt64.ofNat entry.terms.length)))]
    else .ok entry :: readBack path rest

theorem readBack_cases (path : Path) (entries : List Entry) :
    readBack path entries = entries.map .ok ∨
      ∃ before entry after, entries = before ++ entry :: after ∧
        maxTerms < entry.terms.length ∧ readBack path entries = before.map .ok ++
          [.error (.journal path
            (.tooManyTerms entry.doc (UInt64.ofNat entry.terms.length)))] := by
  induction entries with
  | nil => exact .inl rfl
  | cons entry rest inductionHypothesis =>
    rw [readBack]
    by_cases large : maxTerms < entry.terms.length
    · rw [if_pos large]
      exact .inr ⟨[], entry, rest, rfl, large, rfl⟩
    · rw [if_neg large]
      rcases inductionHypothesis with same | ⟨before, other, after, rfl, otherLarge, same⟩
      · rw [same]
        exact .inl rfl
      · rw [same]
        exact .inr ⟨entry :: before, other, after, rfl, otherLarge, rfl⟩

/-- The numbers of entries and of terms fit in words. -/
structure Sized (entries : List Entry) : Prop where
  count : entries.length < wordLimit
  terms : ∀ entry ∈ entries, entry.terms.length < wordLimit

namespace Reader

variable {path : Path} {input rest : List UInt8} {remaining : Nat}

/-- A reader with an entry in front of it yields the entry. -/
theorem next_of_entry {entry : Entry} (taken : takeEntry input = .ok (entry, rest)) :
    (Reader.mk path input (remaining + 1) false).next =
      some (.ok entry, ⟨path, rest, remaining, false⟩) := by
  rw [next, if_neg (by simp)]
  dsimp only
  rw [taken]
  rfl

/-- A reader with a defect in front of it yields the defect and then nothing. -/
theorem items_of_defect {defect : JournalDefect} (taken : takeEntry input = .error defect) :
    (Reader.mk path input (remaining + 1) false).items = [.error (.journal path defect)] := by
  have step : (Reader.mk path input (remaining + 1) false).next =
      some (.error (.journal path defect), ⟨path, input, remaining, true⟩) := by
    rw [next, if_neg (by simp)]
    dsimp only
    rw [taken]
    rfl
  rw [items_of_next step, items_of_end (by rw [next, if_pos (.inr rfl)])]

/-- By induction on the entries, a reader yields what is read of them, whatever follows. -/
theorem items_eq (path : Path) {entries : List Entry}
    (sized : ∀ entry ∈ entries, entry.terms.length < wordLimit) (rest : List UInt8) :
    (Reader.mk path (wordsToBytes (entries.flatMap entryWords) ++ rest) entries.length
      false).items = readBack path entries := by
  induction entries with
  | nil => exact items_of_end rfl
  | cons entry others inductionHypothesis =>
    have taken := takeEntry_entryWords entry (sized entry List.mem_cons_self)
      (wordsToBytes (others.flatMap entryWords) ++ rest)
    have input : wordsToBytes ((entry :: others).flatMap entryWords) ++ rest =
        wordsToBytes (entryWords entry) ++ (wordsToBytes (others.flatMap entryWords) ++ rest) := by
      rw [List.flatMap_cons, wordsToBytes, List.flatMap_append, List.append_assoc]
      rfl
    rw [readBack, input, List.length_cons]
    by_cases large : maxTerms < entry.terms.length
    · rw [if_pos large] at taken ⊢
      exact items_of_defect taken
    · rw [if_neg large] at taken ⊢
      rw [items_of_next (next_of_entry taken), inductionHypothesis fun other member =>
        sized other (List.mem_cons_of_mem _ member)]

end Reader

/-! ### Writers -/

/-- The writer after these entries were put, one after the other. -/
def Writer.ofEntries (entries : List Entry) : Writer := entries.foldl add empty

@[simp] theorem Writer.put_ofEntries (entries : List Entry) :
    (ofEntries entries).put = entries.reverse := by
  have onto (writer : Writer) :
      (entries.foldl add writer).put = entries.reverse ++ writer.put := by
    induction entries generalizing writer with
    | nil => rfl
    | cons entry rest inductionHypothesis =>
      rw [List.foldl_cons, inductionHypothesis, List.reverse_cons, List.append_assoc]
      rfl
  rw [ofEntries, onto, empty, List.append_nil]

/-- A reader believes the count in front. -/
theorem Reader.open_bytes (path : Path) (entries : List Entry) (count : UInt64) :
    Reader.open path ((Writer.ofEntries entries).bytes count) = .ok
      ⟨path, wordsToBytes (entries.flatMap entryWords), count.toNat, false⟩ := by
  have taken (word : UInt64) (words : List UInt64) :
      takeWord (wordsToBytes (word :: words)) = some (word, wordsToBytes words) := by
    simpa using takeWord_wordsToBytes word words []
  rw [Reader.open, Writer.bytes, Writer.put_ofEntries, List.reverse_reverse, taken]
  dsimp only
  rw [if_neg (by decide), taken]
  rfl

/-- A finished shard yields what is read of its entries. -/
theorem Reader.items_of_finished (path : Path) {entries : List Entry} (sized : Sized entries) :
    ∃ reader, Reader.open path (Writer.ofEntries entries).finish.2 = .ok reader ∧
      reader.items = readBack path entries := by
  have count : (UInt64.ofNat (Writer.ofEntries entries).put.length).toNat = entries.length := by
    rw [Writer.put_ofEntries, List.length_reverse, toNat_ofNat sized.count]
  refine ⟨_, Reader.open_bytes path entries _, ?_⟩
  have read := items_eq path sized.terms []
  rw [List.append_nil] at read
  rw [count, read]

/-- A shard that was never finished yields nothing. -/
theorem Reader.items_of_abandoned (path : Path) (entries : List Entry) :
    ∃ reader, Reader.open path (Writer.ofEntries entries).abandon = .ok reader ∧
      reader.items = [] :=
  ⟨_, Reader.open_bytes path entries 0, items_of_end rfl⟩

end InvertedIndex.Journal
