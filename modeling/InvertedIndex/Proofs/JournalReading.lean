/-
This file proves what a reader makes of bytes that nothing is known about. The number of entries
and the numbers of their terms are only promises. So a reader cuts entries from the front of the
bytes for as long as they are there, and what it has cut off is spelled by the entries that it
yields, byte for byte. It ends when the promise is kept or at the first bytes that are no entry,
which it reports once. The file of a writer that has finished is a case of this: it promises what
is there, and only an entry with too many terms keeps a reader from the end.
-/

import InvertedIndex.Proofs.Answers
import InvertedIndex.Proofs.Files
import InvertedIndex.Proofs.JournalRoundTrip
import InvertedIndex.Journal.Shard

namespace InvertedIndex.Journal

/-! ### One entry -/

/-- The terms that were read are spelled by the bytes in front. -/
theorem eq_of_takeTerms {count : Nat} {bytes rest : List UInt8} {terms : List (Term × Metadata)}
    (taken : takeTerms count bytes = some (terms, rest)) :
    terms.length = count ∧
      bytes = wordsToBytes (terms.flatMap fun term => [term.1, term.2]) ++ rest := by
  induction count generalizing bytes terms with
  | zero =>
    cases taken
    exact ⟨rfl, rfl⟩
  | succ count inductionHypothesis =>
    rw [takeTerms] at taken
    obtain ⟨⟨term, afterTerm⟩, takenTerm, taken⟩ := Option.bind_eq_some_iff.mp taken
    obtain ⟨⟨metadata, afterMetadata⟩, takenMetadata, taken⟩ := Option.bind_eq_some_iff.mp taken
    obtain ⟨⟨others, tail⟩, takenOthers, taken⟩ := Option.bind_eq_some_iff.mp taken
    cases taken
    obtain ⟨rfl, spelled⟩ := inductionHypothesis takenOthers
    refine ⟨rfl, ?_⟩
    rw [eq_of_takeWord takenTerm, eq_of_takeWord takenMetadata, spelled, ← List.append_assoc,
      ← List.append_assoc]
    rfl

/-- The entry that was read is spelled by the bytes in front, and it is not too large. -/
theorem eq_of_takeEntry {bytes rest : List UInt8} {entry : Entry}
    (taken : takeEntry bytes = .ok (entry, rest)) :
    entry.terms.length ≤ maxTerms ∧ bytes = wordsToBytes (entryWords entry) ++ rest := by
  unfold takeEntry at taken
  split at taken
  case h_2 => cases taken
  case h_1 doc afterDoc takenDoc =>
  split at taken
  case h_2 => cases taken
  case h_1 docMetadata afterMetadata takenMetadata =>
  split at taken
  case h_2 => cases taken
  case h_1 count afterCount takenCount =>
  by_cases large : maxTerms < count.toNat
  · rw [if_pos large] at taken
    cases taken
  · rw [if_neg large] at taken
    split at taken
    case h_2 => cases taken
    case h_1 terms tail takenTerms =>
    cases taken
    obtain ⟨isCount, spelled⟩ := eq_of_takeTerms takenTerms
    refine ⟨by simpa only [isCount] using not_lt.mp large, ?_⟩
    rw [eq_of_takeWord takenDoc, eq_of_takeWord takenMetadata, eq_of_takeWord takenCount, spelled,
      entryWords, isCount, UInt64.ofNat_toNat, ← List.append_assoc, ← List.append_assoc,
      ← List.append_assoc]
    rfl

/-- The bytes begin with a complete entry of at most `maxTerms` terms. -/
def BeginsWithEntry (bytes : List UInt8) : Prop :=
  ∃ entry : Entry, entry.terms.length ≤ maxTerms ∧ wordsToBytes (entryWords entry) <+: bytes

/-- A defect is found exactly where no entry begins. -/
theorem takeEntry_eq_error_iff (bytes : List UInt8) :
    (∃ defect, takeEntry bytes = .error defect) ↔ ¬ BeginsWithEntry bytes := by
  constructor
  · rintro ⟨defect, refused⟩ ⟨entry, small, rest, rfl⟩
    have limit : maxTerms < wordLimit := by decide
    rw [takeEntry_entryWords entry (by omega), if_neg (by omega)] at refused
    cases refused
  · intro noEntry
    cases taken : takeEntry bytes with
    | error defect => exact ⟨defect, rfl⟩
    | ok found =>
      obtain ⟨entry, rest⟩ := found
      obtain ⟨small, spelled⟩ := eq_of_takeEntry taken
      exact absurd ⟨entry, small, rest, spelled.symm⟩ noEntry

/-- An entry is spelled by at least three words. -/
theorem length_of_entries (entries : List Entry) :
    24 * entries.length ≤ (wordsToBytes (entries.flatMap entryWords)).length := by
  rw [length_wordsToBytes]
  induction entries with
  | nil => exact Nat.le_refl _
  | cons entry others inductionHypothesis =>
    have words : (entryWords entry).length =
        3 + (entry.terms.flatMap fun term => [term.1, term.2]).length := by
      rw [entryWords, List.length_append]
      rfl
    rw [List.flatMap_cons, List.length_append, List.length_cons]
    omega

namespace Reader

/-! ### One call after the other -/

/-- The reader after one more call for the next entry. -/
def advance (reader : Reader) : Reader :=
  match reader.next with
  | some (_, after) => after
  | none => reader

theorem advance_of_next {reader after : Reader} {item : Except StorageError Entry}
    (step : reader.next = some (item, after)) : reader.advance = after := by
  rw [advance, step]

theorem advance_of_end {reader : Reader} (nothing : reader.next = none) :
    reader.advance = reader := by
  rw [advance, nothing]

/-- Every item counts as one of the promised entries. -/
theorem remaining_of_next {reader after : Reader} {item : Except StorageError Entry}
    (step : reader.next = some (item, after)) : reader.remaining = after.remaining + 1 := by
  unfold next at step
  split at step
  · cases step
  · rename_i going
    have positive : reader.remaining ≠ 0 := fun isZero => going (.inl isZero)
    split at step <;>
    · simp only [Option.some.injEq, Prod.mk.injEq] at step
      obtain ⟨-, rfl⟩ := step
      exact (Nat.succ_pred_eq_of_ne_zero positive).symm

/-- The calls yield the items one by one, and after the last item nothing for ever. -/
theorem next_after (reader : Reader) (calls : Nat) :
    (advance^[calls] reader).next.map Prod.fst = reader.items[calls]? := by
  induction calls generalizing reader with
  | zero =>
    cases step : reader.next with
    | none => rw [items_of_end step, Function.iterate_zero_apply, step]; rfl
    | some found =>
      obtain ⟨item, after⟩ := found
      rw [items_of_next step, Function.iterate_zero_apply, step]
      rfl
  | succ calls inductionHypothesis =>
    rw [Function.iterate_succ_apply, inductionHypothesis]
    cases step : reader.next with
    | none => rw [advance_of_end step, items_of_end step]; rfl
    | some found =>
      obtain ⟨item, after⟩ := found
      rw [advance_of_next step, items_of_next step]
      rfl

/-- The calls that yield an item count down what is promised, and the others do not. -/
theorem remaining_after (reader : Reader) (calls : Nat) :
    (advance^[calls] reader).remaining = reader.remaining - min calls reader.items.length := by
  induction calls generalizing reader with
  | zero => rw [Nat.zero_min]; rfl
  | succ calls inductionHypothesis =>
    rw [Function.iterate_succ_apply, inductionHypothesis]
    cases step : reader.next with
    | none => rw [advance_of_end step, items_of_end step, List.length_nil, Nat.min_zero,
        Nat.min_zero]
    | some found =>
      obtain ⟨item, after⟩ := found
      rw [advance_of_next step, items_of_next step, remaining_of_next step, List.length_cons]
      omega

/-! ### What is read of any bytes -/

/-- The reader has cut entries off its input until the promise was kept or a defect was met. -/
theorem items_of_input (path : Path) (input : List UInt8) (remaining : Nat) :
    ∃ (entries : List Entry) (rest : List UInt8),
      input = wordsToBytes (entries.flatMap entryWords) ++ rest ∧
      (entries.length = remaining ∧
          (Reader.mk path input remaining false).items = entries.map .ok ∨
        entries.length < remaining ∧ ∃ defect, takeEntry rest = .error defect ∧
          (Reader.mk path input remaining false).items =
            entries.map .ok ++ [.error (.journal path defect)]) := by
  induction remaining generalizing input with
  | zero => exact ⟨[], input, rfl, .inl ⟨rfl, items_of_end rfl⟩⟩
  | succ remaining inductionHypothesis =>
    cases taken : takeEntry input with
    | error defect =>
      exact ⟨[], input, rfl, .inr ⟨Nat.succ_pos _, defect, taken, items_of_defect taken⟩⟩
    | ok found =>
      obtain ⟨entry, tail⟩ := found
      obtain ⟨entries, rest, spelled, outcome⟩ := inductionHypothesis tail
      refine ⟨entry :: entries, rest, ?_, ?_⟩
      · rw [(eq_of_takeEntry taken).2, spelled, ← List.append_assoc, List.flatMap_cons,
          wordsToBytes, wordsToBytes, wordsToBytes, List.flatMap_append]
      · rw [items_of_next (next_of_entry taken)]
        rcases outcome with ⟨kept, items⟩ | ⟨broken, defect, refused, items⟩
        · exact .inl ⟨congrArg (· + 1) kept, by rw [items]; rfl⟩
        · exact .inr ⟨Nat.succ_lt_succ broken, defect, refused, by rw [items]; rfl⟩

/-! ### The header -/

/-- The first eight bytes are the magic word, and there are eight bytes after them. -/
def HasHeader (bytes : List UInt8) : Prop :=
  bytes.take 8 = wordBytes magic ∧ 16 ≤ bytes.length

/-- A reader is made exactly of bytes with a header, and it believes the count there. -/
theorem open_cases (path : Path) (bytes : List UInt8) :
    (∃ count input, bytes = wordBytes magic ++ (wordBytes count ++ input) ∧
        Reader.open path bytes = .ok ⟨path, input, count.toNat, false⟩) ∨
      ¬ HasHeader bytes ∧ ∃ defect, Reader.open path bytes = .error (.journal path defect) := by
  unfold Reader.open
  cases takenFirst : takeWord bytes with
  | none =>
    have short := length_lt_of_takeWord_eq_none takenFirst
    exact .inr ⟨fun header => by have := header.2; omega, _, rfl⟩
  | some found =>
    obtain ⟨first, afterMagic⟩ := found
    have spelled := eq_of_takeWord takenFirst
    have width : (wordBytes first).length = 8 := rfl
    by_cases isMagic : first = magic
    · dsimp only
      rw [if_neg (not_not.mpr isMagic)]
      cases takenCount : takeWord afterMagic with
      | none =>
        have short := length_lt_of_takeWord_eq_none takenCount
        refine .inr ⟨fun header => ?_, _, rfl⟩
        have enough := header.2
        rw [spelled, List.length_append, width] at enough
        omega
      | some found =>
        refine .inl ⟨found.1, found.2, ?_, rfl⟩
        rw [spelled, isMagic, ← eq_of_takeWord takenCount]
    · dsimp only
      rw [if_pos isMagic]
      refine .inr ⟨fun header => isMagic ?_, _, rfl⟩
      have front := header.1
      rw [spelled, List.take_left' width] at front
      have same := takeWord_wordBytes magic []
      rw [← front, takeWord_wordBytes] at same
      exact (Prod.mk.inj (Option.some.inj same)).1

/-- Any bytes are read as a header and a run of entries, with at most one error, at the end. The
entries spell the bytes that they were read from, the error says that no entry follows although
one was promised, and every item but the error took three words at least. -/
theorem any_bytes_are_read (path : Path) (bytes : List UInt8) :
    match Reader.open path bytes with
    | .error _ => ¬ HasHeader bytes
    | .ok reader => HasHeader bytes ∧
      ∃ (count : UInt64) (entries : List Entry) (rest : List UInt8),
        bytes = wordBytes magic ++ wordBytes count ++ bytes.drop 16 ∧
        bytes.drop 16 = wordsToBytes (entries.flatMap entryWords) ++ rest ∧
        (entries.length = count.toNat ∧ reader.items = entries.map .ok ∨
          entries.length < count.toNat ∧ ∃ defect,
            reader.items = entries.map .ok ++ [.error (.journal path defect)]) ∧
        ((∃ failure, .error failure ∈ reader.items) ↔
          entries.length < count.toNat ∧ ¬ BeginsWithEntry rest) ∧
        (∀ calls, (advance^[calls] reader).next.map Prod.fst = reader.items[calls]? ∧
          (advance^[calls] reader).remaining = count.toNat - min calls reader.items.length) ∧
        reader.items.length ≤ 1 + (bytes.length - 16) / 24 := by
  rcases open_cases path bytes with ⟨count, input, spelled, opened⟩ | ⟨noHeader, defect, refused⟩
  · rw [opened]
    have width (word : UInt64) : (wordBytes word).length = 8 := rfl
    have length : bytes.length = 16 + input.length := by
      rw [spelled, List.length_append, List.length_append, width, width]
      omega
    have dropped : bytes.drop 16 = input := by
      rw [spelled, ← List.append_assoc]
      exact List.drop_left' rfl
    have header : HasHeader bytes := ⟨by rw [spelled]; exact List.take_left' rfl, by omega⟩
    obtain ⟨entries, rest, cut, outcome⟩ := items_of_input path input count.toNat
    refine ⟨header, count, entries, rest, by rw [dropped, List.append_assoc, ← spelled],
      by rw [dropped, cut], ?_, ?_, fun calls => ⟨next_after _ calls, remaining_after _ calls⟩, ?_⟩
    · rcases outcome with ⟨kept, items⟩ | ⟨broken, defect, -, items⟩
      · exact .inl ⟨kept, items⟩
      · exact .inr ⟨broken, defect, items⟩
    · rw [← takeEntry_eq_error_iff]
      rcases outcome with ⟨kept, items⟩ | ⟨broken, defect, refused, items⟩
      · rw [items]
        constructor
        · rintro ⟨failure, member⟩
          obtain ⟨entry, -, same⟩ := List.mem_map.mp member
          cases same
        · rintro ⟨broken, -⟩
          omega
      · rw [items]
        exact ⟨fun _ => ⟨broken, defect, refused⟩, fun _ =>
          ⟨_, List.mem_append_right _ List.mem_cons_self⟩⟩
    · have long := length_of_entries entries
      have whole := congrArg List.length cut
      rw [List.length_append] at whole
      have yielded : (Reader.mk path input count.toNat false).items.length ≤
          1 + entries.length := by
        rcases outcome with ⟨-, items⟩ | ⟨-, defect, -, items⟩
        · rw [items, List.length_map]
          omega
        · rw [items, List.length_append, List.length_map, List.length_singleton]
          omega
      omega
  · rw [refused]
    exact noHeader

end Reader

/-! ### The file of a writer -/

/-- Entries of at most `maxTerms` terms are all read. -/
theorem readBack_of_small (path : Path) {entries : List Entry}
    (small : ∀ entry ∈ entries, entry.terms.length ≤ maxTerms) :
    readBack path entries = entries.map .ok := by
  induction entries with
  | nil => rfl
  | cons entry others inductionHypothesis =>
    rw [readBack, if_neg (not_lt.mpr (small entry List.mem_cons_self)),
      inductionHypothesis fun other member => small other (List.mem_cons_of_mem _ member)]
    rfl

/-- Before the first entry with more terms all are read, and then the defect. -/
theorem readBack_of_large (path : Path) {before after : List Entry} {entry : Entry}
    (small : ∀ other ∈ before, other.terms.length ≤ maxTerms)
    (large : maxTerms < entry.terms.length) :
    readBack path (before ++ entry :: after) = before.map .ok ++
      [.error (.journal path (.tooManyTerms entry.doc (UInt64.ofNat entry.terms.length)))] := by
  induction before with
  | nil => exact if_pos large
  | cons first others inductionHypothesis =>
    rw [List.cons_append, readBack, if_neg (not_lt.mpr (small first List.mem_cons_self)),
      inductionHypothesis fun other member => small other (List.mem_cons_of_mem _ member)]
    rfl

/-- The text of the defect gives the document and the number of its terms. -/
theorem message_of_tooManyTerms (path : Path) (doc count : UInt64) :
    (StorageError.journal path (.tooManyTerms doc count)).message =
      s!"journal {path}: document {doc} claims {count} terms" := by
  have joined (text : String) : toString ": " ++ toString (toString "document " ++ text) =
      toString ": document " ++ text := by
    have literals : ": " ++ "document " = ": document " := by decide
    show ": " ++ ("document " ++ text) = _
    rw [← String.append_assoc, literals]
    rfl
  unfold StorageError.message JournalDefect.message
  simp only [String.append_assoc, joined]

/-- A number that fits in a word has the text of the word. -/
theorem toString_ofNat {number : Nat} (sized : number < wordLimit) :
    toString (UInt64.ofNat number) = toString number := by
  show toString (UInt64.ofNat number).toNat = _
  rw [toNat_ofNat sized]

/-- A reader over the file of a finished writer yields the entries that were put, in order and
with their terms in order, counting down from their number; if an entry has too many terms, it
yields those before the first such entry, then one error that names it, and nothing more. -/
theorem journal_round_trip (path : Path) {entries : List Entry} (sized : Sized entries)
    {files written : FileSystem}
    (finished : files.write path (Writer.ofEntries entries).finish.2 = .ok written) :
    (Writer.ofEntries entries).finish.1 = entries.length ∧
    ∃ reader, openFile path written = .ok reader ∧
      ((∀ entry ∈ entries, entry.terms.length ≤ maxTerms) → reader.items = entries.map .ok) ∧
      (∀ before entry after, entries = before ++ entry :: after →
        (∀ other ∈ before, other.terms.length ≤ maxTerms) → maxTerms < entry.terms.length →
        ∃ failure, reader.items = before.map .ok ++ [.error failure] ∧
          failure.message =
            s!"journal {path}: document {entry.doc} claims {entry.terms.length} terms") ∧
      ∀ calls, (Reader.advance^[calls] reader).next.map Prod.fst = reader.items[calls]? ∧
        (Reader.advance^[calls] reader).remaining =
          entries.length - min calls reader.items.length := by
  have count : (Writer.ofEntries entries).put.length = entries.length := by
    simp
  obtain ⟨reader, opened, items⟩ := Reader.items_of_finished path sized
  have promised : reader.remaining = entries.length := by
    rw [Writer.finish, Reader.open_bytes] at opened
    cases opened
    rw [count, toNat_ofNat sized.count]
  refine ⟨count, reader, ?_, ?_, ?_, fun calls => ⟨reader.next_after calls, ?_⟩⟩
  · rw [openFile, FileSystem.read_of_write finished]
    exact opened
  · intro small
    rw [items, readBack_of_small path small]
  · rintro before entry after rfl small large
    have fits := sized.terms entry (List.mem_append_right _ List.mem_cons_self)
    refine ⟨_, by rw [items, readBack_of_large path small large], ?_⟩
    rw [message_of_tooManyTerms, toString_ofNat fits]
  · rw [reader.remaining_after, promised]

/-- Of three documents the second has one term too many: the first is read, the second is
reported, and the third is not reached. -/
theorem journal_round_trip_of_large_document :
    ∃ written reader,
      (FileSystem.mk [] []).write (rootFile "page-index-0000.dat")
        (Writer.ofEntries [⟨7, 70, [(100, 1), (5, 2)]⟩,
          ⟨8, 80, List.replicate (maxTerms + 1) (5, 1)⟩, ⟨9, 90, []⟩]).finish.2 = .ok written ∧
      openFile (rootFile "page-index-0000.dat") written = .ok reader ∧
      ∃ failure, reader.items = [.ok ⟨7, 70, [(100, 1), (5, 2)]⟩, .error failure] ∧
        failure.message =
          "journal /page-index-0000.dat: document 8 claims 16777217 terms" := by
  have sized : Sized [⟨7, 70, [(100, 1), (5, 2)]⟩,
      ⟨8, 80, List.replicate (maxTerms + 1) (5, 1)⟩, ⟨9, 90, []⟩] := by
    refine ⟨by simp only [List.length_cons, List.length_nil]; decide, fun entry member => ?_⟩
    simp only [List.mem_cons, List.not_mem_nil, or_false] at member
    rcases member with rfl | rfl | rfl
    · decide
    · rw [List.length_replicate]
      decide
    · decide
  have names : FileSystem.Names ⟨[], []⟩ (rootFile "page-index-0000.dat")
      ["page-index-0000.dat"] := ⟨rfl, rfl, rfl, nofun, rfl, rfl, by decide⟩
  have finished := names.write_eq nofun (Writer.ofEntries [⟨7, 70, [(100, 1), (5, 2)]⟩,
      ⟨8, 80, List.replicate (maxTerms + 1) (5, 1)⟩, ⟨9, 90, []⟩]).finish.2
  obtain ⟨-, reader, opened, -, large, -⟩ := journal_round_trip _ sized finished
  obtain ⟨failure, items, message⟩ := large [⟨7, 70, [(100, 1), (5, 2)]⟩] _ [⟨9, 90, []⟩] rfl
    (fun other member => by rw [List.mem_singleton.mp member]; decide)
    (by rw [List.length_replicate]; exact Nat.lt_succ_self _)
  refine ⟨_, reader, finished, opened, failure, items, ?_⟩
  rw [message, List.length_replicate]
  rfl

end InvertedIndex.Journal
