/-
This file proves that a stream keeps its accounts. It hands out documents one at a time or in
batches of any size, and beside them it counts how many are left. Every call moves both by the
same number, so whatever calls are made, the documents handed out are the first keys of the
store, all but as many as are still counted, and the stream ends when all of them are out.
-/

import InvertedIndex.Proofs.Answers

namespace InvertedIndex

/-! ### Calls -/

/-- A call on a stream of documents. -/
inductive StreamCall where
  | next
  /-- Up to `limit` documents are to be appended to a buffer that may hold some already. -/
  | readInto (buffer : List DocId) (limit : Nat)

/-- What a call is answered with. -/
inductive StreamReply where
  | next (doc : Option DocId)
  | readInto (count : Nat) (filled : List DocId)

/-- The documents that a call has handed out. In a buffer they stand behind those that it held
before. -/
def StreamCall.handedOut : StreamCall → StreamReply → List DocId
  | .next, .next doc => doc.toList
  | .readInto buffer _, .readInto _ filled => filled.drop buffer.length
  | _, _ => []

namespace PostingsSource

/-- Makes a call. -/
def make (source : PostingsSource) : StreamCall → Except Fault (StreamReply × PostingsSource)
  | .next => do
    let (doc, after) ← source.next
    return (.next doc, after)
  | .readInto buffer limit =>
    let (count, filled, after) := source.readInto buffer limit
    return (.readInto count filled, after)

/-- Makes calls in turn: the documents that they have handed out, one after the other, and the
source after them. -/
def makeAll (source : PostingsSource) :
    List StreamCall → Except Fault (List DocId × PostingsSource)
  | [] => return ([], source)
  | call :: rest => do
    let (reply, between) ← source.make call
    let (others, after) ← between.makeAll rest
    return (call.handedOut reply ++ others, after)

/-! ### The documents and their count -/

/-- The source has handed out the first of these keys, and it still has and counts the others. -/
structure InStep (keys handed : List DocId) (source : PostingsSource) : Prop where
  parts : handed ++ source.docs = keys
  counted : source.Counted

/-- What a source of these keys answers once some of them have been handed out. -/
structure Accounts (keys handed : List DocId) (source : PostingsSource) : Prop where
  handed_eq : handed = keys.take (keys.length - source.remaining)
  remaining_le : source.remaining ≤ keys.length
  length : source.length = source.remaining
  sizeHint : source.sizeHint = (source.remaining, some source.remaining)
  hasMore : source.hasMore = false ↔ handed = keys
  next : source.hasMore = true → ∃ doc after, source.next = .ok (some doc, after) ∧
    after.remaining + 1 = source.remaining
  readInto : ∀ buffer limit, ∃ docs after,
    source.readInto buffer limit = (docs.length, buffer ++ docs, after) ∧
    docs.length = min limit source.remaining ∧
    after.remaining + docs.length = source.remaining
  next_ended : source.hasMore = false → source.next = .ok (none, source)
  readInto_ended : source.hasMore = false → ∀ buffer limit,
    source.readInto buffer limit = (0, buffer, source)

variable {keys handed : List DocId} {source : PostingsSource}

theorem inStep_ofStore {postings : Store} (sound : postings.Sound) (term : Term) :
    (ofStore term postings).InStep postings.keys [] := ⟨rfl, counted_ofStore sound term⟩

theorem inStep_empty (term : Term) : (empty term).InStep [] [] := ⟨rfl, counted_empty term⟩

/-- A source that has handed out a document counts one less. -/
theorem InStep.next {doc : DocId} {rest : List DocId} (inStep : source.InStep keys handed)
    (isNext : source.docs = doc :: rest) :
    ∃ after, source.next = .ok (some doc, after) ∧ after.remaining + 1 = source.remaining ∧
      after.InStep keys (handed ++ [doc]) := by
  have counted : rest.length + 1 = source.remaining := by
    rw [← inStep.counted, isNext, List.length_cons]
  refine ⟨{ source with docs := rest, remaining := source.remaining - 1 }, ?_, ?_, ?_, ?_⟩
  · rw [PostingsSource.next, isNext]
    dsimp only
    rw [if_neg (by omega)]
  · dsimp only
    omega
  · rw [List.append_assoc, List.singleton_append, ← isNext, inStep.parts]
  · show rest.length = source.remaining - 1
    omega

/-- A batch holds as many documents as it was to hold or as there were, and they are not counted
any more. -/
theorem InStep.readInto (inStep : source.InStep keys handed) (buffer : List DocId) (limit : Nat) :
    ∃ docs after, source.readInto buffer limit = (docs.length, buffer ++ docs, after) ∧
      docs.length = min limit source.remaining ∧
      after.remaining + docs.length = source.remaining ∧ after.InStep keys (handed ++ docs) := by
  have counted : source.docs.length = source.remaining := inStep.counted
  have length : (source.docs.take (min limit source.remaining)).length =
      min limit source.remaining := by
    rw [List.length_take, counted]
    omega
  refine ⟨source.docs.take (min limit source.remaining), {
      source with
      docs := source.docs.drop (min limit source.remaining)
      remaining := source.remaining - min limit source.remaining }, ?_, length, ?_, ?_, ?_⟩
  · rw [length]
    rfl
  · rw [length]
    dsimp only
    omega
  · rw [List.append_assoc, List.take_append_drop, inStep.parts]
  · show (source.docs.drop _).length = source.remaining - _
    rw [List.length_drop, counted]

/-- By cases on the call: none of them faults, and what it hands out is not counted any more. -/
theorem InStep.make (inStep : source.InStep keys handed) (call : StreamCall) :
    ∃ reply after, source.make call = .ok (reply, after) ∧
      after.InStep keys (handed ++ call.handedOut reply) := by
  cases call with
  | next =>
    cases isNext : source.docs with
    | nil =>
      refine ⟨.next none, source, ?_, by simpa [StreamCall.handedOut] using inStep⟩
      rw [PostingsSource.make, PostingsSource.next, isNext]
      rfl
    | cons doc rest =>
      obtain ⟨after, handed, -, stays⟩ := inStep.next isNext
      refine ⟨.next (some doc), after, ?_, stays⟩
      rw [PostingsSource.make, handed]
      rfl
  | readInto buffer limit =>
    obtain ⟨docs, after, read, -, -, stays⟩ := inStep.readInto buffer limit
    refine ⟨.readInto docs.length (buffer ++ docs), after, ?_, ?_⟩
    · rw [PostingsSource.make, read]
      rfl
    · rwa [StreamCall.handedOut, List.drop_left]

/-- By induction on the calls, what all of them hand out follows on what was handed out before. -/
theorem InStep.makeAll (inStep : source.InStep keys handed) (calls : List StreamCall) :
    ∃ docs after, source.makeAll calls = .ok (docs, after) ∧
      after.InStep keys (handed ++ docs) := by
  induction calls generalizing source handed with
  | nil => exact ⟨[], source, rfl, by rwa [List.append_nil]⟩
  | cons call rest inductionHypothesis =>
    obtain ⟨reply, between, made, stays⟩ := inStep.make call
    obtain ⟨docs, after, others, ends⟩ := inductionHypothesis stays
    refine ⟨call.handedOut reply ++ docs, after, ?_, by rwa [← List.append_assoc]⟩
    rw [PostingsSource.makeAll, made, ok_bind]
    dsimp only
    rw [others]
    rfl

theorem InStep.hasMore_eq_false_iff (inStep : source.InStep keys handed) :
    source.hasMore = false ↔ source.docs = [] := by
  rw [hasMore, decide_eq_false_iff_not, Nat.not_lt, Nat.le_zero, ← inStep.counted,
    List.length_eq_zero_iff]

theorem InStep.accounts (inStep : source.InStep keys handed) : source.Accounts keys handed where
  handed_eq := by
    rw [← inStep.counted, ← inStep.parts, List.length_append, Nat.add_sub_cancel, List.take_left]
  remaining_le := by
    rw [← inStep.counted, ← inStep.parts, List.length_append]
    exact Nat.le_add_left _ _
  length := rfl
  sizeHint := rfl
  hasMore := by
    rw [inStep.hasMore_eq_false_iff, ← inStep.parts, List.self_eq_append_right]
  next more := by
    cases isNext : source.docs with
    | nil =>
      rw [inStep.hasMore_eq_false_iff.mpr isNext] at more
      cases more
    | cons doc rest =>
      obtain ⟨after, handed, counts, -⟩ := inStep.next isNext
      exact ⟨doc, after, handed, counts⟩
  readInto buffer limit := by
    obtain ⟨docs, after, read, isCount, counts, -⟩ := inStep.readInto buffer limit
    exact ⟨docs, after, read, isCount, counts⟩
  next_ended ended := by
    rw [PostingsSource.next, inStep.hasMore_eq_false_iff.mp ended]
  readInto_ended ended buffer limit := by
    obtain ⟨term, docs, remaining⟩ := source
    obtain rfl : docs = [] := inStep.hasMore_eq_false_iff.mp ended
    obtain rfl : 0 = remaining := inStep.counted
    simp [PostingsSource.readInto, read]

end PostingsSource

/-- A stream keeps its accounts. Over any store that opens, and over no store at all, no sequence
of calls faults; the documents that the calls have handed out, in their order, are the first keys
of the store, all but as many as are left; what is left is the one number that every way of
asking for it gives; a batch is appended to what the buffer held and has as many documents as
were asked for or left; and once all keys have been handed out the stream has ended, and every
later call finds it so. -/
theorem streams_keep_accounts :
    (∀ (words : Array UInt64) (offset : Nat) (shape : Shape) (backend : Backend) (store : Store)
      (term : Term), words.size < regionLimit → shape.Sized →
      Store.open words offset shape backend = .ok store →
      store.keys.length = store.entries ∧
      (∀ entry (inside : entry < store.keys.length), store.keyAt entry = .ok store.keys[entry]) ∧
      ∀ calls, ∃ docs after, (PostingsSource.ofStore term store).makeAll calls = .ok (docs, after) ∧
        after.Accounts store.keys docs) ∧
    ∀ term calls, ∃ docs after, (PostingsSource.empty term).makeAll calls = .ok (docs, after) ∧
      after.Accounts [] docs := by
  constructor
  · intro words offset shape backend store term small sized opened
    obtain ⟨entries, stands, rfl⟩ := Store.standsAt_of_open small opened
    have sound := Store.cut_sound sized small stands backend
    refine ⟨sound.answers.keys, fun entry inside => ?_, fun calls => ?_⟩
    · have below := sound.answers.keys ▸ inside
      rw [sound.keyAt_eq below]
      simp [sound.keys_eq]
    · obtain ⟨docs, after, made, inStep⟩ :=
        (PostingsSource.inStep_ofStore sound term).makeAll calls
      exact ⟨docs, after, made, inStep.accounts⟩
  · intro term calls
    obtain ⟨docs, after, made, inStep⟩ := (PostingsSource.inStep_empty term).makeAll calls
    exact ⟨docs, after, made, inStep.accounts⟩

/-- The keys of records in no order are handed out as they stand. -/
theorem streams_keep_accounts_of_stray_records :
    ∃ store after, Store.open strayPostings.toArray 0 Shape.postings .vector = .ok store ∧
      (PostingsSource.ofStore 5 store).makeAll [.readInto [7] 1, .next, .readInto [] 0] =
        .ok ([30, 10], after) ∧
      after.remaining = 1 ∧ after.Accounts store.keys [30, 10] := by
  obtain ⟨-, -, accounts⟩ := streams_keep_accounts.1 strayPostings.toArray 0 Shape.postings
    .vector _ 5 (by decide) Shape.postings_sized rfl
  obtain ⟨docs, after, made, holds⟩ := accounts [.readInto [7] 1, .next, .readInto [] 0]
  cases made
  exact ⟨_, _, rfl, rfl, rfl, holds⟩

end InvertedIndex
