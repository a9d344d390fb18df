/-
This file proves what the two files of a finished index hold and what a reader of them
answers. The file of the postings is the postings stores of the terms end to end; the file
of the words is one store of the terms with the offsets of their postings. Both are
functions of the lists by term alone, the index in them is accepted, and every query
answers from the lists. When the documents of a list do not ascend there are no such files.
-/

import InvertedIndex.Proofs.AcceptedIndex
import InvertedIndex.Proofs.PairStores

namespace InvertedIndex

/-! ### The two files -/

/-- The postings stores of all terms, end to end. -/
def storesOf (lists : List (Term × List Posting)) : List UInt64 :=
  lists.flatMap fun list => (Shape.postings.storeOf (Pair.toWords list.2).toArray).toList

/-- The terms with the offsets of their postings stores, from an offset on. -/
def directoryFrom (offset : Nat) : List (Term × List Posting) → List Pair
  | [] => []
  | list :: rest =>
    ⟨list.1, UInt64.ofNat offset⟩ ::
      directoryFrom (offset + Shape.postings.extent list.2.length) rest

/-- The terms with the offsets of their postings stores. -/
def directoryOf (lists : List (Term × List Posting)) : List Pair := directoryFrom 0 lists

/-- The words of the file of the postings. -/
def docsFile (lists : List (Term × List Posting)) : Array UInt64 := (storesOf lists).toArray

/-- The words of the file of the terms. -/
def wordsFile (lists : List (Term × List Posting)) : Array UInt64 :=
  Shape.terms.storeOf (Pair.toWords (directoryOf lists)).toArray

section

variable (lists left right : List (Term × List Posting)) (offset : Nat)

@[simp] theorem storesOf_append : storesOf (left ++ right) = storesOf left ++ storesOf right := by
  rw [storesOf, List.flatMap_append]
  rfl

@[simp] theorem size_store (postings : List Posting) :
    (Shape.postings.storeOf (Pair.toWords postings).toArray).size =
      Shape.postings.extent postings.length := by
  rw [Shape.size_storeOf (Shape.whole_toWords _ rfl), Shape.size_toWords _ rfl]

@[simp] theorem length_storesOf_cons (list : Term × List Posting) :
    (storesOf (list :: lists)).length =
      Shape.postings.extent list.2.length + (storesOf lists).length := by
  rw [storesOf, List.flatMap_cons, List.length_append, Array.length_toList, size_store]
  rfl

theorem directoryFrom_append :
    directoryFrom offset (left ++ right) =
      directoryFrom offset left ++ directoryFrom (offset + (storesOf left).length) right := by
  induction left generalizing offset with
  | nil => rfl
  | cons list rest inductionHypothesis =>
    rw [List.cons_append, directoryFrom, directoryFrom, inductionHypothesis, length_storesOf_cons,
      Nat.add_assoc]
    rfl

@[simp] theorem map_key_directoryFrom :
    (directoryFrom offset lists).map (·.key) = lists.map (·.1) := by
  induction lists generalizing offset with
  | nil => rfl
  | cons list rest inductionHypothesis =>
    rw [directoryFrom, List.map_cons, List.map_cons, inductionHypothesis]

@[simp] theorem length_directoryOf : (directoryOf lists).length = lists.length := by
  rw [← List.length_map (·.key), directoryOf, map_key_directoryFrom, List.length_map]

end

variable {lists : List (Term × List Posting)}

/-- The entry of a term in the directory. -/
theorem getElem_directoryOf {index : Nat} (inside : index < lists.length) :
    (directoryOf lists)[index]? =
      some ⟨lists[index].1, UInt64.ofNat (storesOf (lists.take index)).length⟩ := by
  have before : (directoryFrom 0 (lists.take index)).length = index := by
    rw [← directoryOf, length_directoryOf, List.length_take_of_le (Nat.le_of_lt inside)]
  conv => left; rw [eq_take_append_drop inside]
  rw [directoryOf, directoryFrom_append, List.getElem?_append_right (Nat.le_of_eq before), before,
    Nat.sub_self, directoryFrom, List.getElem?_cons_zero, Nat.zero_add]

/-- The file of the postings around the store of one term. -/
theorem docsFile_eq {index : Nat} (inside : index < lists.length) :
    docsFile lists = (storesOf (lists.take index)).toArray ++
      Shape.postings.storeOf (Pair.toWords lists[index].2).toArray ++
      (storesOf (lists.drop (index + 1))).toArray := by
  conv => left; rw [eq_take_append_drop inside]
  rw [docsFile, storesOf_append]
  show (_ ++ ((Shape.postings.storeOf _).toList ++ storesOf (lists.drop (index + 1)))).toArray = _
  simp

/-- The words before the store of one term, in it and behind it. -/
theorem size_docsFile {index : Nat} (inside : index < lists.length) :
    (docsFile lists).size = (storesOf (lists.take index)).length +
      Shape.postings.extent lists[index].2.length + (storesOf (lists.drop (index + 1))).length := by
  rw [docsFile_eq inside, Array.size_append, Array.size_append, size_store, List.size_toArray,
    List.size_toArray]

/-- The postings of a term in lists by term, none for a term without a list. -/
def listFor (lists : List (Term × List Posting)) (term : Term) : List Posting :=
  ((lookupBy Prod.fst lists term).map (·.2)).getD []

/-- Every posting takes two words of the file. -/
theorem countPostings_le_docsFile (lists : List (Term × List Posting)) :
    2 * countPostings lists ≤ (docsFile lists).size := by
  rw [docsFile, List.size_toArray]
  induction lists with
  | nil => exact Nat.zero_le _
  | cons list rest inductionHypothesis =>
    have wide : 2 * list.2.length ≤ Shape.postings.extent list.2.length := by
      rw [Shape.extent, Nat.mul_comm]
      exact Nat.le_add_left _ _
    rw [length_storesOf_cons, countPostings_cons]
    omega

/-- A store takes at most five words more than three for each of its postings. -/
theorem size_docsFile_le (lists : List (Term × List Posting)) :
    (docsFile lists).size ≤ 5 * lists.length + 3 * countPostings lists := by
  rw [docsFile, List.size_toArray]
  induction lists with
  | nil => exact Nat.zero_le _
  | cons list rest inductionHypothesis =>
    have blocks := Shape.postings.indexWords_le list.2.length
    have width : Shape.postings.width = 2 := rfl
    rw [length_storesOf_cons, countPostings_cons, Shape.extent, headerWords, width,
      List.length_cons]
    omega

/-- The stores take at most eight words for each posting, and no term is without one. -/
theorem sizes_le (inhabited : ∀ list ∈ lists, list.2 ≠ []) :
    (docsFile lists).size ≤ 8 * countPostings lists ∧
      lists.length ≤ countPostings lists := by
  have terms : lists.length ≤ countPostings lists := by
    induction lists with
    | nil => exact Nat.zero_le _
    | cons list rest inductionHypothesis =>
      have others := inductionHypothesis fun other member =>
        inhabited other (List.mem_cons_of_mem _ member)
      have some_postings := List.length_pos_of_ne_nil (inhabited list List.mem_cons_self)
      rw [countPostings_cons, List.length_cons]
      omega
  have docs := size_docsFile_le lists
  exact ⟨by omega, terms⟩

/-! ### Putting the files together -/

/-- Lists that fit into memory: neither the terms nor the postings are too many words. -/
structure Bounded (lists : List (Term × List Posting)) : Prop where
  few : lists.length < regionLimit
  small : 2 * countPostings lists < regionLimit

namespace Bounded

theorem count_small (bounded : Bounded lists) : 2 * countPostings lists < wordLimit :=
  Nat.lt_trans bounded.small (by decide)

/-- The offsets in the directory fit in a word. -/
theorem docs_small (bounded : Bounded lists) : (docsFile lists).size < wordLimit := by
  have limit : 8 * regionLimit < wordLimit := by decide
  have size := size_docsFile_le lists
  have few := bounded.few
  have small := bounded.small
  omega

theorem list_small (bounded : Bounded lists) {index : Nat} (inside : index < lists.length) :
    lists[index].2.length < regionLimit := by
  have small := bounded.small
  have length := length_le_countPostings inside
  omega

end Bounded

/-- Lists in normal form that an index can be made of. -/
structure Finishable (lists : List (Term × List Posting)) : Prop extends Bounded lists where
  terms : AscendingBy Prod.fst lists
  docs : ∀ list ∈ lists, AscendingBy Pair.key list.2

theorem directory_in_order (terms : AscendingBy Prod.fst lists) :
    AscendingBy Pair.key (directoryOf lists) := by
  rw [AscendingBy, directoryOf, map_key_directoryFrom]
  exact terms

/-- Lists in normal form whose two files can be mapped. -/
structure Publishable (lists : List (Term × List Posting)) : Prop where
  terms : AscendingBy Prod.fst lists
  docs : ∀ list ∈ lists, AscendingBy Pair.key list.2
  words_small : (wordsFile lists).size < regionLimit
  docs_small : (docsFile lists).size < regionLimit

@[simp] theorem size_wordsFile (lists : List (Term × List Posting)) :
    (wordsFile lists).size = Shape.terms.extent lists.length := by
  rw [wordsFile, Shape.size_storeOf (Shape.whole_toWords _ rfl), Shape.size_toWords _ rfl,
    length_directoryOf]

namespace Publishable

theorem finishable (publishable : Publishable lists) : Finishable lists where
  few := by
    have small := publishable.words_small
    rw [size_wordsFile] at small
    exact Nat.lt_of_le_of_lt (Shape.entries_le_extent _ _) small
  small := Nat.lt_of_le_of_lt (countPostings_le_docsFile lists) publishable.docs_small
  terms := publishable.terms
  docs := publishable.docs

theorem small (publishable : Publishable lists) : 2 * countPostings lists < wordLimit :=
  publishable.finishable.count_small

/-- The store of each term lies within the file. -/
theorem store_inside (publishable : Publishable lists) {index : Nat}
    (inside : index < lists.length) :
    (storesOf (lists.take index)).length + Shape.postings.extent lists[index].2.length +
      (storesOf (lists.drop (index + 1))).length < regionLimit :=
  size_docsFile inside ▸ publishable.docs_small

end Publishable

namespace Preindex

variable {owned : PreindexFiles}

/-- The files of the lists while they are put together. -/
def draftOf (lists : List (Term × List Posting)) : Draft where
  directory := (Pair.toWords (directoryOf lists)).toArray
  docs := docsFile lists
  offset := (docsFile lists).size

/-- Lists with one more term at the end. -/
theorem draftOf_concat (lists : List (Term × List Posting)) (list : Term × List Posting) :
    draftOf (lists ++ [list]) = {
      directory := (draftOf lists).directory ++ #[list.1, UInt64.ofNat (draftOf lists).offset]
      docs := (draftOf lists).docs ++ Shape.postings.storeOf (Pair.toWords list.2).toArray
      offset := (draftOf lists).offset + Shape.postings.extent list.2.length } := by
  have stores : storesOf [list] =
      (Shape.postings.storeOf (Pair.toWords list.2).toArray).toList := List.append_nil _
  have docs : docsFile (lists ++ [list]) =
      docsFile lists ++ Shape.postings.storeOf (Pair.toWords list.2).toArray := by
    rw [docsFile, storesOf_append, stores]
    simp [docsFile]
  have directory : directoryOf (lists ++ [list]) =
      directoryOf lists ++ [⟨list.1, UInt64.ofNat (docsFile lists).size⟩] := by
    rw [directoryOf, directoryFrom_append, Nat.zero_add]
    rfl
  rw [draftOf, docs, directory, Array.size_append, size_store, Pair.toWords, List.flatMap_append,
    ← Pair.toWords, ← List.append_toArray]
  rfl

section

variable {index : Nat}

theorem addTerm_ofLists (bounded : Bounded lists) (inside : index < lists.length)
    (draft : Draft) :
    (ofLists owned lists).addTerm draft index =
      draft.add lists[index].1 (Pair.toWords lists[index].2).toArray := by
  rw [addTerm, wordAt_terms inside, lift_ok, ok_bind, postings_ofLists bounded.count_small inside,
    lift_ok, ok_bind]

/-- The postings of a term are written as its store when the documents ascend. -/
theorem write_postings (bounded : Bounded lists) (inside : index < lists.length)
    (ascending : AscendingBy Pair.key lists[index].2) :
    Shape.postings.write (Pair.toWords lists[index].2).toArray =
      .ok ⟨Shape.postings.storeOf (Pair.toWords lists[index].2).toArray,
        Shape.postings.extent lists[index].2.length⟩ := by
  have fits := bounded.docs_small
  rw [size_docsFile inside] at fits
  have count := Shape.size_toWords lists[index].2 (rfl : Shape.postings.width = 2)
  have written := Shape.write_of_accepts Shape.postings_sized
    (Shape.accepts_toWords rfl ascending) (by rw [count]; exact bounded.list_small inside)
    (by rw [count]; omega)
  rwa [count] at written

/-- A term whose documents ascend gets its store behind those of the terms before it. -/
theorem addTerm_eq (bounded : Bounded lists) (inside : index < lists.length)
    (ascending : AscendingBy Pair.key lists[index].2) :
    (ofLists owned lists).addTerm (draftOf (lists.take index)) index =
      .ok (draftOf (lists.take (index + 1))) := by
  have fits := bounded.docs_small
  rw [size_docsFile inside] at fits
  have offset : (draftOf (lists.take index)).offset + Shape.postings.extent lists[index].2.length <
      wordLimit := by
    show (docsFile (lists.take index)).size + _ < _
    rw [docsFile, List.size_toArray]
    omega
  rw [addTerm_ofLists bounded inside, Draft.add, write_postings bounded inside ascending, ok_bind,
    checkedAdd_eq offset, lift_ok, ok_bind, List.take_succ_eq_append_getElem inside, draftOf_concat]
  rfl

/-- A term whose documents do not ascend is refused. -/
theorem addTerm_of_descent (owned : PreindexFiles) (bounded : Bounded lists)
    (inside : index < lists.length) (descends : ¬ AscendingBy Pair.key lists[index].2)
    (draft : Draft) :
    ∃ key entry, (ofLists owned lists).addTerm draft index =
      .error (.error (.records (.keyNotGreater key entry))) := by
  have refused : ¬ Shape.postings.Accepts (Pair.toWords lists[index].2).toArray :=
    fun accepts => descends ((Shape.accepts_toWords_iff rfl).mp accepts)
  obtain ⟨place, -, -, -, -, failed⟩ :=
    Shape.write_of_descent (Shape.whole_toWords _ rfl) refused
  rw [addTerm_ofLists bounded inside, Draft.add, failed]
  exact ⟨_, place, rfl⟩

end

/-- The first terms are added up to one whose documents do not ascend. -/
theorem draft_upTo (owned : PreindexFiles) (bounded : Bounded lists) {count : Nat}
    (within : count ≤ lists.length) :
    ((∀ list ∈ lists.take count, AscendingBy Pair.key list.2) ∧
      (List.range count).foldlM (ofLists owned lists).addTerm Draft.empty =
        .ok (draftOf (lists.take count))) ∨
    (¬ ∀ list ∈ lists.take count, AscendingBy Pair.key list.2) ∧
      ∃ key entry, (List.range count).foldlM (ofLists owned lists).addTerm Draft.empty =
        .error (.error (.records (.keyNotGreater key entry))) := by
  induction count with
  | zero => exact .inl ⟨fun list member => absurd member List.not_mem_nil, rfl⟩
  | succ index inductionHypothesis =>
    rw [List.range_succ, List.foldlM_append, List.take_succ_eq_append_getElem within,
      List.forall_mem_append, List.forall_mem_singleton]
    rcases inductionHypothesis (Nat.le_of_lt within) with
      ⟨before, added⟩ | ⟨descends, key, entry, failed⟩
    · rw [added, ok_bind, List.foldlM_cons]
      by_cases ascending : AscendingBy Pair.key lists[index].2
      · rw [addTerm_eq bounded within ascending, ← List.take_succ_eq_append_getElem within]
        exact .inl ⟨⟨before, ascending⟩, rfl⟩
      · obtain ⟨key, entry, refused⟩ := addTerm_of_descent owned bounded within ascending
          (draftOf (lists.take index))
        rw [refused]
        exact .inr ⟨fun both => ascending both.2, key, entry, rfl⟩
    · rw [failed]
      exact .inr ⟨fun both => descends both.1, key, entry, rfl⟩

/-- The draft of a preindex holds the two files of its lists. -/
theorem draft_eq (finishable : Finishable lists) :
    (ofLists owned lists).draft = .ok (draftOf lists) := by
  rw [draft, numTerms_ofLists]
  rcases draft_upTo owned finishable.toBounded (Nat.le_refl _) with
    ⟨-, added⟩ | ⟨descends, -⟩
  · rw [added, List.take_length]
  · rw [List.take_length] at descends
    exact absurd finishable.docs descends

/-- A preindex has no draft when the documents under one of its terms do not ascend. -/
theorem draft_of_descent (owned : PreindexFiles) (bounded : Bounded lists)
    (descends : ¬ ∀ list ∈ lists, AscendingBy Pair.key list.2) :
    ∃ key entry, (ofLists owned lists).draft =
      .error (.error (.records (.keyNotGreater key entry))) := by
  rw [draft, numTerms_ofLists]
  rcases draft_upTo owned bounded (Nat.le_refl _) with ⟨ascend, -⟩ | ⟨-, refused⟩
  · rw [List.take_length] at ascend
    exact absurd ascend descends
  · exact refused

/-- The directory of the draft is written as the file of the terms. -/
theorem write_directory (finishable : Finishable lists) :
    Shape.terms.write (draftOf lists).directory =
      .ok ⟨wordsFile lists, (wordsFile lists).size⟩ := by
  have count := Shape.size_toWords (directoryOf lists) (rfl : Shape.terms.width = 2)
  have few := finishable.few
  have small : Shape.terms.extent lists.length < wordLimit := by
    have blocks := Shape.terms.indexWords_le lists.length
    have limit : 8 * regionLimit < wordLimit := by decide
    have width : Shape.terms.width = 2 := rfl
    rw [Shape.extent, headerWords, width]
    omega
  have written := Shape.write_of_accepts Shape.terms_sized
    (Shape.accepts_toWords rfl (directory_in_order finishable.terms))
    (by rwa [count, length_directoryOf]) (by rwa [count, length_directoryOf])
  rw [draftOf, written, count, length_directoryOf, size_wordsFile]
  rfl

end Preindex

/-! ### Reading the files -/

namespace Index

variable {options : ReaderOptions}

/-- The index in the two files of the lists. -/
def ofLists (lists : List (Term × List Posting)) (options : ReaderOptions) : Index where
  words := wordsFile lists
  docs := docsFile lists
  options := options

theorem terms_standsAt (lists : List (Term × List Posting)) :
    Shape.terms.StandsAt (wordsFile lists) 0 lists.length := by
  have stands := Shape.storeOf_standsAt
    (Shape.whole_toWords (directoryOf lists) (rfl : Shape.terms.width = 2)) #[] #[]
  rwa [Array.empty_append, Array.append_empty, Shape.size_toWords _ rfl, length_directoryOf]
    at stands

/-- The directory of the index holds the terms with their offsets. -/
theorem termStore_holdsPairs (options : ReaderOptions) (publishable : Publishable lists) :
    ((ofLists lists options).termStore lists.length).HoldsPairs (directoryOf lists) := by
  have size := publishable.words_small
  rw [size_wordsFile] at size
  have inOrder := directory_in_order publishable.terms
  have holds := Store.cut_holdsPairs Shape.terms_sized rfl inOrder #[] #[]
    (by simpa using size) options.backend
  rw [Array.empty_append, Array.append_empty, length_directoryOf] at holds
  exact holds

/-- The record of a term points to where its store was put. -/
theorem postingsOffset_eq (publishable : Publishable lists) {index : Nat}
    (inside : index < lists.length) :
    (ofLists lists options).postingsOffset lists.length index =
      (storesOf (lists.take index)).length := by
  have fits := publishable.store_inside inside
  have limit : regionLimit < wordLimit := by decide
  have within : index < (directoryOf lists).length := by simpa using inside
  have entry := getElem_directoryOf inside
  rw [List.getElem?_eq_getElem within] at entry
  rw [postingsOffset, (termStore_holdsPairs options publishable).word_eq within,
    Option.some.inj entry]
  exact toNat_ofNat (by omega)

/-- The store that the record of a term points to holds its postings. -/
theorem postingsStore_holdsPairs (publishable : Publishable lists) {index : Nat}
    (inside : index < lists.length) :
    ((ofLists lists options).postingsStore
      ((ofLists lists options).postingsOffset lists.length index)
      lists[index].2.length).HoldsPairs lists[index].2 := by
  have holds := Store.cut_holdsPairs Shape.postings_sized rfl
    (publishable.docs _ (List.getElem_mem inside)) (storesOf (lists.take index)).toArray
    (storesOf (lists.drop (index + 1))).toArray (publishable.store_inside inside) options.backend
  rw [← docsFile_eq inside, List.size_toArray] at holds
  rw [postingsOffset_eq publishable inside]
  exact holds

theorem postings_standsAt (publishable : Publishable lists) {index : Nat}
    (inside : index < lists.length) :
    Shape.postings.StandsAt (ofLists lists options).docs
      ((ofLists lists options).postingsOffset lists.length index) lists[index].2.length := by
  have stands := Shape.storeOf_standsAt
    (Shape.whole_toWords lists[index].2 (rfl : Shape.postings.width = 2))
    (storesOf (lists.take index)).toArray (storesOf (lists.drop (index + 1))).toArray
  rw [← docsFile_eq inside, List.size_toArray, Shape.size_toWords _ rfl] at stands
  rw [postingsOffset_eq publishable inside]
  exact stands

/-- The index that was put together from lists in normal form is accepted. -/
theorem accepted_ofLists (options : ReaderOptions) (publishable : Publishable lists) :
    (ofLists lists options).Accepted lists.length where
  words_small := publishable.words_small
  docs_small := publishable.docs_small
  directory := terms_standsAt lists
  whole := (size_wordsFile lists).symm
  ascending entry positive below := by
    have holds := termStore_holdsPairs options publishable
    refine holds.ascending _ _ (Nat.sub_lt positive (by decide)) ?_
    rw [holds.entries_eq, length_directoryOf]
    exact below
  postings _ below := ⟨_, postings_standsAt publishable below⟩

/-! ### The answers -/

theorem termStore_key (publishable : Publishable lists) {entry : Nat}
    (inside : entry < lists.length) :
    ((ofLists lists options).termStore lists.length).key entry = lists[entry].1 := by
  have within : entry < (directoryOf lists).length := by simpa using inside
  have isEntry := getElem_directoryOf inside
  rw [List.getElem?_eq_getElem within] at isEntry
  rw [(termStore_holdsPairs options publishable).key_eq within, Option.some.inj isEntry]

/-- A term of the lists has its postings, and another one has none. -/
theorem postings_ofLists (options : ReaderOptions) (publishable : Publishable lists)
    (term : Term) :
    ∃ answer, (ofLists lists options).postings term = .ok answer ∧
      (∀ store, answer = some store → store.HoldsPairs (listFor lists term)) ∧
      (answer = none → listFor lists term = []) := by
  have accepted := accepted_ofLists options publishable
  have holds := termStore_holdsPairs options publishable
  have entries : ((ofLists lists options).termStore lists.length).entries = lists.length := by
    rw [holds.entries_eq, length_directoryOf]
  obtain ⟨found, located, finds⟩ := holds.toOrdered.find_eq term
  cases found with
  | none =>
    refine ⟨none, accepted.postings_of_absent located, nofun, fun _ => ?_⟩
    have absent : lookupBy Prod.fst lists term = none := by
      refine lookupBy_eq_none_iff.mpr fun list member isTerm => ?_
      obtain ⟨entry, inside, rfl⟩ := List.getElem_of_mem member
      exact finds entry (entries ▸ inside) ((termStore_key publishable inside).trans isTerm)
    rw [listFor, absent]
    rfl
  | some entry =>
    obtain ⟨below, isTerm⟩ := finds
    have inside : entry < lists.length := entries ▸ below
    rw [termStore_key publishable inside] at isTerm
    have isList : listFor lists term = lists[entry].2 := by
      rw [listFor, ← isTerm, lookupBy_of_mem publishable.terms (List.getElem_mem inside)]
      rfl
    refine ⟨_, accepted.postings_of_found located inside (postings_standsAt publishable inside),
      fun store isStore => ?_, nofun⟩
    cases isStore
    rw [isList]
    exact postingsStore_holdsPairs publishable inside

variable (publishable : Publishable lists) (term : Term)

include publishable

theorem documents_ofLists :
    (ofLists lists options).documents term = .ok {
      term
      docs := (listFor lists term).map (·.key)
      remaining := (listFor lists term).length } := by
  obtain ⟨answer, answered, present, absent⟩ := postings_ofLists options publishable term
  rw [documents, answered, ok_bind]
  cases answer with
  | none =>
    rw [absent rfl]
    rfl
  | some store =>
    have holds := present store rfl
    show Except.ok (PostingsSource.ofStore term store) = _
    rw [PostingsSource.ofStore, holds.keys_eq, holds.entries_eq]

theorem numDocuments_ofLists :
    (ofLists lists options).numDocuments term = .ok (listFor lists term).length := by
  obtain ⟨answer, answered, present, absent⟩ := postings_ofLists options publishable term
  rw [numDocuments, answered, ok_bind]
  cases answer with
  | none =>
    rw [absent rfl]
    rfl
  | some store =>
    rw [← (present store rfl).entries_eq]
    rfl

theorem metadata_ofLists {docs : List DocId} (ascending : docs.Pairwise (· < ·)) :
    (ofLists lists options).metadata term docs =
      .ok (docs.map fun doc => (flagsIn (listFor lists term) doc).getD 0) := by
  obtain ⟨answer, answered, present, absent⟩ := postings_ofLists options publishable term
  rw [metadata, answered, ok_bind]
  cases answer with
  | none =>
    rw [absent rfl]
    rfl
  | some store => exact (present store rfl).columnWith_eq _ ascending

theorem termCounts_ofLists :
    (ofLists lists options).termCounts =
      .ok (lists.map fun list => (list.1, list.2.length)) := by
  have accepted := accepted_ofLists options publishable
  have entries : ((ofLists lists options).termStore lists.length).entries = lists.length := rfl
  rw [termCounts, accepted.directory_eq, ok_bind, entries]
  refine Eq.trans (mapM_eq_ok fun entry member => show _ = Except.ok
    ((lists[entry]?.map fun list => (list.1, list.2.length)).getD (0, 0)) from ?_) ?_
  · have inside := List.mem_range.mp member
    rw [accepted.directoryRecord_eq inside, ok_bind]
    dsimp only
    rw [accepted.postingsAt_eq (postings_standsAt publishable inside), ok_bind,
      (postingsStore_holdsPairs publishable inside).entries_eq, termStore_key publishable inside,
      List.getElem?_eq_getElem inside]
    rfl
  refine congrArg Except.ok (List.ext_getElem (by simp) fun entry _ inside => ?_)
  rw [List.length_map] at inside
  rw [List.getElem_map, List.getElem_range, List.getElem?_eq_getElem inside, List.getElem_map]
  rfl

end Index

end InvertedIndex
