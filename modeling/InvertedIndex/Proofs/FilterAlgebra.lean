/-
This file proves that filters are conditions in the plain sense. A filter tests one document
through the block index of a store, narrows a sorted list by one of two walks over the store,
and puts its parts in an order of its own; on stores in order all of this comes to whether
the document is among those that the reader lists for the term. What is proved of each kind of
filter is one statement, that it decides a predicate, and a filter of any depth is decided by
the predicates of its parts.
-/

import InvertedIndex.Proofs.Answers
import InvertedIndex.Proofs.Layout
import Mathlib.Data.List.Perm.Basic

namespace InvertedIndex

/-! ### Stores in order -/

namespace Store

/-- The keys of a store ascend, and its block index holds the last key of each block. -/
structure InOrder (store : Store) : Prop where
  ascending : ∀ first second, first < second → second < store.entries →
    store.key first < store.key second
  indexed : ∀ block, block < store.shape.indexWords store.entries →
    store.index[block]? =
      some (store.key (min ((block + 1) * store.shape.blockEntries) store.entries - 1))

variable {store : Store}

/-- A store in order whose header was accepted finds its keys. -/
theorem Sound.ordered (sound : store.Sound) (inOrder : store.InOrder) : store.Ordered where
  toSound := sound
  ascending := inOrder.ascending
  indexed := inOrder.indexed

theorem Ordered.inOrder (ordered : store.Ordered) : store.InOrder where
  ascending := ordered.ascending
  indexed := ordered.indexed

/-- A lookup comes to an entry exactly when the key is among the keys of the store. -/
theorem Sound.isSome_of_finds (sound : store.Sound) {key : UInt64} {found : Option Nat}
    (finds : store.Finds key found) : found.isSome = decide (key ∈ store.keys) := by
  rw [sound.keys_eq]
  cases found with
  | none =>
    have absent : key ∉ (List.range store.entries).map store.key := by
      rw [List.mem_map]
      rintro ⟨entry, member, isKey⟩
      exact finds entry (List.mem_range.mp member) isKey
    rw [decide_eq_false absent]
    rfl
  | some entry =>
    have present : key ∈ (List.range store.entries).map store.key :=
      List.mem_map.mpr ⟨entry, List.mem_range.mpr finds.1, finds.2⟩
    rw [decide_eq_true present]
    rfl

/-- The keys of a store in order ascend. -/
theorem Ordered.keys_pairwise (ordered : store.Ordered) : store.keys.Pairwise (· < ·) := by
  rw [ordered.toSound.keys_eq, List.pairwise_map]
  refine List.pairwise_lt_range.imp_of_mem fun _ member before => ?_
  exact ordered.ascending _ _ before (List.mem_range.mp member)

theorem Sound.length_keys_lt (sound : store.Sound) : store.keys.length < regionLimit := by
  rw [sound.keys_eq, List.length_map, List.length_range]
  exact sound.entries_small

theorem Ordered.contains_eq (ordered : store.Ordered) (key : UInt64) :
    store.contains key = .ok (decide (key ∈ store.keys)) := by
  obtain ⟨found, located, finds⟩ := ordered.find_eq key
  rw [contains, located, ← ordered.toSound.isSome_of_finds finds]
  rfl

/-- Narrowing keeps the candidates whose presence among the keys is the one asked for. -/
theorem Ordered.select_eq (ordered : store.Ordered) (present : Bool) {candidates : List UInt64}
    (ascending : candidates.Pairwise (· ≤ ·)) :
    store.select present candidates =
      .ok (candidates.filter fun key => decide (key ∈ store.keys) == present) := by
  obtain ⟨found, selected, finds⟩ := ordered.toSound.select_eq present ascending
  have each := finds ordered
  rw [selected]
  clear selected finds ascending
  refine congrArg Except.ok ?_
  induction each with
  | nil => rfl
  | @cons key outcome keys found isThere _ inductionHypothesis =>
    rw [List.zip_cons_cons, List.filter_cons, List.filter_cons,
      ordered.toSound.isSome_of_finds isThere, ← inductionHypothesis]
    split <;> rfl

end Store

/-- The postings that an index gives for a term are in order, whatever the term is. -/
def Index.InOrder (index : Index) : Prop :=
  ∀ term postings, index.postings term = .ok (some postings) → postings.InOrder

/-- So is every index that a build puts together. -/
theorem Index.inOrder_ofLists {lists : List (Term × List Posting)}
    (publishable : Publishable lists) (options : ReaderOptions) :
    (Index.ofLists lists options).InOrder := by
  intro term postings asked
  obtain ⟨answer, answered, present, -⟩ := Index.postings_ofLists options publishable term
  rw [answered, Except.ok.injEq] at asked
  exact (present postings asked).toOrdered.inOrder

/-- There are none in an index without terms. -/
theorem Index.Accepted.inOrder {index : Index} (accepted : index.Accepted 0) : index.InOrder := by
  intro term postings asked
  obtain ⟨found, located, inside⟩ := accepted.directory_sound.find_eq term
  cases found with
  | none =>
    rw [accepted.postings_of_absent located] at asked
    cases asked
  | some entry => exact absurd (inside entry rfl) (Nat.not_lt_zero entry)

/-! ### Single filters -/

namespace Filter

/-- The filter passes the documents of a predicate: it tests each document for it, and out of
a sorted list it leaves those that have it, in their order and as often as they are there. -/
structure Decides (filter : Filter) (accepts : DocId → Bool) : Prop where
  test : ∀ doc, filter.test doc = .ok (accepts doc)
  apply : ∀ candidates : List DocId, candidates.Pairwise (· ≤ ·) →
    filter.apply candidates = .ok (candidates.filter accepts)

theorem decides_retain {postings : Store} (ordered : postings.Ordered) (term : Term) :
    (retain term postings).Decides fun doc => decide (doc ∈ postings.keys) where
  test doc := by
    rw [test, ordered.contains_eq]
  apply candidates ascending := by
    rw [apply, Store.retain, ordered.select_eq true ascending]
    simp only [beq_true]

theorem decides_reject {postings : Store} (ordered : postings.Ordered) (term : Term) :
    (reject term postings).Decides fun doc => !decide (doc ∈ postings.keys) where
  test doc := by
    rw [test, ordered.contains_eq]
    rfl
  apply candidates ascending := by
    rw [apply, Store.reject, ordered.select_eq false ascending]
    simp only [beq_false]

theorem decides_noPass : noPass.Decides fun _ => false where
  test _ := by rw [test]; rfl
  apply candidates _ := by
    rw [apply, List.filter_false]
    rfl

theorem decides_letThrough : letThrough.Decides fun _ => true where
  test _ := by rw [test]; rfl
  apply candidates _ := by
    rw [apply, List.filter_true]
    rfl

/-! ### Filters of several parts -/

variable {filters : List Filter} {accepted : List (DocId → Bool)}

theorem testAll_eq (decides : List.Forall₂ Decides filters accepted) (doc : DocId) :
    testAll filters doc = .ok (accepted.all fun accepts => accepts doc) := by
  induction decides with
  | nil =>
    rw [testAll]
    rfl
  | @cons filter accepts rest others first _ inductionHypothesis =>
    rw [testAll, first.test, ok_bind, inductionHypothesis, List.all_cons]
    cases accepts doc <;> rfl

theorem testAny_eq (decides : List.Forall₂ Decides filters accepted) (doc : DocId) :
    testAny filters doc = .ok (accepted.any fun accepts => accepts doc) := by
  induction decides with
  | nil =>
    rw [testAny]
    rfl
  | @cons filter accepts rest others first _ inductionHypothesis =>
    rw [testAny, first.test, ok_bind, inductionHypothesis, List.any_cons]
    cases accepts doc <;> rfl

/-- Stopping on an empty list changes nothing, since nothing can come back into it. -/
theorem applyEach_eq (decides : List.Forall₂ Decides filters accepted) {candidates : List DocId}
    (ascending : candidates.Pairwise (· ≤ ·)) :
    applyEach filters candidates =
      .ok (candidates.filter fun doc => accepted.all fun accepts => accepts doc) := by
  induction decides generalizing candidates with
  | nil =>
    rw [applyEach]
    show Except.ok candidates = .ok (candidates.filter fun _ => true)
    rw [List.filter_true]
  | @cons filter accepts rest others first _ inductionHypothesis =>
    rw [applyEach]
    split
    · rename_i empty
      rw [List.isEmpty_iff.mp empty]
      rfl
    · rw [first.apply candidates ascending, ok_bind, inductionHypothesis (ascending.filter _),
        List.filter_filter]
      simp only [List.all_cons, Bool.and_comm]

theorem decides_allOf (decides : List.Forall₂ Decides filters accepted) :
    (allOf filters).Decides fun doc => accepted.all fun accepts => accepts doc where
  test doc := by rw [test, testAll_eq decides]
  apply candidates ascending := by rw [apply, applyEach_eq decides ascending]

theorem decides_any (decides : List.Forall₂ Decides filters accepted) :
    (any filters).Decides fun doc => accepted.any fun accepts => accepts doc where
  test doc := by rw [any, test, testAny_eq decides]
  apply candidates _ := by rw [any, apply, filterM_eq_ok (testAny_eq decides)]

/-- Going through all parts with no look at what is left comes to the same. -/
theorem foldlM_apply_eq (decides : List.Forall₂ Decides filters accepted)
    {candidates : List DocId} (ascending : candidates.Pairwise (· ≤ ·)) :
    filters.foldlM (fun left filter => filter.apply left) candidates =
      .ok (candidates.filter fun doc => accepted.all fun accepts => accepts doc) := by
  induction decides generalizing candidates with
  | nil =>
    show Except.ok candidates = .ok (candidates.filter fun _ => true)
    rw [List.filter_true]
  | @cons filter accepts rest others first _ inductionHypothesis =>
    rw [List.foldlM_cons, first.apply candidates ascending, ok_bind,
      inductionHypothesis (ascending.filter _), List.filter_filter]
    simp only [List.all_cons, Bool.and_comm]

/-- Parts in another order decide the same predicates in that order. -/
theorem exists_decides_of_perm (decides : List.Forall₂ Decides filters accepted)
    {reordered : List Filter} (perm : reordered.Perm filters) :
    ∃ others, List.Forall₂ Decides reordered others ∧
      (fun doc => others.all fun accepts => accepts doc) =
        fun doc => accepted.all fun accepts => accepts doc := by
  obtain ⟨others, eachDecides, othersPerm⟩ := List.perm_comp_forall₂ perm decides
  exact ⟨others, eachDecides, funext fun doc => othersPerm.all_eq⟩

/-- A conjunction decides the same in whatever order its parts run. -/
theorem decides_allOf_of_perm (decides : List.Forall₂ Decides filters accepted)
    {reordered : List Filter} (perm : reordered.Perm filters) :
    (allOf reordered).Decides (fun doc => accepted.all fun accepts => accepts doc) := by
  obtain ⟨others, eachDecides, same⟩ := exists_decides_of_perm decides perm
  exact same ▸ decides_allOf eachDecides

theorem decides_all (decides : List.Forall₂ Decides filters accepted) :
    (all filters).Decides fun doc => accepted.all fun accepts => accepts doc :=
  decides_allOf_of_perm decides (List.mergeSort_perm _ _)

end Filter

/-! ### Conditions -/

/-- A condition on the terms of a document. -/
inductive Condition where
  | retain (term : Term)
  | reject (term : Term)
  | noPass
  | letThrough
  | allOf (conditions : List Condition)
  | anyOf (conditions : List Condition)

namespace Condition

variable {ε : Type}

mutual

/-- The filter of a condition, built from what a reader gives for each term. -/
def filter (reader : IndexReader) : Condition → Action ε Filter
  | retain term => reader.retainFilter term
  | reject term => reader.rejectFilter term
  | noPass => pure .noPass
  | letThrough => pure .letThrough
  | allOf conditions => do return .all (← filters reader conditions)
  | anyOf conditions => do return .any (← filters reader conditions)

/-- The filters of some conditions. -/
def filters (reader : IndexReader) : List Condition → Action ε (List Filter)
  | [] => pure []
  | condition :: rest => do
    let first ← condition.filter reader
    return first :: (← filters reader rest)

end

mutual

/-- What a condition says of a document, from the documents that each term is listed in. -/
def holds (documents : Term → List DocId) : Condition → DocId → Bool
  | retain term, doc => decide (doc ∈ documents term)
  | reject term, doc => !decide (doc ∈ documents term)
  | noPass, _ => false
  | letThrough, _ => true
  | allOf conditions, doc => holdAll documents conditions doc
  | anyOf conditions, doc => holdAny documents conditions doc

/-- All of the conditions hold. -/
def holdAll (documents : Term → List DocId) : List Condition → DocId → Bool
  | [], _ => true
  | condition :: rest, doc => condition.holds documents doc && holdAll documents rest doc

/-- Some condition holds. -/
def holdAny (documents : Term → List DocId) : List Condition → DocId → Bool
  | [], _ => false
  | condition :: rest, doc => condition.holds documents doc || holdAny documents rest doc

end

section

variable (documents : Term → List DocId) (conditions : List Condition) (doc : DocId)

theorem holdAll_eq : holdAll documents conditions doc =
    (conditions.map (holds documents)).all fun accepts => accepts doc := by
  induction conditions with
  | nil => rfl
  | cons condition rest inductionHypothesis =>
    rw [holdAll, inductionHypothesis]
    rfl

theorem holdAny_eq : holdAny documents conditions doc =
    (conditions.map (holds documents)).any fun accepts => accepts doc := by
  induction conditions with
  | nil => rfl
  | cons condition rest inductionHypothesis =>
    rw [holdAny, inductionHypothesis]
    rfl

theorem holds_allOf : (allOf conditions).holds documents = fun doc =>
    (conditions.map (holds documents)).all fun accepts => accepts doc :=
  funext fun doc => by rw [holds, holdAll_eq]

theorem holds_anyOf : (anyOf conditions).holds documents = fun doc =>
    (conditions.map (holds documents)).any fun accepts => accepts doc :=
  funext fun doc => by rw [holds, holdAny_eq]

end

end Condition

/-! ### Filters of a reader -/

namespace IndexReader

variable {reader : IndexReader} {ε : Type}

/-- Behind everything that a reader is asked about a term there is one list of documents, when
its index was accepted and the postings in it are in order: the keys of a store that finds
them, or no documents where there is no such store. -/
theorem exists_docs
    (accepted : ∀ index, reader.index = some index → ∃ terms, index.Accepted terms)
    (inOrder : ∀ index, reader.index = some index → index.InOrder) (term : Term) :
    ∃ docs : List DocId, docs.Pairwise (· < ·) ∧ docs.length < regionLimit ∧
      ∀ {α : Type} {good : α → Prop} {emptyAnswer : α}
        {next : Index → Option Store → Except Fault α},
        (docs = [] → good emptyAnswer) →
        (∀ index store, store.Ordered → store.keys = docs →
          ∃ value, next index (some store) = .ok value ∧ good value) →
        (docs = [] → ∀ index, ∃ value, next index none = .ok value ∧ good value) →
        (reader.consult emptyAnswer fun index => index.postings term >>= next index :
          Action ε α).Yields good := by
  cases isIndex : reader.index with
  | none =>
    refine ⟨[], .nil, by decide, fun degraded _ _ => ?_⟩
    rw [consult, isIndex]
    exact warn_yields.bind fun _ _ => .pure (degraded rfl)
  | some index =>
    obtain ⟨terms, holds⟩ := accepted index isIndex
    obtain ⟨answer, answered, sound⟩ := holds.postings_eq term
    cases answer with
    | none =>
      refine ⟨[], .nil, by decide, fun _ _ unlisted => ?_⟩
      obtain ⟨value, asked, isGood⟩ := unlisted rfl index
      rw [consult, isIndex]
      exact .of_checked (by rw [answered, ok_bind, asked]) isGood
    | some store =>
      have ordered := (sound store rfl).1.ordered (inOrder index isIndex term store answered)
      refine ⟨store.keys, ordered.keys_pairwise, ordered.toSound.length_keys_lt,
        fun _ listed _ => ?_⟩
      obtain ⟨value, asked, isGood⟩ := listed index store ordered rfl
      rw [consult, isIndex]
      exact .of_checked (by rw [answered, ok_bind, asked]) isGood

/-- A reader lists these documents for a term, and its two filters for the term go by them. -/
structure FiltersBy (reader : IndexReader) (ε : Type) (term : Term) (docs : List DocId) :
    Prop where
  ascending : docs.Pairwise (· < ·)
  few : docs.length < regionLimit
  documents : (reader.documents term : Action ε PostingsSource).Yields fun source =>
    ∃ after, source.rest = .ok (docs, after)
  retain : (reader.retainFilter term : Action ε Filter).Yields fun filter =>
    filter.Decides fun doc => decide (doc ∈ docs)
  reject : (reader.rejectFilter term : Action ε Filter).Yields fun filter =>
    filter.Decides fun doc => !decide (doc ∈ docs)

theorem exists_filtersBy
    (accepted : ∀ index, reader.index = some index → ∃ terms, index.Accepted terms)
    (inOrder : ∀ index, reader.index = some index → index.InOrder) (term : Term) :
    ∃ docs, reader.FiltersBy ε term docs := by
  obtain ⟨docs, ascending, few, asks⟩ := exists_docs accepted inOrder term
  have emptySource : docs = [] →
      ∃ after, (PostingsSource.empty term).rest = .ok (docs, after) := by
    rintro rfl
    exact ⟨_, rfl⟩
  have noPass : docs = [] → Filter.noPass.Decides fun doc => decide (doc ∈ docs) := by
    rintro rfl
    simpa using Filter.decides_noPass
  have letThrough : docs = [] → Filter.letThrough.Decides fun doc => !decide (doc ∈ docs) := by
    rintro rfl
    simpa using Filter.decides_letThrough
  refine ⟨docs, ascending, few, asks emptySource (fun _ store ordered isKeys => ⟨_, rfl, ?_⟩)
      fun none _ => ⟨_, rfl, emptySource none⟩,
    asks noPass (fun _ store ordered isKeys => ⟨_, rfl, ?_⟩) fun none _ => ⟨_, rfl, noPass none⟩,
    asks letThrough (fun _ store ordered isKeys => ⟨_, rfl, ?_⟩)
      fun none _ => ⟨_, rfl, letThrough none⟩⟩
  · obtain ⟨after, handed, -⟩ := (PostingsSource.counted_ofStore ordered.toSound term).rest
    exact ⟨after, isKeys ▸ handed⟩
  · exact isKeys ▸ Filter.decides_retain ordered term
  · exact isKeys ▸ Filter.decides_reject ordered term

end IndexReader

namespace Condition

variable {reader : IndexReader} {ε : Type} {documents : Term → List DocId}

mutual

/-- By induction on the condition, its filter decides what it says. -/
theorem filter_decides (goesBy : ∀ term, reader.FiltersBy ε term (documents term)) :
    ∀ condition : Condition, (condition.filter reader : Action ε Filter).Yields fun filter =>
      filter.Decides (condition.holds documents)
  | retain term => (goesBy term).retain
  | reject term => (goesBy term).reject
  | noPass => .pure Filter.decides_noPass
  | letThrough => .pure Filter.decides_letThrough
  | allOf conditions => (filters_decide goesBy conditions).bind fun _ decide =>
      .pure (holds_allOf documents conditions ▸ Filter.decides_all decide)
  | anyOf conditions => (filters_decide goesBy conditions).bind fun _ decide =>
      .pure (holds_anyOf documents conditions ▸ Filter.decides_any decide)

theorem filters_decide (goesBy : ∀ term, reader.FiltersBy ε term (documents term)) :
    ∀ conditions : List Condition, (filters reader conditions : Action ε (List Filter)).Yields
      fun filters => List.Forall₂ Filter.Decides filters (conditions.map (holds documents))
  | [] => .pure .nil
  | condition :: rest => (filter_decides goesBy condition).bind fun _ decides =>
      (filters_decide goesBy rest).bind fun _ decide => .pure (.cons decides decide)

end

end Condition

/-- The filters of a reader mean what their conditions say. Over an index in order there are
lists of documents, those that the reader gives for each term, so that the filter of every
condition accepts a document exactly when the condition holds of it by these lists, and leaves
the candidates that it accepts of every sorted list. A conjunction may run its parts in any
order and go through all of them, or stop where no candidate is left. -/
theorem filters_mean_conditions {words docs : Path} {options : ReaderOptions}
    {before opened : World} {reader : IndexReader} (ε : Type)
    (wordsMappable : before.files.Mappable words) (docsMappable : before.files.Mappable docs)
    (opens : (IndexReader.open words docs options).perform before = (.ok reader, opened))
    (inOrder : ∀ index, reader.index = some index → index.InOrder) :
    ∃ documents : Term → List DocId,
      (∀ term, (reader.documents term : Action ε PostingsSource).Yields fun source =>
        ∃ after, source.rest = .ok (documents term, after)) ∧
      (∀ condition : Condition, (condition.filter reader : Action ε Filter).Yields fun filter =>
        (∀ doc, filter.test doc = .ok (condition.holds documents doc)) ∧
          ∀ candidates : List DocId, candidates.Pairwise (· ≤ ·) →
            filter.apply candidates = .ok (candidates.filter (condition.holds documents))) ∧
      ∀ conditions : List Condition,
        (Condition.filters reader conditions : Action ε (List Filter)).Yields fun filters =>
          ∀ reordered, reordered.Perm filters →
            (∀ doc, (Filter.allOf reordered).test doc = (Filter.all filters).test doc) ∧
              ∀ candidates : List DocId, candidates.Pairwise (· ≤ ·) →
                (Filter.allOf reordered).apply candidates =
                    (Filter.all filters).apply candidates ∧
                  reordered.foldlM (fun left filter => filter.apply left) candidates =
                    (Filter.all filters).apply candidates := by
  have accepted := IndexReader.accepted_of_open wordsMappable docsMappable opens
  choose documents goesBy using fun term =>
    IndexReader.exists_filtersBy (ε := ε) accepted inOrder term
  refine ⟨documents, fun term => (goesBy term).documents, fun condition world => ?_,
    fun conditions world => ?_⟩
  · obtain ⟨filter, after, made, decides⟩ := Condition.filter_decides goesBy condition world
    exact ⟨filter, after, made, decides.test, decides.apply⟩
  · obtain ⟨filters, after, made, decide⟩ := Condition.filters_decide goesBy conditions world
    refine ⟨filters, after, made, fun reordered perm => ?_⟩
    have together := Filter.decides_all decide
    have apart := Filter.decides_allOf_of_perm decide perm
    refine ⟨fun doc => (apart.test doc).trans (together.test doc).symm,
      fun candidates ascending => ?_⟩
    rw [apart.apply candidates ascending, together.apply candidates ascending]
    obtain ⟨others, eachDecides, same⟩ := Filter.exists_decides_of_perm decide perm
    exact ⟨rfl, same ▸ Filter.foldlM_apply_eq eachDecides ascending⟩

/-! ### An index of two terms -/

/-- Two documents under one term, one of them under another term as well. -/
def twoTerms : List (Term × List Posting) := [(5, [⟨3, 1⟩, ⟨8, 2⟩]), (9, [⟨3, 4⟩])]

/-- The files of the two terms below the root. -/
def twoTermsWorld : World where
  files := {
    nodes := [(["words"], .file (wordsToBytes (wordsFile twoTerms).toList)),
      (["docs"], .file (wordsToBytes (docsFile twoTerms).toList))]
    workingDirectory := [] }
  stems := fun _ => ""
  drawn := 0
  log := []
  opened := 0
  warned := []

/-- The documents that have one of the terms 5 and 6 but not the term 9. -/
def nestedCondition : Condition :=
  .allOf [.anyOf [.retain 5, .retain 6], .allOf [.letThrough], .anyOf [.reject 9, .noPass]]

namespace twoTermsWorld

theorem words_file : twoTermsWorld.files.read (rootFile "words") =
    .ok (.file (wordsToBytes (wordsFile twoTerms).toList)) := rfl

theorem docs_file : twoTermsWorld.files.read (rootFile "docs") =
    .ok (.file (wordsToBytes (docsFile twoTerms).toList)) := rfl

theorem publishable : Publishable twoTerms where
  terms := by unfold AscendingBy; decide
  docs := by unfold AscendingBy; decide
  words_small := by decide
  docs_small := by decide

theorem mappable {path : Path} {words : Array UInt64} (small : words.size < regionLimit)
    (isFile : twoTermsWorld.files.read path = .ok (.file (wordsToBytes words.toList))) :
    twoTermsWorld.files.Mappable path :=
  FileSystem.mappable_of_words (by rwa [Array.length_toList]) isFile

/-- The reader of the two files. -/
def reader : IndexReader where
  index := some (.ofLists twoTerms ⟨.vector, 32⟩)
  wordsPath := rootFile "words"
  docsPath := rootFile "docs"
  serial := 0

theorem opens : ∃ opened, (IndexReader.open (rootFile "words") (rootFile "docs")
    ⟨.vector, 32⟩).perform twoTermsWorld = (.ok reader, opened) :=
  ⟨_, IndexReader.open_of_words words_file docs_file rfl⟩

/-- What the reader lists for a term is known from the lists in its files. -/
theorem documents_eq {term : Term} {docs : List DocId}
    (listed : (reader.documents term : Action StorageError PostingsSource).Yields fun source =>
      ∃ after, source.rest = .ok (docs, after)) :
    docs = (listFor twoTerms term).map (·.key) := by
  obtain ⟨source, after, performed, rest, handed⟩ := listed twoTermsWorld
  rw [IndexReader.documents, IndexReader.consult, reader] at performed
  dsimp only at performed
  rw [Index.documents_ofLists publishable] at performed
  cases performed
  rw [PostingsSource.rest, List.length_map, if_neg (Nat.lt_irrefl _)] at handed
  cases handed
  rfl

end twoTermsWorld

theorem filters_mean_conditions_of_two_terms :
    ∃ opened, (IndexReader.open (rootFile "words") (rootFile "docs") ⟨.vector, 32⟩).perform
        twoTermsWorld = (.ok twoTermsWorld.reader, opened) ∧
      (nestedCondition.filter twoTermsWorld.reader : Action StorageError Filter).Yields
        fun filter => filter.test 3 = .ok false ∧ filter.test 8 = .ok true ∧
          filter.apply [1, 3, 3, 8, 8, 9] = .ok [8, 8] := by
  obtain ⟨opened, opens⟩ := twoTermsWorld.opens
  have inOrder (index : Index) (isIndex : twoTermsWorld.reader.index = some index) :
      index.InOrder := by
    cases isIndex
    exact Index.inOrder_ofLists twoTermsWorld.publishable _
  obtain ⟨documents, listed, means, -⟩ := filters_mean_conditions StorageError
    (twoTermsWorld.mappable twoTermsWorld.publishable.words_small twoTermsWorld.words_file)
    (twoTermsWorld.mappable twoTermsWorld.publishable.docs_small twoTermsWorld.docs_file)
    opens inOrder
  have isLists : documents = fun term => (listFor twoTerms term).map (·.key) :=
    funext fun term => twoTermsWorld.documents_eq (listed term)
  refine ⟨opened, opens, fun world => ?_⟩
  obtain ⟨filter, after, made, tests, applies⟩ := means nestedCondition world
  subst isLists
  exact ⟨filter, after, made, tests 3, tests 8, applies [1, 3, 3, 8, 8, 9] (by decide)⟩

end InvertedIndex
