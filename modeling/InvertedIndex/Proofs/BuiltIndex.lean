/-
This file proves that an index answers what the shards say from which it was built. A term is
listed in a document when some entry of the document lists it, whatever shard the entry is in
and however often the term is repeated; its flags there are the disjunction of all flags that
it was given. Documents are meant by their new identifiers, and several of them may have
become one.
-/

import InvertedIndex.Proofs.Answers
import InvertedIndex.Proofs.Builds
import InvertedIndex.Proofs.Shards
import Mathlib.Data.List.Sort

namespace InvertedIndex

open FileSystem

/-! ### What the shards say -/

namespace Build

variable {build : Build}

/-- An entry of the document lists the term with these flags. -/
def Says (build : Build) (term : Term) (doc : DocId) (flags : Metadata) : Prop :=
  ∃ entry ∈ build.entries, build.builder.renumber entry.doc = doc ∧ (term, flags) ∈ entry.terms

/-- An entry of the document lists the term. -/
def Lists (build : Build) (term : Term) (doc : DocId) : Prop := ∃ flags, build.Says term doc flags

/-- The flags of a term in a document, a word for each time that an entry lists it. -/
def flagsGiven (build : Build) (term : Term) (doc : DocId) : List Metadata :=
  build.entries.flatMap fun entry =>
    if build.builder.renumber entry.doc = doc then
      (entry.terms.filter fun listed => listed.1 == term).map (·.2)
    else []

/-- These are the documents that list a term, in ascending order. -/
def ListedIn (build : Build) (term : Term) (docs : List DocId) : Prop :=
  docs.Pairwise (· < ·) ∧ ∀ doc, doc ∈ docs ↔ build.Lists term doc

theorem mem_flagsGiven {term : Term} {doc : DocId} {flags : Metadata} :
    flags ∈ build.flagsGiven term doc ↔ build.Says term doc flags := mem_flagsFrom

theorem flagsGiven_eq_nil_iff {term : Term} {doc : DocId} :
    build.flagsGiven term doc = [] ↔ ¬ build.Lists term doc := by
  rw [List.eq_nil_iff_forall_not_mem, Lists, not_exists]
  exact forall_congr' fun flags => not_congr mem_flagsGiven

/-- The listing of the shards combines the flags that were given. -/
theorem listing_eq (term : Term) (doc : DocId) :
    build.listing term doc =
      combineAll (build.flagsGiven term doc) := by
  rw [listing, Builder.listing, listingOf, flagsOf_postingsOf]
  rfl

/-- A document lists a term when the listing gives it flags. -/
theorem listing_ne_none_iff {term : Term} {doc : DocId} :
    build.listing term doc ≠ none ↔ build.Lists term doc := by
  rw [listing_eq, combineAll_eq]
  by_cases nothing : build.flagsGiven term doc = []
  · rw [if_pos nothing]
    exact ⟨fun absurdity => absurd rfl absurdity,
      fun listed => absurd listed (flagsGiven_eq_nil_iff.mp nothing)⟩
  · rw [if_neg nothing]
    exact ⟨fun _ => not_not.mp (mt flagsGiven_eq_nil_iff.mpr nothing), fun _ => nofun⟩

/-- The flags in the listing are the disjunction of those that were given. -/
theorem listing_getD (term : Term) (doc : DocId) :
    (build.listing term doc).getD 0 =
      (build.flagsGiven term doc).foldl (· ||| ·) 0 := by
  rw [listing_eq, combineAll_eq]
  by_cases nothing : build.flagsGiven term doc = []
  · rw [if_pos nothing, nothing]
    rfl
  · rw [if_neg nothing]
    rfl

/-! ### The lists of the shards -/

theorem flagsIn_listFor (term : Term) (doc : DocId) :
    flagsIn (listFor build.lists term) doc =
      build.listing term doc := by
  rw [← build.lists_denotes.flags, flagsAt, listFor]
  cases lookupBy Prod.fst build.lists term <;> rfl

/-- The list of a term holds the documents that list it. -/
theorem listedIn_listFor (build : Build) (term : Term) :
    build.ListedIn term ((listFor build.lists term).map (·.key)) := by
  constructor
  · rw [listFor]
    cases found : lookupBy Prod.fst build.lists term with
    | none => exact .nil
    | some list => exact build.lists_denotes.docs list (keyOf_of_lookupBy found).1
  · intro doc
    rw [← listing_ne_none_iff, ← flagsIn_listFor, Ne, flagsIn_eq_none_iff, List.mem_map]
    simp only [not_forall, not_not, exists_prop]

/-- The documents that list a term are determined. -/
theorem ListedIn.unique {term : Term} {first second : List DocId}
    (isFirst : build.ListedIn term first) (isSecond : build.ListedIn term second) :
    first = second :=
  isFirst.1.eq_of_mem_iff isSecond.1 fun doc => (isFirst.2 doc).trans (isSecond.2 doc).symm

/-- The terms of the lists with the sizes of their lists. -/
theorem mem_counts_iff {term : Term} {count : Nat} :
    (term, count) ∈ build.lists.map (fun list => (list.1, list.2.length)) ↔
      ∃ docs, docs ≠ [] ∧ build.ListedIn term docs ∧ count = docs.length := by
  have denotes := build.lists_denotes
  rw [List.mem_map]
  constructor
  · rintro ⟨list, member, same⟩
    cases same
    have isList : listFor build.lists list.1 = list.2 := by
      rw [listFor, lookupBy_of_mem denotes.terms member]
      rfl
    have listed := isList ▸ build.listedIn_listFor list.1
    exact ⟨_, fun empty => denotes.inhabited list member (List.map_eq_nil_iff.mp empty), listed,
      (List.length_map _).symm⟩
  · rintro ⟨docs, inhabited, listed, rfl⟩
    have isDocs := listed.unique (build.listedIn_listFor term)
    rw [listFor] at isDocs
    cases found : lookupBy Prod.fst build.lists term with
    | none =>
      rw [found] at isDocs
      exact absurd isDocs inhabited
    | some list =>
      obtain ⟨member, isTerm⟩ := keyOf_of_lookupBy found
      rw [found] at isDocs
      refine ⟨list, member, Prod.ext isTerm ?_⟩
      rw [isDocs]
      exact (List.length_map _).symm

/-- The terms of the lists are those that are listed in some document. -/
theorem mem_terms_iff {term : Term} :
    term ∈ build.lists.map Prod.fst ↔ ∃ doc, build.Lists term doc := by
  rw [List.mem_map]
  constructor
  · rintro ⟨list, member, rfl⟩
    obtain ⟨docs, inhabited, listed, -⟩ := mem_counts_iff.mp (List.mem_map_of_mem member)
    obtain ⟨doc, isThere⟩ := List.exists_mem_of_ne_nil _ inhabited
    exact ⟨doc, (listed.2 doc).mp isThere⟩
  · rintro ⟨doc, isListed⟩
    have listed := build.listedIn_listFor term
    have inhabited := List.ne_nil_of_mem ((listed.2 doc).mpr isListed)
    obtain ⟨list, member, same⟩ := List.mem_map.mp (mem_counts_iff.mpr ⟨_, inhabited, listed, rfl⟩)
    exact ⟨list, member, congrArg Prod.fst same⟩

end Build

/-! ### Readers of the built index -/

namespace IndexReader

/-- The answers of a reader are what the shards of a build say. -/
structure Reflects (reader : IndexReader) (build : Build) (ε : Type) : Prop where
  ready : reader.isReady = true
  documents : ∀ term, (reader.documents term : Action ε PostingsSource).Yields fun source =>
    ∃ docs, build.ListedIn term docs ∧ source.term = term ∧ source.remaining = docs.length ∧
      source.rest = .ok (docs, .empty term)
  numDocuments : ∀ term, (reader.numDocuments term : Action ε Nat).Yields fun count =>
    ∃ docs, build.ListedIn term docs ∧ count = docs.length
  metadata : ∀ term (docs : List DocId), docs.Pairwise (· < ·) →
    (reader.metadata term docs : Action ε (List Metadata)).Yields fun flags =>
      flags = docs.map fun doc => (build.flagsGiven term doc).foldl (· ||| ·) 0
  numTerms : (reader.numTerms : Action ε Nat).Yields fun count =>
    ∃ terms : List Term, terms.Pairwise (· < ·) ∧
      (∀ term, term ∈ terms ↔ ∃ doc, build.Lists term doc) ∧ count = terms.length
  termCounts : (reader.termCounts : Action ε (List (Term × Nat))).Yields fun counts =>
    (counts.map (·.1)).Pairwise (· < ·) ∧ ∀ term count, (term, count) ∈ counts ↔
      ∃ docs, docs ≠ [] ∧ build.ListedIn term docs ∧ count = docs.length

variable {lists : List (Term × List Posting)} {docsTarget wordsTarget : Path}
  {docsPlace wordsPlace : Location} {before : FileSystem} {options : ReaderOptions}

/-- Files of lists are read as the index of these lists. -/
theorem open_of_reads {words docs : Path} {world : World} (publishable : Publishable lists)
    (wordsRead : world.files.read words = .ok (.file (Region.toBytes (wordsFile lists))))
    (docsRead : world.files.read docs = .ok (.file (Region.toBytes (docsFile lists))))
    (options : ReaderOptions) :
    ∃ reader opened, (IndexReader.open words docs options).perform world = (.ok reader, opened) ∧
      reader.index = some (Index.ofLists lists options) :=
  ⟨_, _, open_of_words wordsRead docsRead
    ((Index.check_eq_ok_iff words publishable.words_small publishable.docs_small).mpr
      ⟨_, Index.accepted_ofLists options publishable⟩), rfl⟩

/-- So they are where they were published. -/
theorem open_of_published (options : ReaderOptions) (publishable : Publishable lists)
    {world : World}
    (published : Preindex.Published docsTarget wordsTarget docsPlace wordsPlace lists before
      world.files) :
    ∃ reader opened, (IndexReader.open wordsTarget docsTarget options).perform world =
      (.ok reader, opened) ∧ reader.index = some (Index.ofLists lists options) :=
  open_of_reads publishable published.words_read published.docs_read options

variable {ε α : Type} {reader : IndexReader} {build : Build}

/-- A reader that is ready yields what its index answers. -/
theorem consult_yields_of_ready {index : Index} {emptyAnswer value : α}
    {ask : Index → Except Fault α} {good : α → Prop} (ready : reader.index = some index)
    (asked : ask index = .ok value) (isGood : good value) :
    (reader.consult emptyAnswer ask : Action ε α).Yields good := by
  rw [consult, ready]
  exact .of_checked asked isGood

/-- The index of the lists of all shards answers what the shards say. -/
theorem reflects_of_ofLists (publishable : Publishable build.lists)
    (ready : reader.index = some (Index.ofLists build.lists options)) :
    reader.Reflects build ε where
  ready := by rw [isReady, ready]; rfl
  documents term := by
    refine consult_yields_of_ready ready (Index.documents_ofLists publishable term) ?_
    refine ⟨_, build.listedIn_listFor term, rfl, (List.length_map _).symm, ?_⟩
    rw [PostingsSource.rest, List.length_map, if_neg (Nat.lt_irrefl _), Nat.sub_self]
    rfl
  numDocuments term := by
    refine consult_yields_of_ready ready (Index.numDocuments_ofLists publishable term) ?_
    exact ⟨_, build.listedIn_listFor term, (List.length_map _).symm⟩
  metadata term docs ascending := by
    rw [metadata, strictlyAscending_iff.mpr ascending, if_neg (by decide)]
    refine consult_yields_of_ready ready
      (Index.metadata_ofLists publishable term ascending) (List.map_congr_left fun doc _ => ?_)
    rw [Build.flagsIn_listFor, Build.listing_getD]
  numTerms := by
    refine consult_yields_of_ready ready (Index.accepted_ofLists options publishable).numTerms_eq ?_
    exact ⟨build.lists.map Prod.fst, publishable.terms, fun term => Build.mem_terms_iff,
      (List.length_map _).symm⟩
  termCounts := by
    refine consult_yields_of_ready ready (Index.termCounts_ofLists publishable) ⟨?_, ?_⟩
    · rw [List.map_map]
      exact publishable.terms
    · exact fun term count => Build.mem_counts_iff

end IndexReader

/-! ### Building and reading -/

/-- An index answers what the shards say from which it was built. A build that is not called
off ends with an index that every reader can open, whatever its backend and its way to look up
batches: it is ready and every answer is what the entries say. The one other end is that the
system refused an operation on files, which it cannot while it is willing, its names lead to
free places and the targets can be written. -/
theorem built_index_reflects_shards (build : Build) (ε : Type) (wellPosed : build.WellPosed)
    (goesOn : ¬ build.MayStop) :
    (build.Refused ∧ ¬ build.Unhindered) ∨
      ((∃ report, build.result = .ok (.built report)) ∧
        ∀ options, ∃ reader opened,
          (IndexReader.open build.builder.wordsTarget build.builder.docsTarget options).perform
            build.finish = (.ok reader, opened) ∧ reader.Reflects build ε) := by
  rcases wellPosed.outcome with ⟨stopped, -⟩ | refused | done
  · exact absurd stopped goesOn
  · exact .inl refused
  · obtain ⟨docsPlace, wordsPlace, published⟩ := done.published
    refine .inr ⟨⟨_, done.result⟩, fun options => ?_⟩
    obtain ⟨reader, opened, performed, ready⟩ :=
      IndexReader.open_of_published options wellPosed.publishable published
    exact ⟨reader, opened, performed, IndexReader.reflects_of_ofLists wellPosed.publishable ready⟩

/-! ### A build of two files -/

/-- Two documents that become one when they are renumbered, with a term that both list. -/
def firstShard : List Entry := [⟨7, 0, [(5, 1), (9, 2)]⟩, ⟨3, 0, [(5, 4), (5, 8)]⟩]

/-- A document without terms, and one that the other shard has as well. -/
def secondShard : List Entry := [⟨6, 0, []⟩, ⟨7, 0, [(5, 16)]⟩]

/-- A build from two files below the root. -/
def twoShardBuild : Build where
  builder := {
    docsTarget := rootFile "docs"
    wordsTarget := rootFile "words"
    tempDirectory := Path.ofText "/"
    source := .files
    renumber := fun doc => doc % 4
    backend := .vector }
  listener := fun _ => false
  events := [.construct 1, .construct 0, .merge 1 0]
  shards := [rootFile "first", rootFile "second"]
  contents := fun path => if path = rootFile "first" then firstShard else secondShard
  aborted := false
  start := {
    files := {
      nodes := [(["first"], .file (Journal.Writer.finish ⟨firstShard.reverse⟩).2),
        (["second"], .file (Journal.Writer.finish ⟨secondShard.reverse⟩).2)]
      workingDirectory := [] }
    stems := fun draw => toString draw
    drawn := 0
    log := []
    opened := 0
    warned := [] }

namespace twoShardBuild

theorem prepared_eq : twoShardBuild.prepared = twoShardBuild.start :=
  Build.prepared_eq_start (by decide)

/-- The temporary files that are made of one name below the root. -/
def rootTemporaries (stem : String) : List Path :=
  (PreindexFiles.mk (Path.ofText "/") ("preindex-" ++ stem)).all ++
    [(Path.ofText "/").child (".tmp" ++ stem), (Path.ofText "/").child (".tmp" ++ stem)]

theorem temporaries_eq : twoShardBuild.temporaries = rootTemporaries := by
  funext stem
  rw [Build.temporaries, prepared_eq]
  rfl

theorem plain_docs : ¬ Build.Temporary "docs" := Build.plain_of_head (by decide) (by decide)

theorem plain_words : ¬ Build.Temporary "words" := Build.plain_of_head (by decide) (by decide)

theorem holds_first : twoShardBuild.start.files.HoldsShard (rootFile "first") firstShard := by
  refine ⟨["first"], _, _, ?_, rfl, rfl, ?_⟩
  · exact ⟨rfl, rfl, rfl, nofun, rfl, rfl, by decide⟩
  · rw [Journal.Reader.items_of_next rfl, Journal.Reader.items_of_next rfl,
      Journal.Reader.items_of_end rfl]
    rfl

theorem holds_second : twoShardBuild.start.files.HoldsShard (rootFile "second") secondShard := by
  refine ⟨["second"], _, _, ?_, rfl, rfl, ?_⟩
  · exact ⟨rfl, rfl, rfl, nofun, rfl, rfl, by decide⟩
  · rw [Journal.Reader.items_of_next rfl, Journal.Reader.items_of_next rfl,
      Journal.Reader.items_of_end rfl]
    rfl

theorem wellPosed : twoShardBuild.WellPosed where
  nonempty := nofun
  reads := by
    rw [prepared_eq]
    refine Builder.reads_of_files rfl fun shard member => ?_
    rcases List.mem_pair.mp member with rfl | rfl
    · exact holds_first
    · exact holds_second
  separate := Build.separate_of_plain (fun location docs words => by
    have same := docs.last.trans words.last.symm
    revert same
    decide) rfl rfl plain_docs plain_words
  words_small := (Build.files_small (by decide)).1
  docs_small := (Build.files_small (by decide)).2

theorem stems_drawn (draw : Nat) :
    twoShardBuild.start.stems (twoShardBuild.start.drawn + draw) = toString draw :=
  congrArg toString (Nat.zero_add draw)

/-- The system refuses nothing, and it has seven good names. -/
theorem supplied : Supplied twoShardBuild.temporaries 7 twoShardBuild.start where
  willing _ _ := rfl
  free := by
    have created : ∀ draw < 7, ∀ path ∈ rootTemporaries (toString draw),
        (twoShardBuild.start.files.createNew path []).isOk = true := by decide +kernel
    intro draw below path member
    rw [stems_drawn, temporaries_eq] at member
    exact free_of_createNew (created draw below path member)
  apart := by
    have differ : ∀ first < 7, ∀ second < 7, ∀ path ∈ rootTemporaries (toString first),
        ∀ other ∈ rootTemporaries (toString second),
        path.steps.getLast? = other.steps.getLast? → first = second := by decide +kernel
    intro first second firstBelow secondBelow apart path member other otherMember location names
      otherNames
    rw [stems_drawn, temporaries_eq] at member otherMember
    exact apart (differ first firstBelow second secondBelow path member other otherMember
      (names.last.trans otherNames.last.symm))

theorem unhindered : twoShardBuild.Unhindered where
  made := by rw [makeDirectories_of_isDirectory (by decide)]
  supplied := prepared_eq ▸ supplied.of_le (by decide)
  docs := prepared_eq ▸ ⟨["docs"], ⟨rfl, rfl, rfl, nofun, rfl, rfl, by decide⟩, by decide⟩
  words := prepared_eq ▸ ⟨["words"], ⟨rfl, rfl, rfl, nofun, rfl, rfl, by decide⟩, by decide⟩

end twoShardBuild

/-- The index of the two files lists the three documents as one, with all their flags. -/
theorem built_index_reflects_two_shards :
    (∃ report, twoShardBuild.result = .ok (.built report)) ∧
      (∀ options, ∃ reader opened, (IndexReader.open (rootFile "words") (rootFile "docs")
        options).perform twoShardBuild.finish = (.ok reader, opened) ∧
          reader.Reflects twoShardBuild StorageError) ∧
      twoShardBuild.flagsGiven 5 3 = [1, 4, 8, 16] := by
  rcases built_index_reflects_shards twoShardBuild StorageError twoShardBuild.wellPosed
    (by rintro (called | called | called) <;> revert called <;> decide) with
    ⟨-, hindered⟩ | ⟨built, reflects⟩
  · exact absurd twoShardBuild.unhindered hindered
  · exact ⟨built, reflects, rfl⟩

end InvertedIndex
