/-
This file proves that a query prints a set expression. The documents of a term are read and
filtered in batches, each batch is narrowed by filters that run in an order of their costs, and
the lines are cut off where the limit is reached. None of this shows in what is printed: it is
the first part of one list, of the documents of the term that are documents of certain terms and
not of certain others.
-/

import InvertedIndex.Command.Run
import InvertedIndex.Proofs.FilterAlgebra
import InvertedIndex.Proofs.FinishedBuilds

namespace InvertedIndex

open FileSystem

/-! ### Batches -/

/-- By induction on what is left of the source, the batches that were narrowed are one after the
other the documents that pass, and the limit is reached after as many of them as without
batches. -/
theorem queryDocuments_eq {filter : Filter} {accepts : DocId → Bool}
    (decides : filter.Decides accepts) (limit : Nat) {source : PostingsSource}
    (counted : source.docs.length ≤ source.remaining)
    (ascending : source.docs.Pairwise (· ≤ ·)) :
    queryDocuments filter limit source = .ok ((source.docs.filter accepts).take limit) := by
  fun_induction queryDocuments filter limit source with
  | case1 limit source more inductionHypothesis =>
    have batch : (source.read queryBatch).2.1 =
      source.docs.take (min queryBatch source.remaining) := rfl
    have left : (source.read queryBatch).2.2.docs =
      source.docs.drop (min queryBatch source.remaining) := rfl
    have remaining : (source.read queryBatch).2.2.remaining =
      source.remaining - min queryBatch source.remaining := rfl
    rw [batch, decides.apply _ (ascending.sublist (List.take_sublist _ _)), ok_bind]
    dsimp only
    rw [inductionHypothesis _ (by rw [left, remaining, List.length_drop]; omega)
      (left ▸ ascending.sublist (List.drop_sublist _ _)), ok_bind, left]
    conv =>
      right
      rw [← List.take_append_drop (min queryBatch source.remaining) source.docs,
        List.filter_append, List.take_append]
    have cut (shown : Nat) : limit - min limit shown = limit - shown := by omega
    rw [List.length_take, cut]
    rfl
  | case2 limit source done =>
    have nothing : limit = 0 ∨ source.docs = [] := by
      rw [← List.length_eq_zero_iff]
      omega
    rcases nothing with rfl | empty
    · rw [List.take_zero]
      rfl
    · rw [empty, List.filter_nil, List.take_nil]
      rfl

/-- What a source hands out are its documents, and it has counted at least as many. -/
theorem PostingsSource.docs_of_rest {source after : PostingsSource} {docs : List DocId}
    (handed : source.rest = .ok (docs, after)) :
    source.docs = docs ∧ docs.length ≤ source.remaining := by
  rw [rest] at handed
  split at handed
  · cases handed
  · rename_i enough
    obtain ⟨rfl, -⟩ := Prod.mk.inj (Except.ok.inj handed)
    exact ⟨rfl, Nat.le_of_not_lt enough⟩

/-! ### The filter of a query -/

/-- Whether a document is listed by all of the terms `also` and by none of the terms `never`. -/
def passesAll (documents : Term → List DocId) (also never : List Term) (doc : DocId) : Bool :=
  (also.all fun other => (documents other).contains doc) &&
    never.all fun other => !(documents other).contains doc

theorem passesAll_iff {documents : Term → List DocId} {also never : List Term} {doc : DocId} :
    passesAll documents also never doc = true ↔
      (∀ other ∈ also, doc ∈ documents other) ∧ ∀ other ∈ never, doc ∉ documents other := by
  simp [passesAll]

/-- Operations that each yield a good value yield a good value for each input. -/
theorem Action.Yields.mapM {ε α β : Type} {operation : β → Action ε α} {good : α → β → Prop}
    (yields : ∀ input, (operation input).Yields fun value => good value input)
    (inputs : List β) :
    (inputs.mapM operation).Yields fun values => List.Forall₂ good values inputs := by
  induction inputs with
  | nil => exact .pure .nil
  | cons input rest inductionHypothesis =>
    rw [List.mapM_cons]
    exact (yields input).bind fun value isGood => inductionHypothesis.bind fun values areGood =>
      .pure (.cons isGood areGood)

namespace IndexReader

variable {reader : IndexReader} {ε : Type} {documents : Term → List DocId}

/-- A document passes the filter of a query when it is among the documents of each of the terms
`also` and of none of the terms `never`. -/
theorem queryFilter_decides (goesBy : ∀ term, reader.FiltersBy ε term (documents term))
    (also never : List Term) :
    (reader.queryFilter also never : Action ε Filter).Yields fun filter =>
      filter.Decides (passesAll documents also never) := by
  refine (Action.Yields.mapM (fun term => (goesBy term).retain) also).bind fun retained retains =>
    (Action.Yields.mapM (fun term => (goesBy term).reject) never).bind fun rejected rejects =>
      .pure ?_
  have decides := Filter.decides_all (List.rel_append
    (List.forall₂_map_right_iff.mpr retains) (List.forall₂_map_right_iff.mpr rejects))
  convert decides using 2 with doc
  rw [Bool.eq_iff_iff, passesAll_iff]
  simp

end IndexReader

/-! ### What is printed -/

namespace Command

/-- A request goes on from what its operation has left behind. -/
theorem act_bind_of_value {α β : Type} {action : Action TracedError α} {next : α → Running β}
    {console : Console} {value : α} {world : World}
    (performed : action.perform console.world = (.ok value, world)) :
    (act action >>= next) console = next value { console with world } := by
  rw [Action.perform] at performed
  rw [bind_apply, act, performed]

/-- A query prints the first of the documents that are asked for, as many as the limit says. -/
theorem printDocuments_eq {reader : IndexReader} {documents : Term → List DocId}
    (goesBy : ∀ term, reader.FiltersBy TracedError term (documents term)) (term : Term)
    (also never : List Term) (limit : Nat) (console : Console) :
    ∃ world, printDocuments reader term also never limit console =
      (.ok (), {
        world
        printed := console.printed ++
          (((documents term).filter (passesAll documents also never)).take limit).map
            documentLine }) := by
  obtain ⟨filter, filtered, isFilter, decides⟩ :=
    IndexReader.queryFilter_decides goesBy also never console.world
  obtain ⟨source, sourced, isSource, after, handed⟩ := (goesBy term).documents
    { filtered with
      log := filtered.log ++ [⟨.info, s!"Query {term} filtered by {filter.describe}"⟩] }
  obtain ⟨isDocs, counted⟩ := PostingsSource.docs_of_rest handed
  have computed := queryDocuments_eq decides limit (isDocs ▸ counted)
    (isDocs ▸ (goesBy term).ascending.imp Nat.le_of_lt)
  have logged : (Action.log .info s!"Query {term} filtered by {filter.describe}" :
      Action TracedError Unit).perform filtered = (.ok (), { filtered with
        log := filtered.log ++ [⟨.info, s!"Query {term} filtered by {filter.describe}"⟩] }) := rfl
  rw [isDocs] at computed
  refine ⟨sourced, ?_⟩
  rw [printDocuments, act_bind_of_value isFilter, act_bind_of_value logged,
    act_bind_of_value isSource, computed]
  rfl

end Command

/-- A query prints a set expression. For every reader of an index that a build has written there
are lists of documents, those that it hands out for each term, so that every query on it ends
well and prints, in ascending order and without repeats, the documents of the term that are
documents of all the terms `also` and of none of the terms `never`: the first of them up to the
limit, or all of them when there is none. -/
theorem query_prints_set_expression {build : Build} {report : Report} {words docs : Path}
    {options : ReaderOptions} {before opened : World} {reader : IndexReader}
    (built : build.result = .ok (.built report))
    (isWords : before.files.read words = build.finish.files.read build.builder.wordsTarget)
    (isDocs : before.files.read docs = build.finish.files.read build.builder.docsTarget)
    (wordsMappable : before.files.Mappable words) (docsMappable : before.files.Mappable docs)
    (opens : (IndexReader.open words docs options).perform before = (.ok reader, opened)) :
    ∃ documents : Term → List DocId,
      (∀ term, (reader.documents term : Action TracedError PostingsSource).Yields fun source =>
        ∃ after, source.rest = .ok (documents term, after)) ∧
      ∀ (term : Term) (also never : List Term) (limit : Option Nat), ∃ kept : List DocId,
        kept.Pairwise (· < ·) ∧
        (∀ doc, doc ∈ kept ↔ doc ∈ documents term ∧
          (∀ other ∈ also, doc ∈ documents other) ∧ ∀ other ∈ never, doc ∉ documents other) ∧
        ∀ console : Command.Console, ∃ after,
          Command.printDocuments reader term also never (limit.getD (wordLimit - 1)) console =
            (.ok (), after) ∧
          after.printed =
            console.printed ++ (limit.elim kept kept.take).map Command.documentLine := by
  have accepted := IndexReader.accepted_of_open wordsMappable docsMappable opens
  have inOrder (index : Index) (isIndex : reader.index = some index) : index.InOrder :=
    Build.inOrder_of_open built isWords isDocs wordsMappable docsMappable opens isIndex
  choose documents goesBy using fun term =>
    IndexReader.exists_filtersBy (ε := TracedError) accepted inOrder term
  refine ⟨documents, fun term => (goesBy term).documents, fun term also never limit =>
    ⟨(documents term).filter (passesAll documents also never),
      (goesBy term).ascending.filter _, fun doc => ?_, fun console => ?_⟩⟩
  · rw [List.mem_filter, passesAll_iff]
  obtain ⟨world, printed⟩ := Command.printDocuments_eq goesBy term also never
    (limit.getD (wordLimit - 1)) console
  refine ⟨_, printed, ?_⟩
  cases limit with
  | some limit => rfl
  | none =>
    -- There are not as many documents as the largest limit.
    have few := (goesBy term).few
    have room : regionLimit < wordLimit := by decide
    rw [Option.getD_none, List.take_of_length_le]
    · rfl
    · exact (List.length_filter_le _ _).trans (by omega)

/-! ### A query on two shards -/

namespace twoShardBuild

theorem done : twoShardBuild.Done := by
  rcases wellPosed.outcome with ⟨mayStop, -⟩ | ⟨-, hindered⟩ | done
  · exfalso
    rcases mayStop with called | called | called <;> revert called <;> decide
  · exact absurd unhindered hindered
  · exact done

/-- All entries with terms are of one document, and its terms are 5 and 9. -/
theorem lists_iff {term : Term} {doc : DocId} :
    twoShardBuild.Lists term doc ↔ doc = 3 ∧ (term = 5 ∨ term = 9) := by
  have entries : twoShardBuild.entries = firstShard ++ secondShard := rfl
  have renumbered : twoShardBuild.builder.renumber 7 = 3 := rfl
  have kept : twoShardBuild.builder.renumber 3 = 3 := rfl
  simp only [Build.Lists, Build.Says, entries, firstShard, secondShard, List.cons_append,
    List.nil_append, List.mem_cons]
  simp only [exists_eq_or_imp, renumbered, kept]
  constructor
  · grind
  · rintro ⟨rfl, rfl | rfl⟩
    · exact ⟨1, by simp⟩
    · exact ⟨2, by simp⟩

end twoShardBuild

/-- The document has the term 9, however often this is asked, and it does not have the term 6. -/
theorem query_prints_set_expression_of_two_shards :
    ∃ reader opened, (IndexReader.open (rootFile "words") (rootFile "docs") ⟨.vector, 32⟩).perform
        twoShardBuild.finish = (.ok reader, opened) ∧
      ∀ console : Command.Console, ∃ after,
        Command.printDocuments reader 5 [9, 9] [6] (wordLimit - 1) console = (.ok (), after) ∧
          after.printed = console.printed ++ ["3\t0:3"] := by
  have publishable := twoShardBuild.wellPosed.publishable
  obtain ⟨docsPlace, wordsPlace, published⟩ := twoShardBuild.done.published
  obtain ⟨reader, opened, opens, ready⟩ :=
    IndexReader.open_of_published ⟨.vector, 32⟩ publishable published
  obtain ⟨documents, listed, prints⟩ := query_prints_set_expression twoShardBuild.done.result
    rfl rfl
    (FileSystem.mappable_of_words (by rw [Array.length_toList]; exact publishable.words_small)
      (by rw [published.words_names.read_eq, published.words_file]; rfl))
    (FileSystem.mappable_of_words (by rw [Array.length_toList]; exact publishable.docs_small)
      (by rw [published.docs_names.read_eq, published.docs_file]; rfl)) opens
  have isListed (term : Term) : twoShardBuild.ListedIn term (documents term) := by
    obtain ⟨source, after, performed, rest, handed⟩ := listed term twoShardBuild.start
    have answered := IndexReader.reflects_of_ofLists (ε := TracedError) publishable ready
    obtain ⟨other, later, again, docs, isDocs, -, -, isRest⟩ :=
      answered.documents term twoShardBuild.start
    cases performed.symm.trans again
    cases handed.symm.trans isRest
    exact isDocs
  obtain ⟨kept, ascending, members, printed⟩ := prints 5 [9, 9] [6] none
  have isKept : kept = [3] := by
    refine ascending.eq_of_mem_iff (List.pairwise_singleton _ _) fun doc => ?_
    simp [members, (isListed _).2, twoShardBuild.lists_iff]
  subst isKept
  exact ⟨reader, opened, opens, printed⟩

end InvertedIndex
