/-
This file proves that a degraded reader stands in for the reader of an index without terms. It
has no data at all and gives the empty answers itself, whereas the other one looks every term
up in an empty directory; nobody who asks them the same questions can tell them apart. Only the
log can: the first question to the degraded reader leaves a warning there. The files may appear
while it is asked, but it does not look at them again.
-/

import InvertedIndex.Proofs.BuiltIndex
import InvertedIndex.Proofs.HandleRuns

namespace InvertedIndex

/-! ### Questions without an answer -/

namespace ReaderQuery

/-- A question about terms that may be asked: the documents that metadata is asked for are
strictly ascending. -/
def Proper : ReaderQuery → Prop
  | .metadata _ docs => docs.Pairwise (· < ·)
  | .sizeBytes => False
  | _ => True

/-- The answer to a question when no term is indexed. -/
def emptyAnswer : (query : ReaderQuery) → query.Answer
  | .documents term => PostingsSource.empty term
  | .numDocuments _ => (0 : Nat)
  | .retainFilter _ => Filter.noPass
  | .rejectFilter _ => Filter.letThrough
  | .metadata _ docs => docs.map fun _ => (0 : Metadata)
  | .numTerms => (0 : Nat)
  | .termCounts => ([] : List (Term × Nat))
  | .sizeBytes => ((0, 0) : Nat × Nat)

end ReaderQuery

/-- A filter that passes every document or none, at no cost. -/
structure Filter.PassesAll (filter : Filter) (passes : Bool) (text : String) : Prop where
  test : ∀ doc, filter.test doc = .ok passes
  apply : ∀ candidates, filter.apply candidates = .ok (if passes then candidates else [])
  cost : filter.cost = .entries 0
  describe : filter.describe = text

/-- What a question is answered with when no term is indexed, by what can be seen of the answer:
a source that hands out nothing, filters that pass nothing or everything, and zeros. -/
def ReaderQuery.Vacuous : (query : ReaderQuery) → query.Answer → Prop
  | .documents term, (source : PostingsSource) =>
    source.term = term ∧ source.hasMore = false ∧ source.next = .ok (none, source) ∧
      ∀ limit, source.read limit = (0, [], source)
  | .numDocuments _, count => count = (0 : Nat)
  | .retainFilter _, filter => Filter.PassesAll filter false "NoPass"
  | .rejectFilter _, filter => Filter.PassesAll filter true "LetThrough"
  | .metadata _ docs, flags => flags = docs.map fun _ => (0 : Metadata)
  | .numTerms, count => count = (0 : Nat)
  | .termCounts, counts => counts = ([] : List (Term × Nat))
  | .sizeBytes, sizes => sizes = ((0, 0) : Nat × Nat)

theorem Filter.noPass_passesAll : noPass.PassesAll false "NoPass" where
  test _ := by rw [test]; rfl
  apply _ := by rw [apply]; rfl
  cost := by rw [cost]
  describe := by rw [describe]

theorem Filter.letThrough_passesAll : letThrough.PassesAll true "LetThrough" where
  test _ := by rw [test]; rfl
  apply _ := by rw [apply]; rfl
  cost := by rw [cost]
  describe := by rw [describe]

theorem ReaderQuery.vacuous_emptyAnswer (query : ReaderQuery) :
    query.Vacuous query.emptyAnswer := by
  cases query with
  | documents term =>
    refine ⟨rfl, rfl, rfl, fun limit => ?_⟩
    show PostingsSource.read (.empty term) limit = _
    rw [PostingsSource.read, show min limit (PostingsSource.empty term).remaining = 0 from
      Nat.min_zero limit]
    rfl
  | retainFilter term => exact Filter.noPass_passesAll
  | rejectFilter term => exact Filter.letThrough_passesAll
  | numDocuments | metadata | numTerms | termCounts | sizeBytes => rfl

/-! ### One question -/

/-- The line that a degraded reader leaves in the log. -/
def notReadyLine : LogLine := ⟨.warn, "Reverse index is not ready, dropping queries"⟩

namespace IndexReader

variable {ε : Type} {reader : IndexReader} {query : ReaderQuery}

/-- The world once a degraded reader has warned. -/
def warnedIn (reader : IndexReader) (world : World) : World :=
  if reader.serial ∈ world.warned then world
  else { world with
    log := world.log ++ [notReadyLine]
    warned := reader.serial :: world.warned }

theorem warn_perform (reader : IndexReader) (world : World) :
    (reader.warn : Action ε Unit).perform world = (.ok (), reader.warnedIn world) := by
  rw [Action.perform, warn, bind_apply, warnedIn]
  show (ite _ _ _ : Action ε Unit) world = _
  by_cases already : reader.serial ∈ world.warned
  · rw [if_pos already, if_neg (by simpa using already)]
    rfl
  · rw [if_neg already, if_pos (by simpa using already)]
    rfl

/-- Without an index a question comes to its empty answer, after the warning. -/
theorem consult_of_degraded {α : Type} (degraded : reader.index = none) (emptyAnswer : α)
    (ask : Index → Except Fault α) (world : World) :
    (reader.consult emptyAnswer ask : Action ε α).perform world =
      (.ok emptyAnswer, reader.warnedIn world) := by
  have warned := reader.warn_perform (ε := ε) world
  rw [Action.perform] at warned
  rw [Action.perform, consult, degraded]
  show ((reader.warn : Action ε Unit) >>= fun _ => pure emptyAnswer) world = _
  rw [bind_apply, warned]
  rfl

/-- A degraded reader warns and gives the empty answer. -/
theorem ask_of_degraded (degraded : reader.index = none) (proper : query.Proper)
    (world : World) :
    (reader.ask query : Action ε query.Answer).perform world =
      (.ok query.emptyAnswer, reader.warnedIn world) := by
  cases query with
  | metadata term docs =>
    show (reader.metadata term docs : Action ε (List Metadata)).perform world = _
    rw [metadata, strictlyAscending_iff.mpr proper]
    exact consult_of_degraded degraded _ _ world
  | sizeBytes => exact proper.elim
  | documents | numDocuments | retainFilter | rejectFilter | numTerms | termCounts =>
    exact consult_of_degraded degraded _ _ world

/-- No term has postings in an index without terms. -/
theorem postings_of_termless {index : Index} (accepted : index.Accepted 0) (term : Term) :
    index.postings term = .ok none := by
  obtain ⟨found, located, inside⟩ := accepted.directory_sound.find_eq term
  cases found with
  | none => exact accepted.postings_of_absent located
  | some entry => exact absurd (inside entry rfl) (Nat.not_lt_zero entry)

/-- The reader of an index without terms comes to the same answer, and leaves the world as it
is. -/
theorem ask_of_termless {index : Index} (ready : reader.index = some index)
    (accepted : index.Accepted 0) (proper : query.Proper) (world : World) :
    (reader.ask query : Action ε query.Answer).perform world = (.ok query.emptyAnswer, world) := by
  have consults {α : Type} {emptyAnswer answer : α} {ask : Index → Except Fault α}
      (asked : ask index = .ok answer) :
      (reader.consult emptyAnswer ask : Action ε α).perform world = (.ok answer, world) := by
    rw [consult, ready]
    dsimp only
    rw [asked]
    rfl
  have nothing := postings_of_termless accepted
  cases query with
  | documents term => exact consults (by rw [Index.documents, nothing]; rfl)
  | numDocuments term => exact consults (by rw [Index.numDocuments, nothing]; rfl)
  | retainFilter term => exact consults (by rw [Index.retainFilter, nothing]; rfl)
  | rejectFilter term => exact consults (by rw [Index.rejectFilter, nothing]; rfl)
  | metadata term docs =>
    show (reader.metadata term docs : Action ε (List Metadata)).perform world = _
    rw [metadata, strictlyAscending_iff.mpr proper]
    exact consults (by rw [Index.metadata, nothing]; rfl)
  | numTerms => exact consults accepted.numTerms_eq
  | termCounts => exact consults (by rw [Index.termCounts, accepted.directory_eq]; rfl)
  | sizeBytes => exact proper.elim

end IndexReader

/-! ### Questions one after the other -/

/-- Something that happens while a reader is in use. -/
inductive ReaderEvent where
  | ask (query : ReaderQuery)
  /-- Someone adds, replaces or removes files. -/
  | replaceFiles (files : FileSystem)

/-- The questions among the events. -/
def questions (events : List ReaderEvent) : List ReaderQuery :=
  events.filterMap fun
    | .ask query => some query
    | .replaceFiles _ => none

/-- A question and what it was answered with. -/
abbrev Exchange := (query : ReaderQuery) × Except (Failure TracedError) query.Answer

/-- The world that a reader is used in, and what it was asked there so far. -/
structure ReaderSession where
  world : World
  exchanges : List Exchange

namespace IndexReader

/-- What one event comes to. -/
def proceed (reader : IndexReader) (session : ReaderSession) : ReaderEvent → ReaderSession
  | .ask query =>
    match (reader.ask query).perform session.world with
    | (answer, world) => { world, exchanges := session.exchanges ++ [⟨query, answer⟩] }
  | .replaceFiles files => { session with world := { session.world with files } }

/-- What the events come to from a world in which nothing has been asked. -/
def session (reader : IndexReader) (world : World) (events : List ReaderEvent) : ReaderSession :=
  events.foldl reader.proceed { world, exchanges := [] }

variable {reader : IndexReader} {start : World}

theorem session_concat (events : List ReaderEvent) (event : ReaderEvent) :
    reader.session start (events ++ [event]) =
      reader.proceed (reader.session start events) event := List.foldl_concat ..

@[simp] theorem questions_ask (events : List ReaderEvent) (query : ReaderQuery) :
    questions (events ++ [.ask query]) = questions events ++ [query] := by
  rw [questions, List.filterMap_append]
  rfl

@[simp] theorem questions_replaceFiles (events : List ReaderEvent) (files : FileSystem) :
    questions (events ++ [.replaceFiles files]) = questions events := by
  rw [questions, List.filterMap_append]
  exact List.append_nil _

/-- A reader that gives every question the empty answer does so in a whole session, and what
each question and each replacement of files preserves holds at the end. -/
theorem session_of_asks (leaves : World → World) (holds : List ReaderQuery → World → Prop)
    (asks : ∀ query : ReaderQuery, query.Proper → ∀ world,
      (reader.ask query : Action TracedError query.Answer).perform world =
        (.ok query.emptyAnswer, leaves world))
    (initially : holds [] start)
    (asked : ∀ queries query world, holds queries world → holds (queries ++ [query]) (leaves world))
    (replaced : ∀ queries files world, holds queries world → holds queries { world with files })
    (events : List ReaderEvent) (proper : ∀ query ∈ questions events, query.Proper) :
    (reader.session start events).exchanges =
        (questions events).map (fun query => ⟨query, .ok query.emptyAnswer⟩) ∧
      holds (questions events) (reader.session start events).world := by
  induction events using List.reverseRecOn with
  | nil => exact ⟨rfl, initially⟩
  | append_singleton events event inductionHypothesis =>
    rw [session_concat]
    cases event with
    | replaceFiles files =>
      rw [questions_replaceFiles] at proper ⊢
      obtain ⟨exchanges, held⟩ := inductionHypothesis proper
      exact ⟨exchanges, replaced _ files _ held⟩
    | ask query =>
      rw [questions_ask] at proper ⊢
      obtain ⟨exchanges, held⟩ := inductionHypothesis fun other member =>
        proper other (List.mem_append_left _ member)
      have isProper := proper query (List.mem_append_right _ List.mem_cons_self)
      rw [proceed, asks query isProper, exchanges, List.map_append]
      exact ⟨rfl, asked _ query _ held⟩

/-- The mark that the reader has warned tells whether its line is in the log. -/
structure WarnedFor (reader : IndexReader) (start : World) (queries : List ReaderQuery)
    (world : World) : Prop where
  warned : reader.serial ∈ world.warned ↔ queries ≠ []
  log : world.log = start.log ++ if queries = [] then [] else [notReadyLine]

/-- Only the first question adds a line. -/
theorem WarnedFor.ask {queries : List ReaderQuery} {world : World}
    (before : reader.WarnedFor start queries world) (query : ReaderQuery) :
    reader.WarnedFor start (queries ++ [query]) (reader.warnedIn world) := by
  have asked : queries ++ [query] ≠ [] := by simp
  have log := before.log
  rw [warnedIn]
  by_cases isFirst : queries = []
  · rw [if_neg (mt before.warned.mp (not_not_intro isFirst))]
    rw [if_pos isFirst, List.append_nil] at log
    exact ⟨iff_of_true List.mem_cons_self asked, by rw [if_neg asked, log]⟩
  · rw [if_pos (before.warned.mpr isFirst)]
    rw [if_neg isFirst] at log
    exact ⟨iff_of_true (before.warned.mpr isFirst) asked, by rw [if_neg asked, log]⟩

/-- A degraded reader warns when it is asked for the first time. -/
theorem session_of_degraded (degraded : reader.index = none)
    (silent : reader.serial ∉ start.warned) (events : List ReaderEvent)
    (proper : ∀ query ∈ questions events, query.Proper) :
    (reader.session start events).exchanges =
        (questions events).map (fun query => ⟨query, .ok query.emptyAnswer⟩) ∧
      (reader.session start events).world.log =
        start.log ++ if questions events = [] then [] else [notReadyLine] := by
  obtain ⟨exchanges, warnedFor⟩ := session_of_asks reader.warnedIn (reader.WarnedFor start)
    (fun _ proper world => ask_of_degraded degraded proper world)
    ⟨iff_of_false silent (not_not_intro rfl), (List.append_nil _).symm⟩
    (fun _ query _ before => before.ask query)
    (fun _ _ _ before => ⟨before.warned, before.log⟩) events proper
  exact ⟨exchanges, warnedFor.log⟩

/-- The reader of an index without terms never warns. -/
theorem session_of_termless {index : Index} (ready : reader.index = some index)
    (accepted : index.Accepted 0) (events : List ReaderEvent)
    (proper : ∀ query ∈ questions events, query.Proper) :
    (reader.session start events).exchanges =
        (questions events).map (fun query => ⟨query, .ok query.emptyAnswer⟩) ∧
      (reader.session start events).world.log = start.log :=
  session_of_asks id (fun _ world => world.log = start.log)
    (fun _ proper world => ask_of_termless ready accepted proper world) rfl
    (fun _ _ _ held => held) (fun _ _ _ held => held) events proper

end IndexReader

/-! ### Readers that were opened -/

/-- Only readers that were opened have warned. -/
def World.OpenedWarned (world : World) : Prop := ∀ serial ∈ world.warned, serial < world.opened

namespace IndexReader

/-- Opening a reader keeps it that way. -/
theorem openedWarned_open {world : World} (known : world.OpenedWarned) (words docs : Path)
    (options : ReaderOptions) :
    ((IndexReader.open words docs options).perform world).2.OpenedWarned := by
  rw [Action.perform, IndexReader.open, bind_apply]
  show ((ite _ _ _ : Action StorageError IndexReader) world).2.OpenedWarned
  have later : ∀ serial ∈ world.warned, serial < world.opened + 1 := fun serial warned =>
    Nat.lt_succ_of_lt (known serial warned)
  split
  · exact later
  · cases load words docs options world.files with
    | error failure => exact known
    | ok index => exact later

/-- So does a question to a reader that was opened. -/
theorem openedWarned_ask {ε : Type} {world : World} (known : world.OpenedWarned)
    {reader : IndexReader} (opened : reader.serial < world.opened) (query : ReaderQuery) :
    ((reader.ask query : Action ε query.Answer).perform world).2.OpenedWarned := by
  have warnedIn : (reader.warnedIn world).OpenedWarned := by
    rw [IndexReader.warnedIn]
    split
    · exact known
    · exact List.forall_mem_cons.mpr ⟨opened, known⟩
  have consults {α : Type} (emptyAnswer : α) (ask : Index → Except Fault α) :
      ((reader.consult emptyAnswer ask : Action ε α).perform world).2.OpenedWarned := by
    cases isIndex : reader.index with
    | none =>
      rw [consult_of_degraded isIndex]
      exact warnedIn
    | some index =>
      rw [consult, isIndex]
      exact known
  cases query with
  | metadata term docs =>
    show ((reader.metadata term docs : Action ε (List Metadata)).perform world).2.OpenedWarned
    rw [metadata]
    split
    · exact known
    · exact consults _ _
  | sizeBytes => exact known
  | documents | numDocuments | retainFilter | rejectFilter | numTerms | termCounts =>
    exact consults _ _

/-- Without one of the files a reader is opened that has not warned. -/
theorem open_of_missing {words docs : Path} {world : World} (known : world.OpenedWarned)
    (missing : world.files.exists? words = false ∨ world.files.exists? docs = false)
    (options : ReaderOptions) :
    ∃ reader opened, (IndexReader.open words docs options).perform world = (.ok reader, opened) ∧
      reader.index = none ∧ reader.serial ∉ opened.warned ∧
      opened.log = world.log ++ [⟨.info,
        s!"Reverse index files not present ({words}, {docs}), starting degraded"⟩] := by
  have absent : (!world.files.exists? words || !world.files.exists? docs) = true := by
    rcases missing with missing | missing <;> rw [missing] <;> simp
  have silent : world.opened ∉ world.warned := fun warned => Nat.lt_irrefl _ (known _ warned)
  rw [Action.perform, IndexReader.open, bind_apply]
  show ∃ reader opened, (ite _ _ _ : Action StorageError IndexReader) world = _ ∧ _
  rw [if_pos absent]
  exact ⟨_, _, rfl, rfl, silent, rfl⟩

end IndexReader

/-- A build of entries without terms has no lists. -/
theorem Build.lists_of_termless {build : Build}
    (termless : ∀ entry ∈ build.entries, entry.terms = []) : build.lists = [] := by
  rw [List.eq_nil_iff_forall_not_mem]
  intro list member
  obtain ⟨doc, flags, entry, isEntry, -, listed⟩ :=
    Build.mem_terms_iff.mp (List.mem_map_of_mem member)
  rw [termless entry isEntry] at listed
  cases listed

/-- A build that reports an index has put it under its targets. -/
theorem Build.WellPosed.done_of_built {build : Build} (wellPosed : build.WellPosed)
    {report : Report} (isBuilt : build.result = .ok (.built report)) : build.Done := by
  rcases wellPosed.outcome with ⟨-, notBuilt⟩ | ⟨⟨_, _, _, refused, -⟩, -⟩ | done
  · exact absurd isBuilt (notBuilt report)
  · rw [refused] at isBuilt
    cases isBuilt
  · exact done

/-- A degraded reader is an empty index with one warning. Wherever one of the two files is missing
a reader is opened that is not ready. Whatever it is asked, in whatever order and however the
files change meanwhile, it gives the answers of the reader of an index that was built from entries
without terms; they say that no term is listed anywhere. The first question, and no other one,
leaves a warning in the log. -/
theorem degraded_reader_is_empty_index {words docs : Path} {options : ReaderOptions}
    {world : World} (known : world.OpenedWarned)
    (missing : world.files.exists? words = false ∨ world.files.exists? docs = false)
    {build : Build} (wellPosed : build.WellPosed)
    (termless : ∀ entry ∈ build.entries, entry.terms = []) {report : Report}
    (isBuilt : build.result = .ok (.built report)) (readyOptions : ReaderOptions) :
    ∃ degraded opened ready readyOpened,
      (IndexReader.open words docs options).perform world = (.ok degraded, opened) ∧
      degraded.isReady = false ∧
      opened.log = world.log ++ [⟨.info,
        s!"Reverse index files not present ({words}, {docs}), starting degraded"⟩] ∧
      (IndexReader.open build.builder.wordsTarget build.builder.docsTarget
        readyOptions).perform build.finish = (.ok ready, readyOpened) ∧
      ready.isReady = true ∧
      ∀ events, (∀ query ∈ questions events, query.Proper) →
        (degraded.session opened events).exchanges =
          (ready.session readyOpened events).exchanges ∧
        (∀ exchange ∈ (degraded.session opened events).exchanges,
          ∃ answer, exchange.2 = .ok answer ∧ exchange.1.Vacuous answer) ∧
        (degraded.session opened events).exchanges.map Sigma.fst = questions events ∧
        (degraded.session opened events).world.log =
          opened.log ++ (if questions events = [] then [] else [notReadyLine]) ∧
        (ready.session readyOpened events).world.log = readyOpened.log := by
  have isEmpty := Build.lists_of_termless termless
  obtain ⟨docsPlace, wordsPlace, published⟩ := (wellPosed.done_of_built isBuilt).published
  obtain ⟨ready, readyOpened, opens, isIndex⟩ :=
    IndexReader.open_of_published readyOptions wellPosed.publishable published
  have accepted := Index.accepted_ofLists readyOptions wellPosed.publishable
  rw [isEmpty] at isIndex accepted
  obtain ⟨degraded, opened, performed, isNone, silent, openedLog⟩ :=
    IndexReader.open_of_missing known missing options
  refine ⟨degraded, opened, ready, readyOpened, performed, by rw [IndexReader.isReady, isNone]; rfl,
    openedLog, opens, by rw [IndexReader.isReady, isIndex]; rfl, fun events proper => ?_⟩
  obtain ⟨exchanges, log⟩ := IndexReader.session_of_degraded isNone silent events proper
  obtain ⟨readyExchanges, readyLog⟩ :=
    IndexReader.session_of_termless isIndex accepted events proper
  refine ⟨exchanges.trans readyExchanges.symm, fun exchange member => ?_, ?_, log, readyLog⟩
  · rw [exchanges] at member
    obtain ⟨query, -, rfl⟩ := List.mem_map.mp member
    exact ⟨_, rfl, query.vacuous_emptyAnswer⟩
  · rw [exchanges, List.map_map]
    exact List.map_id _

/-! ### A build of a document without terms -/

/-- A document without terms. -/
def termlessEntries : List Entry := [⟨6, 0, []⟩]

/-- The build of a shard that is kept in memory and has no terms. -/
def termlessBuild : Build := { twoShardBuild with
  builder := { twoShardBuild.builder with source := .memory [("/first", termlessEntries)] }
  events := []
  shards := [rootFile "first"]
  contents := fun _ => termlessEntries }

namespace termlessBuild

theorem prepared_eq : termlessBuild.prepared = twoShardBuild.start :=
  Build.prepared_eq_start (by decide)

theorem temporaries_eq : termlessBuild.temporaries = twoShardBuild.temporaries := by
  rw [twoShardBuild.temporaries_eq]
  funext stem
  rw [Build.temporaries, prepared_eq]
  rfl

theorem wellPosed : termlessBuild.WellPosed where
  nonempty := nofun
  reads later _ shard member := by
    obtain rfl := List.mem_singleton.mp member
    rfl
  separate := by
    rw [temporaries_eq, prepared_eq, ← twoShardBuild.prepared_eq]
    exact twoShardBuild.wellPosed.separate
  words_small := (Build.files_small (by decide)).1
  docs_small := (Build.files_small (by decide)).2

theorem unhindered : termlessBuild.Unhindered where
  made := twoShardBuild.unhindered.made
  supplied := by
    rw [temporaries_eq, prepared_eq]
    exact twoShardBuild.supplied.of_le (by decide)
  docs := by
    rw [prepared_eq, ← twoShardBuild.prepared_eq]
    exact twoShardBuild.unhindered.docs
  words := by
    rw [prepared_eq, ← twoShardBuild.prepared_eq]
    exact twoShardBuild.unhindered.words

theorem isBuilt : termlessBuild.result = .ok (.built (Preindex.reportOf termlessBuild.lists)) := by
  rcases wellPosed.outcome with ⟨stops, -⟩ | ⟨-, hindered⟩ | done
  · rcases stops with called | called | called <;> revert called <;> decide
  · exact absurd unhindered hindered
  · exact done.result

/-- The files of the index appear between two questions. -/
def lateFiles : List ReaderEvent :=
  [.ask (.documents 5), .replaceFiles termlessBuild.finish.files, .ask (.metadata 5 [6, 7])]

end termlessBuild

/-- Where there are no files yet the degraded reader answers as the reader of the build, also when
the files have appeared. It warns once. -/
theorem degraded_reader_is_index_of_termless_build :
    ∃ degraded opened ready readyOpened,
      (IndexReader.open (rootFile "words") (rootFile "docs") ⟨.scalar, 32⟩).perform
        twoShardBuild.start = (.ok degraded, opened) ∧
      (IndexReader.open (rootFile "words") (rootFile "docs") ⟨.vector, 1⟩).perform
        termlessBuild.finish = (.ok ready, readyOpened) ∧
      (degraded.session opened termlessBuild.lateFiles).exchanges =
        (ready.session readyOpened termlessBuild.lateFiles).exchanges ∧
      (degraded.session opened termlessBuild.lateFiles).world.log =
        [⟨.info, "Reverse index files not present (/words, /docs), starting degraded"⟩,
          notReadyLine] := by
  obtain ⟨degraded, opened, ready, readyOpened, performed, -, openedLog, opens, -, same⟩ :=
    @degraded_reader_is_empty_index (rootFile "words") (rootFile "docs") ⟨.scalar, 32⟩
      twoShardBuild.start nofun (.inl rfl) termlessBuild termlessBuild.wellPosed (by decide)
      _ termlessBuild.isBuilt ⟨.vector, 1⟩
  obtain ⟨exchanges, -, -, log, -⟩ := same termlessBuild.lateFiles (by
    intro query member
    rcases List.mem_pair.mp member with rfl | rfl
    · trivial
    · show List.Pairwise _ _
      decide)
  refine ⟨degraded, opened, ready, readyOpened, performed, opens, exchanges, ?_⟩
  rw [log, openedLog]
  rfl

end InvertedIndex
