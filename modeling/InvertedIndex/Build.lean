/-
Building an index. Every shard becomes a preindex, preindexes are merged in pairs,
and the one that is left is turned into the files of the index. Shards and merges may
run in any order and side by side, so the order is an argument: a list of events, each
of which indexes a waiting shard, merges two parked preindexes, or calls the build
off. When the events are used up the rest is done in the order of the shards. A run
also records at which steps its listener was notified and what the files were then.
-/

import InvertedIndex.Journal.Shard
import InvertedIndex.Preindex
import InvertedIndex.TracedError

namespace InvertedIndex

/-- The steps of a build that a listener is told of. -/
inductive BuildStep where
  | construct
  | finalize
  | finished
  deriving Repr, DecidableEq

namespace BuildStep

/-- What is shown while a build is at a step. -/
def message : BuildStep → String
  | .construct => "Constructing and merging preindexes..."
  | .finalize => "Writing final index..."
  | .finished => "Done"

/-- How the log calls a step. -/
def name : BuildStep → String
  | .construct => "Construct"
  | .finalize => "Finalize"
  | .finished => "Finished"

end BuildStep

/-- A step that a listener was notified of, with the files at that moment. -/
structure Notice where
  step : BuildStep
  files : FileSystem

/-- What a build that did not fail came to. -/
inductive BuildOutcome where
  /-- There were no shards, and nothing was written. -/
  | noInput
  | built (report : Report)
  deriving Repr, DecidableEq

/-- What may happen while the shards are reduced to one preindex. -/
inductive BuildEvent where
  /-- The waiting shard at this place becomes a preindex. -/
  | construct (waiting : Nat)
  /-- The parked preindexes at these two places are merged. -/
  | merge (left right : Nat)
  /-- The build is called off. -/
  | abort
  deriving Repr, DecidableEq

/-- What an index is built from and where it goes. -/
structure Builder where
  docsTarget : Path
  wordsTarget : Path
  tempDirectory : Path
  source : Journal.ShardSource
  /-- The identifier in the index of each document of the shards. -/
  renumber : DocId → DocId
  backend : Backend

/-- The state of a build: the world, whether the build was called off, and the notices
given so far. -/
structure BuildRun where
  world : World
  aborted : Bool
  notices : List Notice

/-- A part of a build. -/
abbrev Building := ExceptT (Failure TracedError) (StateM BuildRun)

/-- An operation of the index as part of a build. -/
def Building.act {α : Type} (action : Action TracedError α) : Building α := fun run =>
  match action run.world with
  | (result, world) => (result, { run with world })

/-- The shards and preindexes of a reduction that is under way. -/
structure Pool where
  world : World
  aborted : Bool
  /-- The shards that no preindex has been built from. -/
  waiting : List Path
  /-- The preindexes that have been built and not merged yet. -/
  parked : List ParkedPreindex
  /-- The first failure. -/
  failure : Option (Failure TracedError)

namespace Builder

/-! ### The work on shards and preindexes -/

/-- Builds a preindex from a shard, unless the build was called off. -/
def constructShard (builder : Builder) (aborted : Bool) (shard : Path) :
    Action TracedError ParkedPreindex := do
  if aborted then Action.stop (.abortedBefore shard)
  let items ← (Action.inspect (builder.source.open shard)).during (.openShard shard)
  let preindex ← (Preindex.construct items builder.renumber builder.tempDirectory
    builder.backend).during (.indexShard shard)
  Action.log .debug (s!"Constructed preindex from {shard}: {preindex.numTerms} terms, " ++
    s!"{preindex.numPostings} postings")
  return preindex.park

/-- Merges two preindexes. Both are removed, whether or not the merge succeeds. -/
def mergePair (builder : Builder) (left right : ParkedPreindex) :
    Action TracedError ParkedPreindex := do
  let first ← (left.reopen.during .openMergeInput).cleaningUp right.discard
  let second ← (right.reopen.during .openMergeInput).cleaningUp first.discard
  let merged ← (Preindex.merge builder.tempDirectory first second).outcome
  let firstRemoved ← first.delete.outcome
  let secondRemoved ← second.delete.outcome
  let result ← (Action.ofResult merged).during .mergePreindexes
  let removal : Action StorageError Unit := do
    Action.ofResult firstRemoved
    Action.ofResult secondRemoved
  (removal.during .deleteMergeInputs).cleaningUp result.discard
  Action.log .debug s!"Merged preindex: {result.numTerms} terms"
  return result.park

/-- Turns the last preindex into the files of the index and removes it. -/
def finalizeMerged (builder : Builder) (merged : ParkedPreindex) : Action TracedError Report := do
  let preindex ← merged.reopen.during .openMerged
  let finalized ← (preindex.finalize builder.docsTarget builder.wordsTarget).outcome
  let removed ← preindex.delete.outcome
  let report ← (Action.ofResult finalized).during
    (.writeIndex builder.docsTarget builder.wordsTarget)
  (Action.ofResult removed).during .deleteMerged
  return report

/-! ### The reduction -/

/-- The pool after a waiting shard became a preindex. -/
def constructAt (builder : Builder) (pool : Pool) (place : Nat) : Pool :=
  match pool.waiting[place]? with
  | none => pool
  | some shard =>
    let waiting := pool.waiting.eraseIdx place
    match builder.constructShard pool.aborted shard pool.world with
    | (.ok preindex, world) => { pool with world, waiting, parked := pool.parked ++ [preindex] }
    | (.error failure, world) =>
      { pool with world, waiting, failure := pool.failure.or (some failure) }

/-- The pool after two of its preindexes were merged. -/
def mergeAt (builder : Builder) (pool : Pool) (left right : Nat) : Pool :=
  if left = right then pool
  else match pool.parked[left]?, pool.parked[right]? with
    | some first, some second =>
      let others := (pool.parked.eraseIdx (max left right)).eraseIdx (min left right)
      match builder.mergePair first second pool.world with
      | (.ok preindex, world) => { pool with world, parked := others ++ [preindex] }
      | (.error failure, world) =>
        { pool with world, parked := others, failure := pool.failure.or (some failure) }
    | _, _ => pool

/-- The pool after an event. An event that names a place where nothing is changes
nothing. -/
def apply (builder : Builder) (pool : Pool) : BuildEvent → Pool
  | .construct place => builder.constructAt pool place
  | .merge left right => builder.mergeAt pool left right
  | .abort => { pool with aborted := true }

/-- How much of a reduction is left. -/
def weight (pool : Pool) : Nat := 2 * pool.waiting.length + pool.parked.length

theorem weight_constructAt_lt (builder : Builder) (pool : Pool) (place : Nat)
    (present : place < pool.waiting.length) :
    weight (builder.constructAt pool place) < weight pool := by
  unfold constructAt
  rw [List.getElem?_eq_getElem present]
  dsimp only
  split <;>
  · simp only [weight, List.length_eraseIdx, if_pos present, List.length_append,
      List.length_cons, List.length_nil]
    omega

theorem weight_mergeAt_lt (builder : Builder) (pool : Pool)
    (several : 2 ≤ pool.parked.length) : weight (builder.mergeAt pool 0 1) < weight pool := by
  unfold mergeAt
  rw [if_neg (by decide), List.getElem?_eq_getElem (by omega : 0 < pool.parked.length),
    List.getElem?_eq_getElem (by omega : 1 < pool.parked.length)]
  dsimp only
  have first : 1 < pool.parked.length := by omega
  have second : 0 < pool.parked.length - 1 := by omega
  split <;>
  · simp only [weight, List.length_append, List.length_eraseIdx, Nat.max_eq_right (Nat.zero_le 1),
      Nat.min_eq_left (Nat.zero_le 1), if_pos first, if_pos second, List.length_cons,
      List.length_nil]
    omega

/-- Does what is left of a reduction. After a failure nothing more is started, and the
preindexes that are left are removed. -/
def drain (builder : Builder) (pool : Pool) :
    Except (Failure TracedError) (Option ParkedPreindex) × Pool :=
  match pool.failure with
  | some failure =>
    let world := pool.parked.foldl (fun world preindex => preindex.discard world) pool.world
    (.error failure, { pool with world, parked := [] })
  | none =>
    if waiting : 0 < pool.waiting.length then
      have := builder.weight_constructAt_lt pool 0 waiting
      builder.drain (builder.constructAt pool 0)
    else if several : 2 ≤ pool.parked.length then
      have := builder.weight_mergeAt_lt pool several
      builder.drain (builder.mergeAt pool 0 1)
    else (.ok pool.parked.head?, { pool with parked := [] })
termination_by weight pool

/-- Reduces shards to one preindex, in the order of the events. -/
def reduce (builder : Builder) (events : List BuildEvent) (shards : List Path) :
    Building (Option ParkedPreindex) := fun run =>
  let start : Pool :=
    { world := run.world, aborted := run.aborted, waiting := shards, parked := [], failure := none }
  match builder.drain (events.foldl builder.apply start) with
  | (result, pool) => (result, { run with world := pool.world, aborted := pool.aborted })

/-! ### The build -/

/-- Notifies the listener of a step; the listener may call the build off. -/
def notify (listener : BuildStep → Bool) (step : BuildStep) : Building Unit := do
  Building.act (Action.log .debug s!"Construction step {step.name}")
  modify fun run => { run with
    notices := run.notices ++ [⟨step, run.world.files⟩]
    aborted := run.aborted || listener step }

/-- Makes the directory of the temporary files and announces the work. -/
def prepare (builder : Builder) (listener : BuildStep → Bool) (shards : List Path) :
    Building Unit := do
  Building.act ((Action.makeDirectories builder.tempDirectory).filesDuring
    (.createTempDirectory builder.tempDirectory))
  notify listener .construct
  Building.act (Action.log .info s!"Constructing preindexes from {shards.length} shards")

/-- Finishes the index with the preindex that a reduction has left. The preindex is removed
when the build was called off. -/
def conclude (builder : Builder) (listener : BuildStep → Bool) (merged : ParkedPreindex) :
    Building BuildOutcome := do
  if (← get).aborted then
    Building.act (merged.delete.during .cleanUpAfterAbort)
    Building.act (Action.stop .aborted)
  notify listener .finalize
  let report ← Building.act (builder.finalizeMerged merged)
  notify listener .finished
  Building.act (Action.log .info
    s!"Finished reverse index: {report.terms} terms, {report.postings} postings")
  return .built report

/-- Builds the index of a list of shards. -/
def buildFrom (builder : Builder) (listener : BuildStep → Bool) (events : List BuildEvent)
    (shards : List Path) : Building BuildOutcome := do
  if shards.isEmpty then return .noInput
  builder.prepare listener shards
  let some merged ← builder.reduce events shards | return .noInput
  builder.conclude listener merged

/-- Builds the index of all shards in a directory. -/
def buildDirectory (builder : Builder) (listener : BuildStep → Bool) (events : List BuildEvent)
    (directory : Path) : Building BuildOutcome := do
  let shards ← Building.act ((Action.inspect (Journal.findShards directory)).during
    (.listShards directory))
  if shards.isEmpty then
    Building.act (Action.log .error s!"No journal files in base dir {directory}")
    return .noInput
  builder.buildFrom listener events shards

/-- Runs a build in a world, called off beforehand or not. -/
def run {α : Type} (building : Building α) (aborted : Bool) (world : World) :
    Except (Failure TracedError) α × BuildRun :=
  building { world, aborted, notices := [] }

end Builder

end InvertedIndex
