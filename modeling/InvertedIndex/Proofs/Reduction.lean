/-
This file proves that the order of a reduction does not matter. Whatever the events, the
preindexes that are set aside and the shards that are waiting together make up all shards,
and each preindex holds the lists of the shards that went into it. An event keeps this
invariant, and so does each step of what is done once the events are used up, so what is
left in the end is one preindex with the lists of all shards.
-/

import InvertedIndex.Proofs.Parcels
import Mathlib.Data.List.Perm.Basic

namespace InvertedIndex

open FileSystem

/-! ### Shards -/

/-- The directories and files of one file system are also in the other. -/
structure FileSystem.KeptIn (before after : FileSystem) : Prop where
  directories : SameDirectories before after
  files : ∀ location contents, before.lookup location = some (.file contents) →
    after.lookup location = some (.file contents)

/-- What a build has added leaves everything as it was. -/
theorem Holding.keptIn {paths : String → List Path} {draws : Nat} {clear : Prop}
    {parcels : List Parcel} {start world : World}
    (holding : Holding paths draws clear parcels start world) :
    start.files.KeptIn world.files where
  directories := holding.directories
  files location contents isFile := by
    rw [holding.elsewhere location fun member => ?_, isFile]
    rw [holding.fresh location member] at isFile
    cases isFile

namespace Builder

variable (builder : Builder) (contents : Path → List Entry)

/-- Each shard can be read and holds these entries as long as the files stay. -/
def Reads (shards : List Path) (files : FileSystem) : Prop :=
  ∀ later, files.KeptIn later → ∀ shard ∈ shards,
    builder.source.open shard later = .ok ((contents shard).map .ok)

/-- What some shards say. -/
def listing (shards : List Path) : Listing :=
  listingOf (postingsOf (shards.flatMap contents) builder.renumber)

/-- The lists of some shards. -/
def lists (shards : List Path) : List (Term × List Posting) :=
  Preindex.listsOf (shards.flatMap contents) builder.renumber builder.backend

theorem lists_denotes (shards : List Path) :
    Denotes (builder.lists contents shards) (builder.listing contents shards) :=
  listsOf_denotes _ _ _

theorem listing_append (left right : List Path) :
    builder.listing contents (left ++ right) =
      (builder.listing contents left).both (builder.listing contents right) := by
  rw [listing, List.flatMap_append, postingsOf, List.flatMap_append, listingOf_append]
  rfl

theorem listing_perm {left right : List Path} (same : left.Perm right) :
    builder.listing contents left = builder.listing contents right :=
  listingOf_perm ((same.flatMap_right contents).flatMap_right _)

variable {builder contents}

/-- The lists of some of the shards have no more postings than those of all of them. -/
theorem countPostings_le {shards part rest : List Path} {lists : List (Term × List Posting)}
    (denotes : Denotes lists (builder.listing contents part))
    (covered : (part ++ rest).Perm shards) :
    countPostings lists ≤ countPostings (builder.lists contents shards) := by
  have whole := builder.lists_denotes contents shards
  rw [← builder.listing_perm contents covered, listing_append] at whole
  rw [whole.unique (denotes.unite (builder.lists_denotes contents rest))]
  exact (countPostings_le_uniteTerms _ _).1

/-! ### What a pool holds -/

/-- Parcels with the shards that went into them, and the pool that they are parked in. -/
structure Reducing (builder : Builder) (contents : Path → List Entry) (shards : List Path)
    (paths : String → List Path) (clear : Prop) (start : World)
    (portions : List (Parcel × List Path)) (pool : Pool) : Prop where
  failure : pool.failure = none
  aborted : pool.aborted = false
  parked : pool.parked = portions.map fun portion => ⟨portion.1.files⟩
  denotes : ∀ portion ∈ portions, Denotes portion.1.lists (builder.listing contents portion.2)
  covered : (portions.flatMap (·.2) ++ pool.waiting).Perm shards
  holding : Holding paths (weight pool + 1) clear (portions.map (·.1)) start pool.world

/-- A reduction is under way, or it has failed because the system refused an operation, or
it was called off. -/
def UnderWay (builder : Builder) (contents : Path → List Entry) (shards : List Path)
    (paths : String → List Path) (clear : Prop) (start : World) (pool : Pool) : Prop :=
  (∃ portions, Reducing builder contents shards paths clear start portions pool) ∨
    (∃ failure, pool.failure = some failure ∧ Obstructed clear failure) ∨ pool.aborted = true

/-- Two elements at different places in front of the others. -/
theorem perm_eraseIdx_two {Element : Type} {elements : List Element} {first second : Nat}
    (different : first ≠ second) (firstInside : first < elements.length)
    (secondInside : second < elements.length) :
    (elements[first] :: elements[second] ::
      (elements.eraseIdx (max first second)).eraseIdx (min first second)).Perm elements := by
  -- The place further back is erased first, so the place before it stays where it is.
  have ordered {low high : Nat} (before : low < high) (inside : high < elements.length) :
      (elements[low] :: elements[high] :: (elements.eraseIdx high).eraseIdx low).Perm elements := by
    have shorter : low < (elements.eraseIdx high).length := by
      rw [List.length_eraseIdx_of_lt inside]
      omega
    have low_eq : (elements.eraseIdx high)[low] = elements[low] :=
      List.getElem_eraseIdx_of_lt shorter before
    have inner := List.getElem_cons_eraseIdx_perm shorter
    rw [low_eq] at inner
    exact (List.Perm.swap _ _ _).trans
      ((inner.cons elements[high]).trans (List.getElem_cons_eraseIdx_perm inside))
  rcases Nat.lt_or_gt_of_ne different with before | after
  · rw [Nat.max_eq_right (Nat.le_of_lt before), Nat.min_eq_left (Nat.le_of_lt before)]
    exact ordered before secondInside
  · rw [Nat.max_eq_left (Nat.le_of_lt after), Nat.min_eq_right (Nat.le_of_lt after)]
    exact (List.Perm.swap _ _ _).trans (ordered after firstInside)

/-- A reduction that has come to this pool ends with its first failure and lets go of the
preindexes, or there is nothing more to do and it ends with the preindex that is left. -/
inductive Drained (reached : Pool) :
    Except (Failure TracedError) (Option ParkedPreindex) × Pool → Prop
  | failed {failure : Failure TracedError} (isFirst : reached.failure = some failure) :
    Drained reached (.error failure, { reached with
      world := reached.parked.foldl (fun world preindex => preindex.discard world) reached.world
      parked := [] })
  | done (none_failed : reached.failure = none) (none_waiting : reached.waiting = [])
    (few : reached.parked.length < 2) :
    Drained reached (.ok reached.parked.head?, { reached with parked := [] })

/-- What indexing a shard can do to a pool. -/
theorem constructAt_cases (builder : Builder) (pool : Pool) (place : Nat) :
    builder.constructAt pool place = pool ∨
      ∃ shard waiting, (shard :: waiting).Perm pool.waiting ∧
        ((∃ parked after, (builder.constructShard pool.aborted shard).perform pool.world =
            (.ok parked, after) ∧ builder.constructAt pool place =
              { pool with world := after, waiting, parked := pool.parked ++ [parked] }) ∨
          ∃ failure after, (builder.constructShard pool.aborted shard).perform pool.world =
            (.error failure, after) ∧ builder.constructAt pool place =
              { pool with
                world := after, waiting, failure := pool.failure.or (some failure) }) := by
  unfold Builder.constructAt
  cases isShard : pool.waiting[place]? with
  | none => exact .inl rfl
  | some shard =>
    obtain ⟨inside, rfl⟩ := List.getElem?_eq_some_iff.mp isShard
    refine .inr ⟨_, _, List.getElem_cons_eraseIdx_perm inside, ?_⟩
    dsimp only
    rcases performed : (builder.constructShard pool.aborted pool.waiting[place]).perform
      pool.world with ⟨failure | parked, after⟩ <;> rw [Action.perform] at performed
    · exact .inr ⟨failure, after, rfl, by rw [performed]⟩
    · exact .inl ⟨parked, after, rfl, by rw [performed]⟩

/-- What merging can do to a pool, where the parked preindexes belong to these elements. -/
theorem mergeAt_cases {Element : Type} (builder : Builder) {pool : Pool}
    {elements : List Element} {preindexOf : Element → ParkedPreindex}
    (parked : pool.parked = elements.map preindexOf) (left right : Nat) :
    builder.mergeAt pool left right = pool ∨
      ∃ first second others, (first :: second :: others).Perm elements ∧
        ((∃ merged after, (builder.mergePair (preindexOf first) (preindexOf second)).perform
            pool.world = (.ok merged, after) ∧ builder.mergeAt pool left right =
              { pool with world := after, parked := others.map preindexOf ++ [merged] }) ∨
          ∃ failure after, (builder.mergePair (preindexOf first) (preindexOf second)).perform
            pool.world = (.error failure, after) ∧ builder.mergeAt pool left right =
              { pool with
                world := after
                parked := others.map preindexOf
                failure := pool.failure.or (some failure) }) := by
  unfold Builder.mergeAt
  by_cases same : left = right
  · exact .inl (if_pos same)
  rw [if_neg same]
  cases isLeft : pool.parked[left]? with
  | none => exact .inl rfl
  | some leftParked =>
    cases isRight : pool.parked[right]? with
    | none => exact .inl rfl
    | some rightParked =>
      rw [parked, List.getElem?_map, Option.map_eq_some_iff] at isLeft isRight
      obtain ⟨first, isFirst, rfl⟩ := isLeft
      obtain ⟨second, isSecond, rfl⟩ := isRight
      obtain ⟨firstInside, rfl⟩ := List.getElem?_eq_some_iff.mp isFirst
      obtain ⟨secondInside, rfl⟩ := List.getElem?_eq_some_iff.mp isSecond
      refine .inr ⟨_, _, _, perm_eraseIdx_two same firstInside secondInside, ?_⟩
      dsimp only
      rw [parked, List.eraseIdx_map, List.eraseIdx_map]
      rcases performed : (builder.mergePair (preindexOf elements[left])
        (preindexOf elements[right])).perform pool.world with ⟨failure | merged, after⟩ <;>
        rw [Action.perform] at performed
      · exact .inr ⟨failure, after, rfl, by rw [performed]⟩
      · exact .inl ⟨merged, after, rfl, by rw [performed]⟩

section

variable (holds : Pool → Prop) {pool : Pool} (start : holds pool)
  (constructs : ∀ pool place, holds pool → holds (builder.constructAt pool place))
  (merges : ∀ pool left right, holds pool → holds (builder.mergeAt pool left right))

include start constructs merges

/-- What each event keeps holds after any list of them. -/
theorem run_induction {events : List BuildEvent}
    (aborts : .abort ∈ events → ∀ pool, holds pool → holds { pool with aborted := true }) :
    holds (events.foldl builder.apply pool) := by
  induction events generalizing pool with
  | nil => exact start
  | cons event rest inductionHypothesis =>
    rw [List.foldl_cons]
    refine inductionHypothesis ?_ fun member => aborts (List.mem_cons_of_mem _ member)
    cases event with
    | construct place => exact constructs pool place start
    | merge left right => exact merges pool left right start
    | abort => exact aborts List.mem_cons_self pool start

/-- It also holds of the pool in which nothing more is to be done. -/
theorem drain_induction : ∃ reached, holds reached ∧ Drained reached (builder.drain pool) := by
  fun_induction Builder.drain builder pool with
  | case1 pool failure failed => exact ⟨pool, start, .failed failed⟩
  | case2 pool _ _ _ inductionHypothesis => exact inductionHypothesis (constructs pool 0 start)
  | case3 pool _ _ _ _ inductionHypothesis => exact inductionHypothesis (merges pool 0 1 start)
  | case4 pool none_failed none_waiting few =>
    exact ⟨pool, start, .done none_failed (List.eq_nil_of_length_eq_zero (by omega)) (by omega)⟩

end

section

variable {shards : List Path} {paths : String → List Path} {clear : Prop} {start : World}
  {portions : List (Parcel × List Path)} {pool : Pool}

/-- A shard becomes a portion of its own. -/
theorem Reducing.construct {shard : Path} {waiting : List Path}
    (within : PreindexFiles.Within paths builder.tempDirectory start.files)
    (small : 2 * countPostings (builder.lists contents shards) < wordLimit)
    (reducing : Reducing builder contents shards paths clear start portions pool)
    (picked : (shard :: waiting).Perm pool.waiting)
    (opened : builder.source.open shard pool.world.files = .ok ((contents shard).map .ok)) :
    (builder.constructShard pool.aborted shard).Ends pool.world
      (fun failure _ => Obstructed clear failure) fun parked after =>
      ∃ portions, Reducing builder contents shards paths clear start portions
        { pool with world := after, waiting, parked := pool.parked ++ [parked] } := by
  have covered : (shard :: (portions.flatMap (·.2) ++ waiting)).Perm shards :=
    List.perm_middle.symm.trans ((picked.append_left _).trans reducing.covered)
  have denotes : Denotes (Preindex.listsOf (contents shard) builder.renumber builder.backend)
      (builder.listing contents [shard]) := by
    have denotes := builder.lists_denotes contents [shard]
    rwa [lists, List.flatMap_singleton] at denotes
  have bounded := countPostings_le denotes
    (show ([shard] ++ (portions.flatMap (·.2) ++ waiting)).Perm shards from covered)
  have constructed := constructShard_ends reducing.holding within opened (by omega)
  rw [← reducing.aborted] at constructed
  refine constructed.weaken ?_
  rintro _ after ⟨parcel, rfl, isLists, holding⟩
  have lighter : weight pool = weight { pool with
      world := after, waiting, parked := pool.parked ++ [⟨parcel.files⟩] } + 1 := by
    have longer := picked.length_eq
    simp only [weight, List.length_append, List.length_cons, List.length_nil] at longer ⊢
    omega
  refine ⟨portions ++ [(parcel, [shard])], {
    failure := reducing.failure
    aborted := reducing.aborted
    parked := by rw [reducing.parked, List.map_append]; rfl
    denotes := fun portion member => ?_
    covered := ?_
    holding := ?_ }⟩
  · rcases List.mem_append.mp member with old | new
    · exact reducing.denotes portion old
    · rw [List.mem_singleton.mp new, isLists]
      exact denotes
  · rw [List.flatMap_append, List.append_assoc]
    exact List.perm_middle.trans covered
  · rw [← lighter, List.map_append]
    exact holding.perm (List.perm_append_singleton _ _).symm

/-- A failure that the system caused is the first one of a reduction that went on so far. -/
theorem Reducing.obstructed {failure : Failure TracedError} {after : Pool}
    (reducing : Reducing builder contents shards paths clear start portions pool)
    (failed : after.failure = pool.failure.or (some failure)) (blocked : Obstructed clear failure) :
    UnderWay builder contents shards paths clear start after := by
  rw [reducing.failure, Option.none_or] at failed
  exact .inr (.inl ⟨failure, failed, blocked⟩)

theorem Reducing.constructAt (reads : builder.Reads contents shards start.files)
    (within : PreindexFiles.Within paths builder.tempDirectory start.files)
    (small : 2 * countPostings (builder.lists contents shards) < wordLimit)
    (reducing : Reducing builder contents shards paths clear start portions pool) (place : Nat) :
    UnderWay builder contents shards paths clear start (builder.constructAt pool place) := by
  rcases constructAt_cases builder pool place with same | ⟨shard, waiting, picked, ended⟩
  · rw [same]
    exact .inl ⟨portions, reducing⟩
  have member : shard ∈ shards := reducing.covered.mem_iff.mp
    (List.mem_append_right _ (picked.mem_iff.mp List.mem_cons_self))
  have constructed := reducing.construct within small picked
    (reads _ reducing.holding.keptIn shard member)
  rcases ended with ⟨parked, after, performed, isAfter⟩ | ⟨failure, after, performed, isAfter⟩
  · rw [isAfter]
    exact .inl (constructed.of_perform_ok performed)
  · rw [isAfter]
    exact reducing.obstructed rfl (constructed.of_perform_error performed)

/-- Two portions become one with the shards of both. -/
theorem Reducing.merge {first second : Parcel × List Path} {others : List (Parcel × List Path)}
    (within : PreindexFiles.Within paths builder.tempDirectory start.files)
    (small : 2 * countPostings (builder.lists contents shards) < wordLimit)
    (reducing : Reducing builder contents shards paths clear start portions pool)
    (picked : (first :: second :: others).Perm portions) :
    (builder.mergePair ⟨first.1.files⟩ ⟨second.1.files⟩).Ends pool.world
      (fun failure _ => Obstructed clear failure) fun parked after =>
      ∃ portions, Reducing builder contents shards paths clear start portions { pool with
        world := after
        parked := others.map (fun portion => ⟨portion.1.files⟩) ++ [parked] } := by
  have firstDenotes := reducing.denotes first (picked.mem_iff.mp List.mem_cons_self)
  have secondDenotes := reducing.denotes second
    (picked.mem_iff.mp (List.mem_cons_of_mem _ List.mem_cons_self))
  have united := firstDenotes.unite secondDenotes
  rw [← listing_append] at united
  have covered : ((first.2 ++ second.2) ++ (others.flatMap (·.2) ++ pool.waiting)).Perm shards := by
    have regrouped := (picked.flatMap_right (·.2)).append_right pool.waiting
    rw [List.flatMap_cons, List.flatMap_cons, ← List.append_assoc, List.append_assoc] at regrouped
    exact regrouped.trans reducing.covered
  have bounded := countPostings_le united covered
  refine (mergePair_ends (reducing.holding.perm (picked.map (·.1)).symm) within firstDenotes
    secondDenotes (by omega)).weaken ?_
  rintro _ after ⟨parcel, rfl, isLists, holding⟩
  have lighter : weight pool = weight { pool with
      world := after
      parked := others.map (fun portion => ParkedPreindex.mk portion.1.files) ++
        [⟨parcel.files⟩] } + 1 := by
    have longer := picked.length_eq
    simp only [weight, reducing.parked, List.length_append, List.length_map, List.length_cons,
      List.length_nil] at longer ⊢
    omega
  refine ⟨others ++ [(parcel, first.2 ++ second.2)], {
    failure := reducing.failure
    aborted := reducing.aborted
    parked := by rw [List.map_append]; rfl
    denotes := fun portion member => ?_
    covered := ?_
    holding := ?_ }⟩
  · rcases List.mem_append.mp member with old | new
    · exact reducing.denotes portion
        (picked.mem_iff.mp (List.mem_cons_of_mem _ (List.mem_cons_of_mem _ old)))
    · rw [List.mem_singleton.mp new, isLists]
      exact united
  · rw [List.flatMap_append, List.flatMap_singleton]
    exact (List.perm_append_comm.append_right _).trans ((List.append_assoc _ _ _).symm ▸ covered)
  · rw [← lighter, List.map_append]
    exact holding.perm (List.perm_append_singleton _ _).symm

/-- Two preindexes at different places are merged, and otherwise nothing happens. -/
theorem Reducing.mergeAt
    (within : PreindexFiles.Within paths builder.tempDirectory start.files)
    (small : 2 * countPostings (builder.lists contents shards) < wordLimit)
    (reducing : Reducing builder contents shards paths clear start portions pool)
    (left right : Nat) :
    UnderWay builder contents shards paths clear start (builder.mergeAt pool left right) := by
  rcases mergeAt_cases builder reducing.parked left right with
    same | ⟨first, second, others, picked, ended⟩
  · rw [same]
    exact .inl ⟨portions, reducing⟩
  have merged := reducing.merge within small picked
  rcases ended with ⟨parked, after, performed, isAfter⟩ | ⟨failure, after, performed, isAfter⟩
  · rw [isAfter]
    exact .inl (merged.of_perform_ok performed)
  · rw [isAfter]
    exact reducing.obstructed rfl (merged.of_perform_error performed)

/-- Once no shard waits and at most one preindex is left, that one holds all shards. -/
theorem Reducing.drained (some_shards : shards ≠ []) (none_waiting : pool.waiting = [])
    (few : pool.parked.length < 2)
    (reducing : Reducing builder contents shards paths clear start portions pool) :
    ∃ parcel, pool.parked = [⟨parcel.files⟩] ∧
      Denotes parcel.lists (builder.listing contents shards) ∧
      Holding paths 2 clear [parcel] start pool.world := by
  have covered := reducing.covered
  rw [none_waiting, List.append_nil] at covered
  have parked := reducing.parked
  match portions, reducing with
  | [], reducing => exact absurd covered.nil_eq.symm some_shards
  | [portion], reducing =>
    refine ⟨portion.1, parked, ?_, ?_⟩
    · have denotes := reducing.denotes portion List.mem_cons_self
      rw [List.flatMap_singleton] at covered
      rwa [builder.listing_perm contents covered] at denotes
    · have lightest : weight pool = 1 := by
        rw [weight, parked, none_waiting, List.length_map, List.length_singleton]
        rfl
      have holding := reducing.holding
      rwa [lightest] at holding
  | first :: second :: others, reducing =>
    rw [parked, List.length_map, List.length_cons, List.length_cons] at few
    omega

/-! ### The steps of a reduction -/

/-- What a step does to the other parts of a pool. -/
@[simp] theorem constructAt_aborted (pool : Pool) (place : Nat) :
    (builder.constructAt pool place).aborted = pool.aborted := by
  rcases constructAt_cases builder pool place with
    same | ⟨_, _, _, ⟨_, _, _, same⟩ | ⟨_, _, _, same⟩⟩ <;> rw [same]

@[simp] theorem mergeAt_aborted (pool : Pool) (left right : Nat) :
    (builder.mergeAt pool left right).aborted = pool.aborted := by
  rcases mergeAt_cases builder (List.map_id _).symm left right with
    same | ⟨_, _, _, _, ⟨_, _, _, same⟩ | ⟨_, _, _, same⟩⟩ <;> rw [same]

/-- The first failure stays. -/
theorem constructAt_failure {failure : Failure TracedError} (failed : pool.failure = some failure)
    (place : Nat) : (builder.constructAt pool place).failure = some failure := by
  rcases constructAt_cases builder pool place with
    same | ⟨_, _, _, ⟨_, _, _, same⟩ | ⟨_, _, _, same⟩⟩ <;> rw [same]
  · exact failed
  · exact failed
  · show pool.failure.or _ = _
    rw [failed, Option.some_or]

theorem mergeAt_failure {failure : Failure TracedError} (failed : pool.failure = some failure)
    (left right : Nat) : (builder.mergeAt pool left right).failure = some failure := by
  rcases mergeAt_cases builder (List.map_id _).symm left right with
    same | ⟨_, _, _, _, ⟨_, _, _, same⟩ | ⟨_, _, _, same⟩⟩ <;> rw [same]
  · exact failed
  · exact failed
  · show pool.failure.or _ = _
    rw [failed, Option.some_or]

/-- Only an event calls a reduction off. -/
theorem run_aborted {events : List BuildEvent} (calm : .abort ∉ events) (pool : Pool) :
    (events.foldl builder.apply pool).aborted = pool.aborted :=
  run_induction (fun later => later.aborted = pool.aborted) rfl
    (fun later place same => (constructAt_aborted later place).trans same)
    (fun later left right same => (mergeAt_aborted later left right).trans same)
    fun called => absurd called calm

@[simp] theorem drain_aborted (builder : Builder) (pool : Pool) :
    (builder.drain pool).2.aborted = pool.aborted := by
  obtain ⟨reached, same, ended⟩ := drain_induction (fun later => later.aborted = pool.aborted) rfl
    (fun later place same => (constructAt_aborted later place).trans same)
    fun later left right same => (mergeAt_aborted later left right).trans same
  generalize builder.drain pool = result at ended
  cases ended <;> exact same

/-- Nothing has been done before the first event. -/
theorem UnderWay.init (holding : Holding paths (2 * shards.length + 1) clear [] start pool.world)
    (failure : pool.failure = none) (waiting : pool.waiting = shards) (parked : pool.parked = []) :
    UnderWay builder contents shards paths clear start pool := by
  cases aborted : pool.aborted with
  | true => exact .inr (.inr aborted)
  | false =>
    refine .inl ⟨[], {
      failure
      aborted
      parked
      denotes := nofun
      covered := by rw [waiting]; exact .refl _
      holding := ?_ }⟩
    rw [weight, waiting, parked]
    exact holding

variable (reads : builder.Reads contents shards start.files)
  (within : PreindexFiles.Within paths builder.tempDirectory start.files)
  (small : 2 * countPostings (builder.lists contents shards) < wordLimit)

include reads within small

theorem UnderWay.constructAt (underWay : UnderWay builder contents shards paths clear start pool)
    (place : Nat) :
    UnderWay builder contents shards paths clear start (builder.constructAt pool place) := by
  rcases underWay with ⟨portions, reducing⟩ | ⟨failure, failed, blocked⟩ | aborted
  · exact reducing.constructAt reads within small place
  · exact .inr (.inl ⟨failure, constructAt_failure failed place, blocked⟩)
  · exact .inr (.inr ((constructAt_aborted pool place).trans aborted))

omit reads in
theorem UnderWay.mergeAt (underWay : UnderWay builder contents shards paths clear start pool)
    (left right : Nat) :
    UnderWay builder contents shards paths clear start (builder.mergeAt pool left right) := by
  rcases underWay with ⟨portions, reducing⟩ | ⟨failure, failed, blocked⟩ | aborted
  · exact reducing.mergeAt within small left right
  · exact .inr (.inl ⟨failure, mergeAt_failure failed left right, blocked⟩)
  · exact .inr (.inr ((mergeAt_aborted pool left right).trans aborted))

/-- Any list of events keeps a reduction under way. -/
theorem UnderWay.run (events : List BuildEvent)
    (underWay : UnderWay builder contents shards paths clear start pool) :
    UnderWay builder contents shards paths clear start (events.foldl builder.apply pool) :=
  run_induction _ underWay
    (fun _ place underWay => underWay.constructAt reads within small place)
    (fun _ left right underWay => underWay.mergeAt within small left right)
    fun _ _ _ => .inr (.inr rfl)

/-- A reduction ends with one preindex of all shards, unless the system refused an operation
or it was called off. -/
theorem UnderWay.drain (some_shards : shards ≠ [])
    (underWay : UnderWay builder contents shards paths clear start pool) :
    (builder.drain pool).2.aborted = true ∨
    (∃ failure, (builder.drain pool).1 = .error failure ∧ Obstructed clear failure) ∨
    ∃ parcel, (builder.drain pool).1 = .ok (some ⟨parcel.files⟩) ∧
      (builder.drain pool).2.aborted = false ∧
      Denotes parcel.lists (builder.listing contents shards) ∧
      Holding paths 2 clear [parcel] start (builder.drain pool).2.world := by
  obtain ⟨reached, underWay, ended⟩ := drain_induction _ underWay
    (fun _ place underWay => underWay.constructAt reads within small place)
    fun _ left right underWay => underWay.mergeAt within small left right
  generalize builder.drain pool = result at ended
  rcases underWay with ⟨portions, reducing⟩ | ⟨first, isFirst, blocked⟩ | aborted
  · cases ended with
    | failed failed =>
      rw [reducing.failure] at failed
      cases failed
    | done _ none_waiting few =>
      obtain ⟨parcel, parked, denotes, holding⟩ := reducing.drained some_shards none_waiting few
      rw [parked]
      exact .inr (.inr ⟨parcel, rfl, reducing.aborted, denotes, holding⟩)
  · cases ended with
    | failed failed =>
      rw [isFirst] at failed
      cases failed
      exact .inr (.inl ⟨first, rfl, blocked⟩)
    | done none_failed =>
      rw [none_failed] at isFirst
      cases isFirst
  · cases ended <;> exact .inl aborted

end

end Builder

end InvertedIndex
