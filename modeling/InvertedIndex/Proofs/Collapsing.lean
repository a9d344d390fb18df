/-
This file proves that postings can be collapsed within their array. They fall into runs of
adjacent postings of the same document. Each turn of the loop reads one posting and writes one
place, and the place it writes is never ahead of the one it reads. So the postings that are
still to come are those that were there at first, and the places filled so far hold one posting
for each run of those that were read, with the flags of the whole run.
-/

import InvertedIndex.Proofs.Postings
import Mathlib.Data.List.Chain

namespace InvertedIndex

/-! ### Runs of one document -/

/-- Adjacent postings of the same document, at least one of them. -/
structure DocumentRun where
  doc : DocId
  first : Metadata
  rest : List Metadata
  deriving Repr, DecidableEq

namespace DocumentRun

/-- The flags of the postings, in their order. -/
def flags (run : DocumentRun) : List Metadata := run.first :: run.rest

def postings (run : DocumentRun) : List Posting := run.flags.map fun flags => ⟨run.doc, flags⟩

/-- The one posting that stands for the run. -/
def settled (run : DocumentRun) : Posting := ⟨run.doc, run.flags.foldl (· ||| ·) 0⟩

/-- The same document with the same flags, in any order. -/
structure Reorders (run other : DocumentRun) : Prop where
  doc : run.doc = other.doc
  flags : run.flags.Perm other.flags

theorem flags_ne_nil (run : DocumentRun) : run.flags ≠ [] := List.cons_ne_nil _ _

theorem Reorders.settled_eq {run other : DocumentRun} (reorders : run.Reorders other) :
    run.settled = other.settled := by
  have same := combineAll_perm reorders.flags
  rw [combineAll_eq, combineAll_eq, if_neg run.flags_ne_nil, if_neg other.flags_ne_nil,
    Option.some.injEq] at same
  rw [settled, settled, reorders.doc, same]

/-- The runs of some postings once another one stands in front of them. -/
def extend (posting : Posting) : List DocumentRun → List DocumentRun
  | [] => [⟨posting.key, posting.payload, []⟩]
  | run :: later =>
    if posting.key = run.doc then ⟨run.doc, posting.payload, run.flags⟩ :: later
    else ⟨posting.key, posting.payload, []⟩ :: run :: later

end DocumentRun

/-- The postings fall into these runs, and no run could be longer: the next one is of another
document. -/
structure MaximalRuns (runs : List DocumentRun) (postings : List Posting) : Prop where
  joined : runs.flatMap DocumentRun.postings = postings
  maximal : runs.IsChain fun run next => run.doc ≠ next.doc

namespace MaximalRuns

open DocumentRun

variable {runs : List DocumentRun} {postings : List Posting}

theorem nil : MaximalRuns [] [] := ⟨rfl, .nil⟩

theorem extend (maximal : MaximalRuns runs postings) (posting : Posting) :
    MaximalRuns (DocumentRun.extend posting runs) (posting :: postings) := by
  obtain ⟨rfl, chain⟩ := maximal
  cases runs with
  | nil => exact ⟨rfl, .singleton _⟩
  | cons run later =>
    rw [DocumentRun.extend]
    split
    · rename_i same
      obtain ⟨doc, flags⟩ := posting
      obtain rfl : doc = run.doc := same
      exact ⟨rfl, List.isChain_cons.mpr (List.isChain_cons.mp chain)⟩
    · rename_i different
      exact ⟨rfl, .cons_cons different chain⟩

/-- All postings fall into such runs. -/
theorem exists_runs (postings : List Posting) : ∃ runs, MaximalRuns runs postings := by
  induction postings with
  | nil => exact ⟨[], nil⟩
  | cons posting rest inductionHypothesis =>
    obtain ⟨runs, maximal⟩ := inductionHypothesis
    exact ⟨_, maximal.extend posting⟩

/-- Put in front of runs that start with another document, a run stays a run of its own. -/
theorem foldr_extend_run (run : DocumentRun) {later : List DocumentRun}
    (different : ∀ next ∈ later.head?, run.doc ≠ next.doc) :
    run.postings.foldr DocumentRun.extend later = run :: later := by
  obtain ⟨doc, first, rest⟩ := run
  induction rest generalizing first with
  | nil =>
    cases later with
    | nil => rfl
    | cons next later => exact if_neg (different next rfl)
  | cons second rest inductionHypothesis =>
    show DocumentRun.extend ⟨doc, first⟩ ((DocumentRun.postings ⟨doc, second, rest⟩).foldr
      DocumentRun.extend later) = _
    rw [inductionHypothesis second different]
    exact if_pos rfl

/-- There is only one way to fall into them. -/
theorem eq_foldr (maximal : MaximalRuns runs postings) :
    runs = postings.foldr DocumentRun.extend [] := by
  obtain ⟨rfl, chain⟩ := maximal
  induction runs with
  | nil => rfl
  | cons run later inductionHypothesis =>
    obtain ⟨different, laterChain⟩ := List.isChain_cons.mp chain
    rw [List.flatMap_cons, List.foldr_append, ← inductionHypothesis laterChain,
      foldr_extend_run run different]

theorem unique {others : List DocumentRun} (maximal : MaximalRuns runs postings)
    (other : MaximalRuns others postings) : runs = others :=
  maximal.eq_foldr.trans other.eq_foldr.symm

/-- Collapsing takes all postings of a run into the posting that is open. -/
theorem collapseInto_run (last : Posting) (flags : List Metadata) {behind : List Posting}
    (different : ∀ next ∈ behind.head?, last.key ≠ next.key) :
    collapseInto last (flags.map (fun flags => ⟨last.key, flags⟩) ++ behind) =
      ⟨last.key, flags.foldl (· ||| ·) last.payload⟩ :: collapsed behind := by
  induction flags generalizing last with
  | nil =>
    cases behind with
    | nil => rfl
    | cons next behind => exact if_neg (different next rfl)
  | cons next flags inductionHypothesis =>
    rw [List.map_cons, List.cons_append, collapseInto, if_pos rfl]
    exact inductionHypothesis ⟨last.key, combine last.payload next⟩ different

/-- One posting is left of each run. -/
theorem collapsed_eq (maximal : MaximalRuns runs postings) :
    collapsed postings = runs.map settled := by
  obtain ⟨rfl, chain⟩ := maximal
  induction runs with
  | nil => rfl
  | cons run later inductionHypothesis =>
    obtain ⟨different, laterChain⟩ := List.isChain_cons.mp chain
    have apart : ∀ next ∈ (later.flatMap DocumentRun.postings).head?, run.doc ≠ next.key := by
      cases later with
      | nil => exact nofun
      | cons next later =>
        intro posting isNext
        cases isNext
        exact different next rfl
    have front := collapseInto_run ⟨run.doc, run.first⟩ run.rest apart
    rw [inductionHypothesis laterChain] at front
    rw [List.map_cons, settled, flags, List.foldl_cons, UInt64.zero_or]
    exact front

/-- In postings that are not sorted, a document that comes back starts a run of its own. -/
example : collapsed [⟨5, 1⟩, ⟨5, 2⟩, ⟨7, 4⟩, ⟨5, 8⟩] = [⟨5, 3⟩, ⟨7, 4⟩, ⟨5, 8⟩] := by decide

end MaximalRuns

/-! ### One more posting -/

section

variable {first last posting : Posting} {rest postings : List Posting}

theorem collapseInto_ne_nil (last : Posting) (rest : List Posting) : collapseInto last rest ≠ [] :=
  collapsed_ne_nil (List.cons_ne_nil last rest)

theorem getLast?_cons_collapseInto (first last : Posting) (rest : List Posting) :
    (first :: collapseInto last rest).getLast? = (collapseInto last rest).getLast? := by
  obtain ⟨head, tail, isCons⟩ := List.exists_cons_of_ne_nil (collapseInto_ne_nil last rest)
  rw [isCons, List.getLast?_cons_cons]

theorem collapseInto_concat_of_same {final : Posting}
    (isLast : (collapseInto last rest).getLast? = some final) (same : final.key = posting.key) :
    collapseInto last (rest ++ [posting]) = (collapseInto last rest).dropLast ++
      [⟨posting.key, combine final.payload posting.payload⟩] := by
  induction rest generalizing last with
  | nil =>
    cases isLast
    exact if_pos same
  | cons next rest inductionHypothesis =>
    rw [collapseInto] at isLast ⊢
    rw [List.cons_append, collapseInto]
    split
    · rename_i joins
      rw [if_pos joins] at isLast
      exact inductionHypothesis isLast
    · rename_i apart
      rw [if_neg apart, getLast?_cons_collapseInto] at isLast
      rw [inductionHypothesis isLast,
        List.dropLast_cons_of_ne_nil (collapseInto_ne_nil next rest), List.cons_append]

theorem collapseInto_concat_of_other
    (other : ∀ final ∈ (collapseInto last rest).getLast?, final.key ≠ posting.key) :
    collapseInto last (rest ++ [posting]) = collapseInto last rest ++ [posting] := by
  induction rest generalizing last with
  | nil => exact if_neg (other last rfl)
  | cons next rest inductionHypothesis =>
    rw [collapseInto] at other ⊢
    rw [List.cons_append, collapseInto]
    split
    · rename_i joins
      rw [if_pos joins] at other
      exact inductionHypothesis other
    · rename_i apart
      rw [if_neg apart, getLast?_cons_collapseInto] at other
      rw [inductionHypothesis other, List.cons_append]

/-- A posting of the document that was kept last joins it. -/
theorem collapsed_concat_of_same (isLast : (collapsed postings).getLast? = some last)
    (same : last.key = posting.key) :
    collapsed (postings ++ [posting]) = (collapsed postings).dropLast ++
      [⟨posting.key, combine last.payload posting.payload⟩] := by
  cases postings with
  | nil => cases isLast
  | cons first rest => exact collapseInto_concat_of_same isLast same

/-- A posting of another document is kept behind it. -/
theorem collapsed_concat_of_other
    (other : ∀ last ∈ (collapsed postings).getLast?, last.key ≠ posting.key) :
    collapsed (postings ++ [posting]) = collapsed postings ++ [posting] := by
  cases postings with
  | nil => rfl
  | cons first rest => exact collapseInto_concat_of_other other

end

/-! ### The turns of the loop -/

/-- What is written at a place ends what is kept up to there. -/
theorem take_set_append {postings : Array Posting} {place : Nat} (inside : place < postings.size)
    {posting : Posting} : (postings.set place posting).toList.take (place + 1) =
      postings.toList.take place ++ [posting] := by
  rw [Array.toList_set,
    List.take_succ_eq_append_getElem (by rw [List.length_set, Array.length_toList]; exact inside),
    List.take_set_of_le (Nat.le_refl _), List.getElem_set_self]

/-- The array while it is being collapsed. -/
structure CollapseState where
  postings : Array Posting
  /-- How many places are filled. -/
  kept : Nat
  /-- How many places have been read. -/
  read : Nat

namespace CollapseState

/-- The posting that was kept last. -/
def last? (state : CollapseState) : Option Posting :=
  if state.kept = 0 then none else state.postings[state.kept - 1]?

/-- The place that is written once this posting was read, and what is written there. -/
def write (state : CollapseState) (posting : Posting) : Nat × Posting :=
  match state.last? with
  | some last =>
    if last.key = posting.key then
      (state.kept - 1, ⟨posting.key, combine last.payload posting.payload⟩)
    else (state.kept, posting)
  | none => (state.kept, posting)

/-- Reads the next posting, if there is one, and writes it or the posting that it joins. -/
def turn (state : CollapseState) : CollapseState :=
  match state.postings[state.read]? with
  | none => state
  | some posting =>
    { postings := state.postings.setIfInBounds (state.write posting).1 (state.write posting).2
      kept := (state.write posting).1 + 1
      read := state.read + 1 }

/-- The loop over these postings after so many turns. -/
def after (postings : Array Posting) : Nat → CollapseState
  | 0 => ⟨postings, 0, 0⟩
  | turns + 1 => (after postings turns).turn

/-- The places that are filled. -/
def result (state : CollapseState) : Array Posting := state.postings.extract 0 state.kept

variable {state : CollapseState} {postings : Array Posting} {posting last : Posting}

theorem turn_of_some (isNext : state.postings[state.read]? = some posting) :
    state.turn = {
      postings := state.postings.setIfInBounds (state.write posting).1 (state.write posting).2
      kept := (state.write posting).1 + 1
      read := state.read + 1 } := by
  rw [turn, isNext]

theorem write_of_same (isLast : state.last? = some last) (same : last.key = posting.key) :
    state.write posting =
      (state.kept - 1, ⟨posting.key, combine last.payload posting.payload⟩) := by
  rw [write, isLast]
  exact if_pos same

theorem write_of_other (other : ∀ last ∈ state.last?, last.key ≠ posting.key) :
    state.write posting = (state.kept, posting) := by
  rw [write]
  split
  · rename_i last isLast
    exact if_neg (other last isLast)
  · rfl

/-- No turn writes ahead of the places that are filled. -/
theorem write_le_kept (state : CollapseState) (posting : Posting) :
    (state.write posting).1 ≤ state.kept := by
  unfold write
  split
  · split
    · exact Nat.sub_le _ _
    · exact Nat.le_refl _
  · exact Nat.le_refl _

/-- The loop goes on as it does after one more turn. -/
theorem collapseFrom_turn (behind : state.kept ≤ state.read)
    (more : state.read < state.postings.size) {next : CollapseState} (isTurn : state.turn = next)
    (stays : next.kept ≤ next.read) :
    collapseFrom state.postings state.kept state.read behind =
      collapseFrom next.postings next.kept next.read stays := by
  rw [turn_of_some (Array.getElem?_eq_getElem more)] at isTurn
  rw [collapseFrom, dif_pos more]
  dsimp only
  split
  · rename_i same
    have inside : state.kept - 1 < state.postings.size := by omega
    have isLast : state.last? = some state.postings[state.kept - 1] := by
      rw [last?, if_neg (by omega), Array.getElem?_eq_getElem inside]
    have lastKey := same.2
    rw [Array.getElem?_eq_getElem inside, Option.map_some, Option.some.injEq] at lastKey
    rw [write_of_same isLast lastKey, Nat.sub_add_cancel same.1, Array.setIfInBounds,
      dif_pos inside] at isTurn
    subst isTurn
    rfl
  · rename_i different
    have other : ∀ last ∈ state.last?, last.key ≠ state.postings[state.read].key := by
      intro last isLast same
      rw [last?] at isLast
      split at isLast
      · cases isLast
      · rename_i some
        refine different ⟨Nat.pos_of_ne_zero some, ?_⟩
        rw [Option.mem_def.mp isLast, Option.map_some, same]
    rw [write_of_other other, Array.setIfInBounds,
      dif_pos (Nat.lt_of_le_of_lt behind more)] at isTurn
    subst isTurn
    rfl

/-- What the loop over these postings has done after so many turns. -/
structure InPlace (postings : Array Posting) (turns : Nat) (state : CollapseState) : Prop where
  read_eq : state.read = turns
  kept_le : state.kept ≤ state.read
  size_eq : state.postings.size = postings.size
  unread : ∀ place, state.read ≤ place → state.postings[place]? = postings[place]?
  write_le : ∀ posting, state.postings[state.read]? = some posting →
    (state.write posting).1 ≤ state.read
  settled : ∀ runs, MaximalRuns runs (postings.toList.take turns) →
    state.postings.toList.take state.kept = runs.map DocumentRun.settled

namespace InPlace

variable {turns : Nat}

theorem start (postings : Array Posting) : InPlace postings 0 ⟨postings, 0, 0⟩ where
  read_eq := rfl
  kept_le := Nat.le_refl 0
  size_eq := rfl
  unread _ _ := rfl
  write_le posting _ := write_le_kept _ posting
  settled runs maximal := by
    rw [maximal.eq_foldr]
    rfl

/-- The places that are filled hold what was read, collapsed. -/
theorem filled (inPlace : state.InPlace postings turns) :
    state.postings.toList.take state.kept = collapsed (postings.toList.take turns) := by
  obtain ⟨runs, maximal⟩ := MaximalRuns.exists_runs (postings.toList.take turns)
  rw [inPlace.settled runs maximal, maximal.collapsed_eq]

theorem last?_eq (inPlace : state.InPlace postings turns) (inside : turns ≤ postings.size) :
    state.last? = (collapsed (postings.toList.take turns)).getLast? := by
  have keptLe := inPlace.kept_le
  have readEq := inPlace.read_eq
  have sizeEq := inPlace.size_eq
  rw [← inPlace.filled, List.getLast?_take, last?]
  split
  · rfl
  · have within : state.kept - 1 < state.postings.toList.length := by
      rw [Array.length_toList]
      omega
    rw [List.getElem?_eq_getElem within, Option.some_or, Array.getElem_toList,
      Array.getElem?_eq_getElem within]

/-- The next posting is still the one that was there at first. -/
theorem next_eq (inPlace : state.InPlace postings turns) (more : turns < postings.size) :
    state.postings[state.read]? = some postings[turns] := by
  rw [inPlace.unread _ (Nat.le_refl _), inPlace.read_eq, Array.getElem?_eq_getElem more]

/-- Each turn takes one more posting into the places that are filled. -/
theorem turn (inPlace : state.InPlace postings turns) (more : turns < postings.size) :
    state.turn.InPlace postings (turns + 1) := by
  have isNext := inPlace.next_eq more
  have readEq := inPlace.read_eq
  have sizeEq := inPlace.size_eq
  have keptLe := inPlace.kept_le
  have writeLe := inPlace.write_le _ isNext
  have inside : (state.write postings[turns]).1 < state.postings.size := by omega
  rw [turn_of_some isNext]
  refine {
    read_eq := congrArg (· + 1) readEq
    kept_le := Nat.succ_le_succ writeLe
    size_eq := Array.size_setIfInBounds.trans sizeEq
    unread := fun place ahead => ?_
    write_le := fun posting _ => Nat.le_trans (write_le_kept _ posting) (Nat.succ_le_succ writeLe)
    settled := fun runs maximal => ?_ }
  · dsimp only at ahead ⊢
    rw [Array.getElem?_setIfInBounds, if_neg (by omega)]
    exact inPlace.unread place (by omega)
  · have read : postings.toList.take (turns + 1) =
        postings.toList.take turns ++ [postings[turns]] :=
      List.take_succ_eq_append_getElem more
    rw [← maximal.collapsed_eq, read]
    dsimp only
    rw [Array.setIfInBounds, dif_pos inside, take_set_append inside]
    have lastEq := inPlace.last?_eq (Nat.le_of_lt more)
    by_cases joins : ∃ last ∈ state.last?, last.key = postings[turns].key
    · obtain ⟨last, isLast, same⟩ := joins
      rw [write_of_same isLast same, collapsed_concat_of_same (lastEq.symm.trans isLast) same,
        ← inPlace.filled, List.dropLast_take (by rw [Array.length_toList]; omega)]
    · have other : ∀ last ∈ state.last?, last.key ≠ postings[turns].key :=
        fun last isLast same => joins ⟨last, isLast, same⟩
      rw [write_of_other other, collapsed_concat_of_other (lastEq ▸ other), inPlace.filled]

/-- So it is after any number of turns. -/
theorem after (postings : Array Posting) (inside : turns ≤ postings.size) :
    (CollapseState.after postings turns).InPlace postings turns := by
  induction turns with
  | zero => exact start postings
  | succ turns inductionHypothesis =>
    exact (inductionHypothesis (Nat.le_of_lt inside)).turn inside

end InPlace

/-- Collapsing goes on from each of these states. -/
theorem collapseFrom_after (postings : Array Posting) {turns : Nat}
    (inside : turns ≤ postings.size) :
    collapseFrom (after postings turns).postings (after postings turns).kept
      (after postings turns).read (InPlace.after postings inside).kept_le = collapse postings := by
  induction turns with
  | zero => rfl
  | succ turns inductionHypothesis =>
    have now := InPlace.after postings (Nat.le_of_lt inside)
    have more : (after postings turns).read < (after postings turns).postings.size := by
      rw [now.size_eq, now.read_eq]
      exact inside
    rw [← inductionHypothesis (Nat.le_of_lt inside)]
    exact (collapseFrom_turn now.kept_le more rfl _).symm

/-- It ends after one turn for each posting, with the places that are filled by then. -/
theorem collapse_eq (postings : Array Posting) :
    collapse postings = (after postings postings.size).result := by
  have ended := InPlace.after postings (Nat.le_refl postings.size)
  rw [← collapseFrom_after postings (Nat.le_refl postings.size), collapseFrom,
    dif_neg (by rw [ended.size_eq, ended.read_eq]; exact Nat.lt_irrefl _)]
  rfl

end CollapseState

/-- Collapsing within the array leaves what collapsing the list gives. -/
theorem toList_collapse (postings : Array Posting) :
    (collapse postings).toList = collapsed postings.toList := by
  have filled := (CollapseState.InPlace.after postings (Nat.le_refl postings.size)).filled
  rw [← Array.length_toList, List.take_length] at filled
  rw [CollapseState.collapse_eq, CollapseState.result, Array.toList_extract,
    List.extract_eq_take_drop, Nat.sub_zero, List.drop_zero, ← filled, Array.length_toList]

/-! ### What is left of the runs -/

namespace MaximalRuns

variable {runs others : List DocumentRun} {postings : List Posting}

/-- What is left of the runs falls into runs of one posting each. -/
theorem map_settled (maximal : MaximalRuns runs postings) :
    MaximalRuns (runs.map fun run => ⟨run.doc, run.settled.payload, []⟩)
      (runs.map DocumentRun.settled) where
  joined := by
    rw [List.flatMap_map]
    exact List.flatMap_pure_eq_map _ _
  maximal := (List.isChain_map _).mpr maximal.maximal

/-- So collapsing it again changes nothing. -/
theorem collapsed_settled (maximal : MaximalRuns runs postings) :
    collapsed (runs.map DocumentRun.settled) = runs.map DocumentRun.settled := by
  rw [maximal.map_settled.collapsed_eq, List.map_map]
  refine List.map_congr_left fun run _ => ?_
  exact congrArg (Pair.mk run.doc) UInt64.zero_or

/-- Every document of a posting is that of a run. -/
theorem map_key (maximal : MaximalRuns runs postings) (doc : DocId) :
    doc ∈ postings.map Pair.key ↔ doc ∈ runs.map DocumentRun.doc := by
  obtain ⟨rfl, -⟩ := maximal
  simp only [List.mem_map, List.mem_flatMap]
  constructor
  · rintro ⟨posting, ⟨run, member, inRun⟩, rfl⟩
    obtain ⟨flags, -, rfl⟩ := List.mem_map.mp inRun
    exact ⟨run, member, rfl⟩
  · rintro ⟨run, member, rfl⟩
    exact ⟨⟨run.doc, run.first⟩, ⟨run, member, List.mem_cons_self⟩, rfl⟩

/-- Runs whose flags come in another order are runs as well, and the same is left of them. -/
theorem of_reorders (maximal : MaximalRuns runs postings)
    (reorders : List.Forall₂ DocumentRun.Reorders others runs) :
    MaximalRuns others (others.flatMap DocumentRun.postings) ∧
      others.map DocumentRun.settled = runs.map DocumentRun.settled := by
  have docs : others.map DocumentRun.doc = runs.map DocumentRun.doc := by
    clear maximal
    induction reorders with
    | nil => rfl
    | cons reorder _ inductionHypothesis =>
      rw [List.map_cons, List.map_cons, reorder.doc, inductionHypothesis]
  have settled : others.map DocumentRun.settled = runs.map DocumentRun.settled := by
    clear maximal docs
    induction reorders with
    | nil => rfl
    | cons reorder _ inductionHypothesis =>
      rw [List.map_cons, List.map_cons, reorder.settled_eq, inductionHypothesis]
  have chain := (List.isChain_map (R := fun doc next => doc ≠ next) DocumentRun.doc).mpr
    maximal.maximal
  rw [← docs] at chain
  exact ⟨⟨rfl, (List.isChain_map _).mp chain⟩, settled⟩

end MaximalRuns

/-- Collapsing settles runs of postings in place. Postings in any order fall into maximal runs of
adjacent postings of the same document in one way only. One posting is left of each run, in the
order of the runs, with all flags of the run; the order of the flags within the runs leaves no
trace. The loop takes one turn for each posting, and whatever turns it has taken, it writes no
place that it has not read, so that what it has not read is as it was at first, and the places
it has filled hold what is left of the runs of what it has read. Every document keeps a posting
and none gets a new one, and collapsing a second time changes nothing. When the postings were
sorted, the documents strictly ascend. -/
theorem collapse_settles_runs (postings : Array Posting) :
    (∃ runs, MaximalRuns runs postings.toList ∧
      (∀ others, MaximalRuns others postings.toList → others = runs) ∧
      (collapse postings).toList = runs.map DocumentRun.settled ∧
      ∀ others, List.Forall₂ DocumentRun.Reorders others runs →
        collapse (others.flatMap DocumentRun.postings).toArray = collapse postings) ∧
    (∀ turns ≤ postings.size,
      ∃ inPlace : (CollapseState.after postings turns).InPlace postings turns,
        collapseFrom (CollapseState.after postings turns).postings
          (CollapseState.after postings turns).kept (CollapseState.after postings turns).read
          inPlace.kept_le = collapse postings) ∧
    collapse postings = (CollapseState.after postings postings.size).result ∧
    (∀ doc, doc ∈ (collapse postings).toList.map Pair.key ↔
      doc ∈ postings.toList.map Pair.key) ∧
    collapse (collapse postings) = collapse postings ∧
    ((postings.toList.Pairwise fun first second => first.le second) →
      AscendingBy Pair.key (collapse postings).toList) := by
  obtain ⟨runs, maximal⟩ := MaximalRuns.exists_runs postings.toList
  have settled : (collapse postings).toList = runs.map DocumentRun.settled := by
    rw [toList_collapse, maximal.collapsed_eq]
  refine ⟨⟨runs, maximal, fun others other => other.unique maximal, settled,
      fun others reorders => ?_⟩,
    fun turns inside => ⟨.after postings inside, CollapseState.collapseFrom_after postings inside⟩,
    CollapseState.collapse_eq postings, fun doc => ?_, ?_, fun sorted => ?_⟩
  · obtain ⟨reordered, same⟩ := maximal.of_reorders reorders
    rw [← Array.toList_inj, settled, ← same, toList_collapse, reordered.collapsed_eq]
  · rw [settled, List.map_map, maximal.map_key]
    rfl
  · rw [← Array.toList_inj, toList_collapse, settled, maximal.collapsed_settled]
  · rw [toList_collapse]
    exact collapsed_ascendingBy (sorted.imp Pair.key_le_of_le)

/-- Two postings of one document, one of another, and two of a third. -/
def fivePostings : Array Posting := #[⟨5, 1⟩, ⟨5, 2⟩, ⟨7, 4⟩, ⟨9, 1⟩, ⟨9, 6⟩]

theorem collapse_settles_runs_of_three :
    (fivePostings.toList.Pairwise fun first second => first.le second) ∧
    AscendingBy Pair.key (collapse fivePostings).toList ∧
    (collapse fivePostings).toList = [⟨5, 3⟩, ⟨7, 4⟩, ⟨9, 7⟩] ∧
    collapse #[⟨5, 2⟩, ⟨5, 1⟩, ⟨7, 4⟩, ⟨9, 6⟩, ⟨9, 1⟩] = collapse fivePostings := by
  obtain ⟨⟨runs, -, only, settled, reordered⟩, -, -, -, -, ascends⟩ :=
    collapse_settles_runs fivePostings
  have sorted : fivePostings.toList.Pairwise fun first second => first.le second := by decide
  obtain rfl := only [⟨5, 1, [2]⟩, ⟨7, 4, []⟩, ⟨9, 1, [6]⟩] ⟨rfl, by decide⟩
  refine ⟨sorted, ascends sorted, settled,
    reordered [⟨5, 2, [1]⟩, ⟨7, 4, []⟩, ⟨9, 6, [1]⟩] ?_⟩
  exact .cons ⟨rfl, .swap 1 2 []⟩ (.cons ⟨rfl, .refl _⟩ (.cons ⟨rfl, .swap 1 6 []⟩ .nil))

end InvertedIndex
