/-
This file proves that merging two preindexes is the union of what they list. It goes through
the terms of both sides and, under a common term, through the documents of both sides; nothing
that opening has left unchecked can make it fail. Where the documents ascend the result lists
what either side lists, with the flags of both. As a union it does not depend on the order of
its sides or of several unions, and neither repetition nor an empty side adds anything to it.
-/

import InvertedIndex.Proofs.OpenPreindexes

namespace InvertedIndex

namespace Preindex

/-! ### Unions of preindexes -/

/-- A preindex has the union of the terms of two others, and under each term the union of the
documents with their flags. -/
structure UnionOf (left right merged : Preindex) : Prop where
  ascending : merged.terms.toList.Pairwise (· < ·)
  terms : ∀ term, term ∈ merged.terms ↔ term ∈ left.terms ∨ term ∈ right.terms
  left_only : ∀ term words, term ∉ right.terms →
    (merged.HasPostings term words ↔ left.HasPostings term words)
  right_only : ∀ term words, term ∉ left.terms →
    (merged.HasPostings term words ↔ right.HasPostings term words)
  docs : left.DocsAscend → right.DocsAscend → merged.DocsAscend
  lists : left.DocsAscend → right.DocsAscend → ∀ term doc flags, merged.Says term doc flags ↔
    (left.Says term doc flags ∧ ¬ ∃ other, right.Says term doc other) ∨
    (right.Says term doc flags ∧ ¬ ∃ other, left.Says term doc other) ∨
    ∃ first second, left.Says term doc first ∧ right.Says term doc second ∧
      flags = first ||| second

variable {left right : List (Term × List Posting)} {leftOwned rightOwned owned : PreindexFiles}

/-- A preindex of the united lists of two others is their union. -/
theorem unionOf_ofLists (leftAscending : AscendingBy Prod.fst left)
    (rightAscending : AscendingBy Prod.fst right)
    (small : 2 * (countPostings left + countPostings right) < wordLimit) :
    UnionOf (ofLists leftOwned left) (ofLists rightOwned right)
      (ofLists owned (uniteTerms left right)) := by
  have unitedAscending := uniteTerms_ascendingBy leftAscending rightAscending
  have bound := countPostings_uniteTerms_le left right
  have unitedSmall : 2 * countPostings (uniteTerms left right) < wordLimit := by omega
  have leftSmall : 2 * countPostings left < wordLimit := by omega
  have rightSmall : 2 * countPostings right < wordLimit := by omega
  have united (term : Term) := lookupBy_uniteTerms leftAscending rightAscending term
  constructor
  case ascending => exact unitedAscending
  case terms =>
    intro term
    rw [mem_terms_ofLists, mem_terms_ofLists, mem_terms_ofLists, united, Ne,
      Option.merge_eq_none_iff, not_and_or]
  case left_only =>
    intro term words absent
    rw [mem_terms_ofLists, not_not] at absent
    rw [hasPostings_iff_lookupBy unitedSmall unitedAscending, united, absent,
      Option.merge_none_right, hasPostings_iff_lookupBy leftSmall leftAscending]
  case right_only =>
    intro term words absent
    rw [mem_terms_ofLists, not_not] at absent
    rw [hasPostings_iff_lookupBy unitedSmall unitedAscending, united, absent,
      Option.merge_none_left, hasPostings_iff_lookupBy rightSmall rightAscending]
  case docs =>
    rw [docsAscend_ofLists leftSmall, docsAscend_ofLists rightSmall, docsAscend_ofLists unitedSmall]
    exact uniteTerms_docs leftAscending rightAscending
  case lists =>
    intro leftDocs rightDocs term doc flags
    rw [docsAscend_ofLists leftSmall] at leftDocs
    rw [docsAscend_ofLists rightSmall] at rightDocs
    have unitedDocs := uniteTerms_docs leftAscending rightAscending leftDocs rightDocs
    simp only [says_ofLists leftSmall leftAscending leftDocs,
      says_ofLists rightSmall rightAscending rightDocs,
      says_ofLists unitedSmall unitedAscending unitedDocs,
      flagsAt_uniteTerms leftAscending rightAscending leftDocs rightDocs]
    exact bothFlags_eq_some_iff

/-! ### Merging -/

/-- Merging these two preindexes can end with this one. -/
def Merges (left right merged : Preindex) : Prop :=
  ∃ directory world after, (merge directory left right).perform world = (.ok merged, after)

/-- Merging writes the united lists. -/
theorem merge_ofLists (directory : Path) (leftSmall : 2 * countPostings left < wordLimit)
    (rightSmall : 2 * countPostings right < wordLimit) :
    merge directory (ofLists leftOwned left) (ofLists rightOwned right) =
      writeNew directory (uniteTerms left right) := by
  rw [merge, lists_ofLists leftSmall, lists_ofLists rightSmall, Action.ofChecked_ok_bind,
    Action.ofChecked_ok_bind]

/-- What merging two preindexes of known lists ends with. -/
theorem Merges.eq_ofLists {merged : Preindex}
    (merges : (ofLists leftOwned left).Merges (ofLists rightOwned right) merged)
    (leftAscending : AscendingBy Prod.fst left) (rightAscending : AscendingBy Prod.fst right)
    (small : 2 * (countPostings left + countPostings right) < wordLimit) :
    merged = ofLists merged.files (uniteTerms left right) := by
  obtain ⟨directory, world, after, performed⟩ := merges
  rw [merge_ofLists directory (by omega) (by omega)] at performed
  have bound := countPostings_uniteTerms_le left right
  have united := uniteTerms_ascendingBy leftAscending rightAscending
  exact ((writeNew_makes united (by omega)).of_perform_ok performed).1

section

variable {first second third merged other inFront behind : Preindex}

/-- Two open preindexes are merged into their union, or the system refuses the files. -/
theorem Opened.merge_ends (opened : first.Opened) (secondOpened : second.Opened)
    (directory : Path) (world : World) :
    (merge directory first second).Ends world (Hindered (Room directory world))
      fun merged after => load merged.files after.files = .ok merged ∧
        UnionOf first second merged := by
  obtain ⟨left, isFirst, leftAscending, leftSmall⟩ := opened.exists_ofLists
  obtain ⟨right, isSecond, rightAscending, rightSmall⟩ := secondOpened.exists_ofLists
  have bound := countPostings_uniteTerms_le left right
  rw [isFirst, isSecond, merge_ofLists directory (by omega) (by omega)]
  refine (writeNew_makes (uniteTerms_ascendingBy leftAscending rightAscending) (by omega)).weaken ?_
  rintro merged after ⟨isUnion, loaded⟩
  refine ⟨loaded, ?_⟩
  rw [isUnion]
  exact unionOf_ofLists leftAscending rightAscending (by omega)

theorem Merges.comm (opened : first.Opened) (secondOpened : second.Opened)
    (merges : first.Merges second merged) (otherMerges : second.Merges first other) :
    merged.Alike other := by
  obtain ⟨left, isFirst, leftAscending, leftSmall⟩ := opened.exists_ofLists
  obtain ⟨right, isSecond, rightAscending, rightSmall⟩ := secondOpened.exists_ofLists
  rw [isFirst, isSecond] at merges otherMerges
  rw [merges.eq_ofLists leftAscending rightAscending (by omega),
    otherMerges.eq_ofLists rightAscending leftAscending (by omega), uniteTerms_comm]
  exact alike_ofLists _ _ _

/-- Of three preindexes any two neighbours may be merged first. -/
theorem Merges.assoc (opened : first.Opened) (secondOpened : second.Opened)
    (thirdOpened : third.Opened) (docs : first.DocsAscend) (secondDocs : second.DocsAscend)
    (thirdDocs : third.DocsAscend) (merges : first.Merges second inFront)
    (mergesAll : inFront.Merges third merged) (otherMerges : second.Merges third behind)
    (otherMergesAll : first.Merges behind other) : merged.Alike other := by
  obtain ⟨left, isFirst, leftAscending, leftSmall⟩ := opened.exists_ofLists
  obtain ⟨middle, isSecond, middleAscending, middleSmall⟩ := secondOpened.exists_ofLists
  obtain ⟨right, isThird, rightAscending, rightSmall⟩ := thirdOpened.exists_ofLists
  have frontBound := countPostings_uniteTerms_le left middle
  have behindBound := countPostings_uniteTerms_le middle right
  rw [isFirst, docsAscend_ofLists (by omega)] at docs
  rw [isSecond, docsAscend_ofLists (by omega)] at secondDocs
  rw [isThird, docsAscend_ofLists (by omega)] at thirdDocs
  rw [isFirst, isSecond] at merges
  rw [isSecond, isThird] at otherMerges
  rw [merges.eq_ofLists leftAscending middleAscending (by omega), isThird] at mergesAll
  rw [isFirst, otherMerges.eq_ofLists middleAscending rightAscending (by omega)] at otherMergesAll
  rw [mergesAll.eq_ofLists (uniteTerms_ascendingBy leftAscending middleAscending) rightAscending
      (by omega),
    otherMergesAll.eq_ofLists leftAscending
      (uniteTerms_ascendingBy middleAscending rightAscending) (by omega),
    uniteTerms_assoc leftAscending middleAscending rightAscending docs secondDocs thirdDocs]
  exact alike_ofLists _ _ _

/-- A preindex merged with itself or with a copy stays as it is. -/
theorem Merges.self (opened : first.Opened) (secondOpened : second.Opened)
    (alike : first.Alike second) (merges : first.Merges second merged) : merged.Alike first := by
  obtain ⟨left, isFirst, leftAscending, leftSmall⟩ := opened.exists_ofLists
  obtain ⟨right, isSecond, rightAscending, rightSmall⟩ := secondOpened.exists_ofLists
  have same : left = right := by
    have lists := alike.lists_eq
    rw [isFirst, isSecond, lists_ofLists (by omega), lists_ofLists (by omega)] at lists
    exact Except.ok.inj lists
  subst same
  rw [isFirst, isSecond] at merges
  rw [merges.eq_ofLists leftAscending leftAscending (by omega), uniteTerms_self, isFirst]
  exact alike_ofLists _ _ _

/-- An empty preindex has nothing to add. -/
theorem Merges.empty (opened : first.Opened) (emptyOpened : second.Opened)
    (empty : second.terms = #[])
    (merges : first.Merges second merged ∨ second.Merges first merged) : merged.Alike first := by
  obtain ⟨left, isFirst, leftAscending, leftSmall⟩ := opened.exists_ofLists
  obtain ⟨right, isSecond, rightAscending, rightSmall⟩ := emptyOpened.exists_ofLists
  have nothing : right = [] := by
    rw [isSecond, ofLists] at empty
    simpa using empty
  subst nothing
  rw [isFirst, isSecond] at merges
  have isMerged : merged = ofLists merged.files left := by
    rcases merges with onRight | onLeft
    · have united := onRight.eq_ofLists leftAscending rightAscending (by omega)
      rwa [uniteTerms_comm, uniteTerms] at united
    · have united := onLeft.eq_ofLists rightAscending leftAscending (by omega)
      rwa [uniteTerms] at united
  rw [isMerged, isFirst]
  exact alike_ofLists _ _ _

end

/-- Merging is the union. Any two open preindexes, whatever their postings are, are merged into
the union of both, which is found in its new files again, unless the system refuses these
files, which it does not do when it is willing and the next name is free; there is no other way
to end. The result is the same for sides that change places, for one side and a copy of it, and
for an empty side, and with ascending documents for unions taken in another order. -/
theorem merge_is_union :
    (∀ left right : Preindex, left.Opened → right.Opened → ∀ (directory : Path) (world : World),
      (∃ merged after, (merge directory left right).perform world = (.ok merged, after) ∧
        load merged.files after.files = .ok merged ∧ UnionOf left right merged) ∨
      ¬ Room directory world ∧ ∃ reason after,
        (merge directory left right).perform world = (.error (.error (.files reason)), after)) ∧
    (∀ left right : Preindex, left.Opened → right.Opened → ∀ merged other,
      left.Merges right merged → right.Merges left other → merged.Alike other) ∧
    (∀ left middle right : Preindex, left.Opened → middle.Opened → right.Opened →
      left.DocsAscend → middle.DocsAscend → right.DocsAscend → ∀ inFront merged behind other,
      left.Merges middle inFront → inFront.Merges right merged →
      middle.Merges right behind → left.Merges behind other → merged.Alike other) ∧
    (∀ left right : Preindex, left.Opened → right.Opened → left.Alike right →
      ∀ merged, left.Merges right merged → merged.Alike left) ∧
    (∀ preindex empty : Preindex, preindex.Opened → empty.Opened → empty.terms = #[] →
      ∀ merged, (preindex.Merges empty merged ∨ empty.Merges preindex merged) →
        merged.Alike preindex) := by
  refine ⟨fun left right leftOpened rightOpened directory world => ?_,
    fun _ _ leftOpened rightOpened _ _ => Merges.comm leftOpened rightOpened,
    fun _ _ _ leftOpened middleOpened rightOpened leftDocs middleDocs rightDocs _ _ _ _ =>
      Merges.assoc leftOpened middleOpened rightOpened leftDocs middleDocs rightDocs,
    fun _ _ leftOpened rightOpened alike _ => Merges.self leftOpened rightOpened alike,
    fun _ _ opened emptyOpened isEmpty _ => Merges.empty opened emptyOpened isEmpty⟩
  rcases (leftOpened.merge_ends rightOpened directory world).cases with
    ⟨merged, after, performed, loaded, isUnion⟩ | ⟨_, after, performed, noRoom, reason, rfl⟩
  · exact .inl ⟨merged, after, performed, loaded, isUnion⟩
  · exact .inr ⟨noRoom, reason, after, performed⟩

end Preindex

/-! ### Three preindexes -/

/-- The files of three preindexes below the root: two terms, the first in two documents; one of
these terms with other flags and a term without documents; nothing. -/
def threePreindexes : World where
  files := {
    nodes := [(["preindex-left.words"], .file (wordsToBytes [3, 7])),
      (["preindex-left.counts"], .file (wordsToBytes [2, 1])),
      (["preindex-left.docs"], .file (wordsToBytes [10, 1, 20, 2, 10, 4])),
      (["preindex-right.words"], .file (wordsToBytes [7, 9])),
      (["preindex-right.counts"], .file (wordsToBytes [2, 0])),
      (["preindex-right.docs"], .file (wordsToBytes [10, 1, 30, 2])),
      (["preindex-empty.words"], .file []), (["preindex-empty.counts"], .file []),
      (["preindex-empty.docs"], .file [])]
    workingDirectory := [] }
  stems := fun draw => toString draw
  drawn := 0
  log := []
  opened := 0
  warned := []

namespace threePreindexes

def left : Preindex :=
  .ofLists ⟨Path.ofText "/", "preindex-left"⟩ [(3, [⟨10, 1⟩, ⟨20, 2⟩]), (7, [⟨10, 4⟩])]

def right : Preindex :=
  .ofLists ⟨Path.ofText "/", "preindex-right"⟩ [(7, [⟨10, 1⟩, ⟨30, 2⟩]), (9, [])]

def empty : Preindex := .ofLists ⟨Path.ofText "/", "preindex-empty"⟩ []

theorem left_opened : left.Opened :=
  Preindex.opened_of_reads threePreindexes.files rfl rfl rfl
    (by unfold AscendingBy; decide) ⟨by decide, by decide⟩

theorem right_opened : right.Opened :=
  Preindex.opened_of_reads threePreindexes.files rfl rfl rfl
    (by unfold AscendingBy; decide) ⟨by decide, by decide⟩

theorem empty_opened : empty.Opened :=
  Preindex.opened_of_reads threePreindexes.files rfl rfl rfl ascendingBy_nil
    ⟨by decide, by decide⟩

theorem left_ascends : left.DocsAscend :=
  (Preindex.docsAscend_ofLists (by decide)).mpr (by unfold AscendingBy; decide)

theorem right_ascends : right.DocsAscend :=
  (Preindex.docsAscend_ofLists (by decide)).mpr (by unfold AscendingBy; decide)

theorem left_lists : left.Says 7 10 4 :=
  ⟨#[10, 4], ⟨1, by decide⟩, List.mem_singleton.mpr rfl⟩

theorem right_lists : right.Says 7 10 1 :=
  ⟨#[10, 1, 30, 2], ⟨0, by decide⟩, List.mem_cons_self⟩

/-- What merging two preindexes in this world ends with. -/
def outcome (first second : Preindex) : Except (Failure StorageError) Preindex :=
  ((Preindex.merge (Path.ofText "/") first second).perform threePreindexes).1

theorem exists_merges (first second : Preindex) (succeeds : (outcome first second).isOk = true) :
    ∃ merged, outcome first second = .ok merged ∧ first.Merges second merged := by
  cases isMerged : outcome first second with
  | ok merged => exact ⟨merged, rfl, _, _, _, Prod.ext isMerged rfl⟩
  | error failure =>
    rw [isMerged] at succeeds
    cases succeeds

end threePreindexes

open threePreindexes in
theorem merge_is_union_of_three :
    (∃ merged, left.Merges right merged ∧ Preindex.UnionOf left right merged ∧
      merged.Says 7 10 5) ∧
    (∃ merged other, left.Merges right merged ∧ right.Merges left other ∧ merged.Alike other) ∧
    (∃ inFront merged behind other, left.Merges right inFront ∧ inFront.Merges left merged ∧
      right.Merges left behind ∧ left.Merges behind other ∧ merged.Alike other) ∧
    (∃ merged, left.Merges left merged ∧ merged.Alike left) ∧
    ∃ merged, left.Merges empty merged ∧ merged.Alike left := by
  obtain ⟨ends, commutes, associates, repeats, nothing⟩ := Preindex.merge_is_union
  obtain ⟨inFront, isInFront, frontMerges⟩ := exists_merges left right (by decide +kernel)
  obtain ⟨behind, isBehind, behindMerges⟩ := exists_merges right left (by decide +kernel)
  refine ⟨?_, ⟨_, _, frontMerges, behindMerges, commutes _ _ left_opened right_opened _ _
    frontMerges behindMerges⟩, ?_, ?_, ?_⟩
  · rcases ends left right left_opened right_opened (Path.ofText "/") threePreindexes with
      ⟨merged, after, performed, -, isUnion⟩ | ⟨-, reason, after, performed⟩
    · refine ⟨merged, ⟨_, _, _, performed⟩, isUnion, ?_⟩
      exact (isUnion.lists left_ascends right_ascends 7 10 5).mpr
        (.inr (.inr ⟨4, 1, left_lists, right_lists, by decide⟩))
    · rw [outcome, performed] at isInFront
      cases isInFront
  · have mergesAgain :
        ((outcome left right).bind fun merged => outcome merged left).isOk = true := by
      decide +kernel
    have joinsAgain :
        ((outcome right left).bind fun merged => outcome left merged).isOk = true := by
      decide +kernel
    rw [isInFront] at mergesAgain
    rw [isBehind] at joinsAgain
    obtain ⟨merged, -, merges⟩ := exists_merges _ _ mergesAgain
    obtain ⟨other, -, otherMerges⟩ := exists_merges _ _ joinsAgain
    exact ⟨_, _, _, _, frontMerges, merges, behindMerges, otherMerges,
      associates _ _ _ left_opened right_opened left_opened left_ascends right_ascends left_ascends
        _ _ _ _ frontMerges merges behindMerges otherMerges⟩
  · obtain ⟨merged, -, merges⟩ := exists_merges left left (by decide +kernel)
    exact ⟨merged, merges, repeats _ _ left_opened left_opened ⟨rfl, fun _ => rfl⟩ _ merges⟩
  · obtain ⟨merged, -, merges⟩ := exists_merges left empty (by decide +kernel)
    exact ⟨merged, merges, nothing _ _ left_opened empty_opened rfl _ (.inl merges)⟩

end InvertedIndex
