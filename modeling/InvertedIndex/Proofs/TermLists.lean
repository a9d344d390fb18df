/-
This file proves that grouping, collapsing and uniting lead to one normal form. What some
postings say is a listing: the flags that each term has in each document. Lists by term
in which terms and documents ascend and no term is without documents are determined by
the listing they stand for. The lists made from the entries of a shard stand for the
listing of its postings, and the union of two such lists stands for both listings
together, so the order of entries, shards and unions leaves no trace.
-/

import InvertedIndex.Preindex
import InvertedIndex.Proofs.Collapsing
import InvertedIndex.Proofs.Postings
import Mathlib.Data.List.SplitBy

namespace InvertedIndex

/-! ### Listings -/

/-- The flags of each term in each document, or nothing where it is not listed. -/
abbrev Listing := Term → DocId → Option Metadata

/-- What two listings say together. -/
def Listing.both (first second : Listing) : Listing := fun term doc =>
  bothFlags (first term doc) (second term doc)

/-- The postings of one term, in their order. -/
def postingsFor (postings : List (Term × Posting)) (term : Term) : List Posting :=
  (postings.filter fun posting => posting.1 == term).map (·.2)

/-- What some postings say. -/
def listingOf (postings : List (Term × Posting)) : Listing := fun term doc =>
  combineAll (flagsOf (postingsFor postings term) doc)

theorem postingsFor_append (left right : List (Term × Posting)) (term : Term) :
    postingsFor (left ++ right) term = postingsFor left term ++ postingsFor right term := by
  rw [postingsFor, List.filter_append, List.map_append]
  rfl

theorem listingOf_append (left right : List (Term × Posting)) :
    listingOf (left ++ right) = (listingOf left).both (listingOf right) := by
  funext term doc
  rw [listingOf, postingsFor_append, flagsOf, List.filter_append, List.map_append,
    combineAll_append]
  rfl

theorem listingOf_perm {left right : List (Term × Posting)} (same : left.Perm right) :
    listingOf left = listingOf right := by
  funext term doc
  exact combineAll_perm (flagsOf_perm ((same.filter _).map _) doc)

/-! ### The normal form -/

/-- The flags of a term in a document, in lists by term. -/
def flagsAt (lists : List (Term × List Posting)) : Listing := fun term doc =>
  (lookupBy Prod.fst lists term).bind fun list => flagsIn list.2 doc

/-- Lists in normal form that stand for a listing. -/
structure Denotes (lists : List (Term × List Posting)) (listing : Listing) : Prop where
  terms : AscendingBy Prod.fst lists
  docs : ∀ list ∈ lists, AscendingBy Pair.key list.2
  inhabited : ∀ list ∈ lists, list.2 ≠ []
  flags : flagsAt lists = listing

namespace Denotes

variable {left right : List (Term × List Posting)} {first second listing : Listing}

/-- A term of the lists has flags in some document. -/
theorem exists_flags (denotes : Denotes left listing) {term : Term} {list : Term × List Posting}
    (lookup : lookupBy Prod.fst left term = some list) : ∃ doc, listing term doc ≠ none := by
  obtain ⟨posting, member⟩ :=
    List.exists_mem_of_ne_nil _ (denotes.inhabited list (keyOf_of_lookupBy lookup).1)
  refine ⟨posting.key, ?_⟩
  rw [← denotes.flags, flagsAt, lookup, Option.bind_some, Ne, flagsIn_eq_none_iff]
  exact fun absent => absent posting member rfl

/-- The terms of the lists are those with flags in some document. -/
theorem lookupBy_ne_none_iff (denotes : Denotes left listing) {term : Term} :
    lookupBy Prod.fst left term ≠ none ↔ ∃ doc, listing term doc ≠ none := by
  constructor
  · intro present
    obtain ⟨list, found⟩ := Option.ne_none_iff_exists'.mp present
    exact denotes.exists_flags found
  · rintro ⟨doc, listed⟩ absent
    rw [← denotes.flags, flagsAt, absent] at listed
    exact listed rfl

/-- Lists in normal form are determined by their listing. -/
theorem unique (leftDenotes : Denotes left listing) (rightDenotes : Denotes right listing) :
    left = right := by
  refine eq_of_lookupBy_eq leftDenotes.terms rightDenotes.terms fun term => ?_
  have same : flagsAt left term = flagsAt right term := by
    rw [leftDenotes.flags, rightDenotes.flags]
  unfold flagsAt at same
  cases onLeft : lookupBy Prod.fst left term with
  | none =>
    cases onRight : lookupBy Prod.fst right term with
    | none => rfl
    | some list =>
      obtain ⟨doc, listed⟩ := rightDenotes.exists_flags onRight
      rw [← leftDenotes.flags, flagsAt, onLeft] at listed
      exact absurd rfl listed
  | some firstList =>
    cases onRight : lookupBy Prod.fst right term with
    | none =>
      obtain ⟨doc, listed⟩ := leftDenotes.exists_flags onLeft
      rw [← rightDenotes.flags, flagsAt, onRight] at listed
      exact absurd rfl listed
    | some secondList =>
      obtain ⟨firstMember, firstTerm⟩ := keyOf_of_lookupBy onLeft
      obtain ⟨secondMember, secondTerm⟩ := keyOf_of_lookupBy onRight
      rw [onLeft, onRight] at same
      have lists : firstList.2 = secondList.2 :=
        eq_of_flagsIn_eq (leftDenotes.docs _ firstMember) (rightDenotes.docs _ secondMember)
          fun doc => congrFun same doc
      rw [Prod.ext (firstTerm.trans secondTerm.symm) lists]

end Denotes

/-! ### Unions -/

/-- Two lists of the same term as one. -/
def joinLists (first second : Term × List Posting) : Term × List Posting :=
  (first.1, unite first.2 second.2)

theorem key_joinLists (first second : Term × List Posting) (_same : first.1 = second.1) :
    (joinLists first second).1 = first.1 := rfl

theorem uniteTerms_eq_uniteBy (left right : List (Term × List Posting)) :
    uniteTerms left right = uniteBy Prod.fst joinLists left right := by
  fun_induction uniteTerms left right with
  | case1 right => rw [uniteBy]
  | case2 left nonempty => rw [uniteBy]; exact nonempty
  | case3 first left second right before inductionHypothesis =>
    rw [uniteBy, if_pos before, inductionHypothesis]
  | case4 first left second right notBefore after inductionHypothesis =>
    rw [uniteBy, if_neg notBefore, if_pos after, inductionHypothesis]
  | case5 first left second right notBefore notAfter inductionHypothesis =>
    rw [uniteBy, if_neg notBefore, if_neg notAfter, inductionHypothesis]
    rfl

theorem unite_ne_nil {left right : List Posting} (leftAscending : AscendingBy Pair.key left)
    (rightAscending : AscendingBy Pair.key right) (inhabited : left ≠ []) :
    unite left right ≠ [] := by
  intro empty
  obtain ⟨posting, member⟩ := List.exists_mem_of_ne_nil _ inhabited
  have nothing := flagsIn_unite leftAscending rightAscending posting.key
  rw [empty, bothFlags] at nothing
  exact flagsIn_eq_none_iff.mp (Option.merge_eq_none_iff.mp nothing.symm).1 posting member rfl

section

variable {left right : List (Term × List Posting)}

theorem uniteTerms_comm (left right : List (Term × List Posting)) :
    uniteTerms left right = uniteTerms right left := by
  rw [uniteTerms_eq_uniteBy, uniteTerms_eq_uniteBy]
  refine uniteBy_comm (fun first second same => ?_) left right
  rw [joinLists, joinLists, same, unite_comm]

@[simp]
theorem uniteTerms_self (lists : List (Term × List Posting)) : uniteTerms lists lists = lists := by
  rw [uniteTerms_eq_uniteBy]
  refine uniteBy_self (fun list => ?_) lists
  rw [joinLists, unite_self]

theorem uniteTerms_assoc {left middle right : List (Term × List Posting)}
    (leftAscending : AscendingBy Prod.fst left) (middleAscending : AscendingBy Prod.fst middle)
    (rightAscending : AscendingBy Prod.fst right)
    (leftDocs : ∀ list ∈ left, AscendingBy Pair.key list.2)
    (middleDocs : ∀ list ∈ middle, AscendingBy Pair.key list.2)
    (rightDocs : ∀ list ∈ right, AscendingBy Pair.key list.2) :
    uniteTerms (uniteTerms left middle) right = uniteTerms left (uniteTerms middle right) := by
  simp only [uniteTerms_eq_uniteBy]
  refine uniteBy_assoc key_joinLists leftAscending middleAscending rightAscending
    fun first isFirst second isSecond third isThird => ?_
  simp only [joinLists, unite_assoc (leftDocs first isFirst) (middleDocs second isSecond)
    (rightDocs third isThird)]

variable (leftAscending : AscendingBy Prod.fst left) (rightAscending : AscendingBy Prod.fst right)

include leftAscending rightAscending

theorem uniteTerms_ascendingBy : AscendingBy Prod.fst (uniteTerms left right) := by
  rw [uniteTerms_eq_uniteBy]
  exact uniteBy_ascendingBy key_joinLists leftAscending rightAscending

theorem lookupBy_uniteTerms (term : Term) :
    lookupBy Prod.fst (uniteTerms left right) term = Option.merge joinLists
      (lookupBy Prod.fst left term) (lookupBy Prod.fst right term) := by
  rw [uniteTerms_eq_uniteBy]
  exact lookupBy_uniteBy key_joinLists leftAscending rightAscending term

/-- A list of the union comes from one side, or is the union of a list from each side. -/
theorem origin_of_mem_uniteTerms {list : Term × List Posting}
    (member : list ∈ uniteTerms left right) : list ∈ left ∨ list ∈ right ∨
      ∃ onLeft ∈ left, ∃ onRight ∈ right, list = joinLists onLeft onRight := by
  have found := lookupBy_of_mem (uniteTerms_ascendingBy leftAscending rightAscending) member
  rw [lookupBy_uniteTerms leftAscending rightAscending] at found
  cases onLeft : lookupBy Prod.fst left list.1 with
  | none =>
    rw [onLeft, Option.merge_none_left] at found
    exact .inr (.inl (keyOf_of_lookupBy found).1)
  | some firstList =>
    cases onRight : lookupBy Prod.fst right list.1 with
    | none =>
      rw [onLeft, onRight, Option.merge_none_right] at found
      exact .inl (Option.some.inj found ▸ (keyOf_of_lookupBy onLeft).1)
    | some secondList =>
      rw [onLeft, onRight, Option.merge_some_some] at found
      exact .inr (.inr ⟨firstList, (keyOf_of_lookupBy onLeft).1, secondList,
        (keyOf_of_lookupBy onRight).1, (Option.some.inj found).symm⟩)

variable (leftDocs : ∀ list ∈ left, AscendingBy Pair.key list.2)
  (rightDocs : ∀ list ∈ right, AscendingBy Pair.key list.2)

include leftDocs rightDocs

theorem uniteTerms_docs : ∀ list ∈ uniteTerms left right, AscendingBy Pair.key list.2 := by
  intro list member
  rcases origin_of_mem_uniteTerms leftAscending rightAscending member with
    onLeft | onRight | ⟨firstList, onLeft, secondList, onRight, rfl⟩
  · exact leftDocs list onLeft
  · exact rightDocs list onRight
  · exact unite_ascendingBy (leftDocs _ onLeft) (rightDocs _ onRight)

/-- A union says what both sides say together. -/
theorem flagsAt_uniteTerms :
    flagsAt (uniteTerms left right) = (flagsAt left).both (flagsAt right) := by
  funext term doc
  rw [Listing.both, flagsAt, flagsAt, flagsAt, lookupBy_uniteTerms leftAscending rightAscending]
  cases onLeft : lookupBy Prod.fst left term with
  | none => simp
  | some firstList =>
    cases onRight : lookupBy Prod.fst right term with
    | none => simp
    | some secondList =>
      rw [Option.merge_some_some, Option.bind_some, Option.bind_some, Option.bind_some]
      exact flagsIn_unite (leftDocs _ (keyOf_of_lookupBy onLeft).1)
        (rightDocs _ (keyOf_of_lookupBy onRight).1) doc

end

/-- The union of two lists in normal form is in normal form and stands for both listings. -/
theorem Denotes.unite {left right : List (Term × List Posting)} {first second : Listing}
    (leftDenotes : Denotes left first) (rightDenotes : Denotes right second) :
    Denotes (uniteTerms left right) (first.both second) where
  terms := uniteTerms_ascendingBy leftDenotes.terms rightDenotes.terms
  docs := uniteTerms_docs leftDenotes.terms rightDenotes.terms leftDenotes.docs rightDenotes.docs
  inhabited list member := by
    rcases origin_of_mem_uniteTerms leftDenotes.terms rightDenotes.terms member with
      onLeft | onRight | ⟨firstList, onLeft, secondList, onRight, rfl⟩
    · exact leftDenotes.inhabited list onLeft
    · exact rightDenotes.inhabited list onRight
    · exact unite_ne_nil (leftDenotes.docs _ onLeft) (rightDenotes.docs _ onRight)
        (leftDenotes.inhabited _ onLeft)
  flags := by
    rw [flagsAt_uniteTerms leftDenotes.terms rightDenotes.terms leftDenotes.docs
      rightDenotes.docs, leftDenotes.flags, rightDenotes.flags]

/-! ### Grouping -/

/-- Groups of postings under the term of their first posting. -/
def underTerms (groups : List (List (Term × Posting))) : List (Term × List Posting) :=
  groups.filterMap fun group => group.head?.map fun posting => (posting.1, group.map (·.2))

theorem underTerms_cons (first : Term × Posting) (rest : List (Term × Posting))
    (groups : List (List (Term × Posting))) :
    underTerms ((first :: rest) :: groups) =
      (first.1, (first :: rest).map (·.2)) :: underTerms groups := rfl

/-- The term of a group is the term of some posting. -/
theorem exists_mem_of_mem_underTerms {groups : List (List (Term × Posting))}
    {list : Term × List Posting} (member : list ∈ underTerms groups) :
    ∃ posting ∈ groups.flatten, posting.1 = list.1 := by
  obtain ⟨group, isGroup, isList⟩ := List.mem_filterMap.mp member
  obtain ⟨posting, isHead, rfl⟩ := Option.map_eq_some_iff.mp isList
  exact ⟨posting, List.mem_flatten.mpr ⟨group, isGroup, List.mem_of_head? isHead⟩, rfl⟩

theorem postingsFor_eq_nil_iff {postings : List (Term × Posting)} {term : Term} :
    postingsFor postings term = [] ↔ ∀ posting ∈ postings, posting.1 ≠ term := by
  rw [postingsFor, List.map_eq_nil_iff, List.filter_eq_nil_iff]
  simp only [beq_iff_eq]

theorem postingsFor_eq_self {postings : List (Term × Posting)} {term : Term}
    (uniform : ∀ posting ∈ postings, posting.1 = term) :
    postingsFor postings term = postings.map (·.2) := by
  rw [postingsFor, List.filter_eq_self.mpr fun posting member =>
    beq_iff_eq.mpr (uniform posting member)]

/-- A run of postings under one term has the term of its first posting throughout. -/
theorem fst_eq_of_uniform {first : Term × Posting} {rest : List (Term × Posting)}
    (uniform : (first :: rest).Pairwise fun first second => first.1 = second.1) :
    ∀ posting ∈ first :: rest, posting.1 = first.1 := by
  intro posting member
  rcases List.mem_cons.mp member with rfl | later
  · rfl
  · exact (List.rel_of_pairwise_cons uniform later).symm

/-- Later runs have greater terms, since the next run begins with another term. -/
theorem lt_of_apart {first : Term × Posting} {rest : List (Term × Posting)}
    {groups : List (List (Term × Posting))}
    (sameTerm : ∀ posting ∈ first :: rest, posting.1 = first.1)
    (between : ∀ left ∈ first :: rest, ∀ right ∈ groups.flatten, left.1 ≤ right.1)
    (sorted : groups.flatten.Pairwise fun first second => first.1 ≤ second.1)
    (apart : ((first :: rest) :: groups).IsChain fun left right =>
      ∃ leftNonempty rightNonempty,
        ((left.getLast leftNonempty).1 == (right.head rightNonempty).1) = false) :
    ∀ posting ∈ groups.flatten, first.1 < posting.1 := by
  cases groups with
  | nil => exact fun posting member => absurd member List.not_mem_nil
  | cons next groups =>
    obtain ⟨⟨leftNonempty, rightNonempty, differs⟩, -⟩ := List.isChain_cons_cons.mp apart
    cases next with
    | nil => exact absurd rfl rightNonempty
    | cons second others =>
      have lastTerm := sameTerm _ (List.getLast_mem leftNonempty)
      rw [lastTerm, List.head_cons, beq_eq_false_iff_ne] at differs
      have before : first.1 < second.1 := UInt64.lt_of_le_of_ne
        (between first List.mem_cons_self second List.mem_cons_self) differs
      intro posting member
      rw [List.flatten_cons, List.cons_append] at member sorted
      rcases List.mem_cons.mp member with rfl | later
      · exact before
      · exact UInt64.lt_of_lt_of_le before (List.rel_of_pairwise_cons sorted later)

/-- Groups cut from sorted postings wherever the term changes: there is one for each term, and
it holds the postings of the term in their order. -/
theorem underTerms_spec {groups : List (List (Term × Posting))} (nonempty : [] ∉ groups)
    (uniform : ∀ group ∈ groups, group.Pairwise fun first second => first.1 = second.1)
    (sorted : groups.flatten.Pairwise fun first second => first.1 ≤ second.1)
    (apart : groups.IsChain fun left right => ∃ leftNonempty rightNonempty,
      ((left.getLast leftNonempty).1 == (right.head rightNonempty).1) = false) :
    AscendingBy Prod.fst (underTerms groups) ∧ ∀ term,
      lookupBy Prod.fst (underTerms groups) term =
        if postingsFor groups.flatten term = [] then none
        else some (term, postingsFor groups.flatten term) := by
  induction groups with
  | nil => exact ⟨ascendingBy_nil, fun term => rfl⟩
  | cons group groups inductionHypothesis =>
    rw [List.flatten_cons] at sorted
    obtain ⟨-, laterSorted, between⟩ := List.pairwise_append.mp sorted
    cases group with
    | nil => exact absurd List.mem_cons_self nonempty
    | cons first rest =>
      have sameTerm := fst_eq_of_uniform (uniform _ List.mem_cons_self)
      have above := lt_of_apart sameTerm between laterSorted apart
      obtain ⟨ascending, lookup⟩ := inductionHypothesis
        (fun member => nonempty (List.mem_cons_of_mem _ member))
        (fun other member => uniform other (List.mem_cons_of_mem _ member)) laterSorted apart.tail
      rw [underTerms_cons]
      refine ⟨ascendingBy_cons.mpr ⟨fun list member => ?_, ascending⟩, fun term => ?_⟩
      · obtain ⟨posting, isThere, same⟩ := exists_mem_of_mem_underTerms member
        exact same ▸ above posting isThere
      · rw [lookupBy_cons, List.flatten_cons, postingsFor_append]
        split
        · rename_i isTerm
          subst isTerm
          rw [postingsFor_eq_self sameTerm, postingsFor_eq_nil_iff.mpr fun posting member same =>
            UInt64.lt_irrefl _ (same ▸ above posting member), List.append_nil, if_neg nofun]
        · rename_i otherTerm
          rw [postingsFor_eq_nil_iff.mpr fun posting member same =>
            otherTerm ((sameTerm posting member).symm.trans same), List.nil_append]
          exact lookup term

section

variable {Payload : Type}

/-- The order by terms. -/
def termLE (first second : Term × Payload) : Bool := decide (first.1 ≤ second.1)

theorem termLE_trans (first second third : Term × Payload) (left : termLE first second)
    (right : termLE second third) : termLE first third :=
  decide_eq_true (UInt64.le_trans (of_decide_eq_true left) (of_decide_eq_true right))

theorem termLE_total (first second : Term × Payload) :
    termLE first second || termLE second first := by
  rw [Bool.or_eq_true, termLE, termLE, decide_eq_true_iff, decide_eq_true_iff]
  exact UInt64.le_total first.1 second.1

theorem mergeSort_termLE_sorted (elements : List (Term × Payload)) :
    (elements.mergeSort termLE).Pairwise fun first second => first.1 ≤ second.1 :=
  (List.pairwise_mergeSort termLE_trans termLE_total elements).imp of_decide_eq_true

end

/-- Sorting by term keeps the postings of each term in their order. -/
theorem postingsFor_mergeSort (postings : List (Term × Posting)) (term : Term) :
    postingsFor (postings.mergeSort termLE) term = postingsFor postings term := by
  have sameTerm : (postings.filter fun posting => posting.1 == term).Pairwise
      fun first second => termLE first second := by
    refine List.pairwise_of_forall_mem_list fun first isFirst second isSecond => ?_
    rw [termLE, eq_of_beq (List.mem_filter.mp isFirst).2, eq_of_beq (List.mem_filter.mp isSecond).2]
    exact decide_eq_true (UInt64.le_refl term)
  have inOrder := (List.sublist_mergeSort termLE_trans termLE_total sameTerm
    List.filter_sublist).filter fun posting => posting.1 == term
  rw [List.filter_filter] at inOrder
  simp only [Bool.and_self] at inOrder
  have sameLength := ((List.mergeSort_perm postings termLE).filter
    fun posting => posting.1 == term).length_eq
  rw [postingsFor, postingsFor, inOrder.eq_of_length sameLength.symm]

/-- Grouping gives each term that occurs its postings in their order, and nothing to others. -/
theorem groupByTerm_spec (postings : List (Term × Posting)) :
    AscendingBy Prod.fst (groupByTerm postings) ∧ ∀ term,
      lookupBy Prod.fst (groupByTerm postings) term =
        if postingsFor postings term = [] then none
        else some (term, postingsFor postings term) := by
  let sameTerm (first second : Term × Posting) : Bool := first.1 == second.1
  let byTerm := postings.mergeSort termLE
  have cut : (byTerm.splitBy sameTerm).flatten = byTerm := List.flatten_splitBy sameTerm byTerm
  have sorted : byTerm.Pairwise fun first second => first.1 ≤ second.1 :=
    mergeSort_termLE_sorted postings
  have uniform : ∀ group ∈ byTerm.splitBy sameTerm,
      group.Pairwise fun first second => first.1 = second.1 := by
    intro group member
    have : IsTrans (Term × Posting) fun first second => first.1 = second.1 :=
      ⟨fun _ _ _ => Eq.trans⟩
    exact List.isChain_iff_pairwise.mp
      ((List.isChain_of_mem_splitBy member).imp fun _ _ => eq_of_beq)
  obtain ⟨ascending, lookup⟩ := underTerms_spec (List.nil_notMem_splitBy sameTerm byTerm) uniform
    (cut.symm ▸ sorted) (List.isChain_getLast_head_splitBy sameTerm byTerm)
  refine ⟨ascending, fun term => ?_⟩
  have found := lookup term
  rwa [cut, postingsFor_mergeSort] at found

theorem mem_groupByTerm {postings : List (Term × Posting)} {term : Term} {list : List Posting} :
    (term, list) ∈ groupByTerm postings ↔ list ≠ [] ∧ list = postingsFor postings term := by
  obtain ⟨ascending, lookup⟩ := groupByTerm_spec postings
  constructor
  · intro member
    have found := lookupBy_of_mem ascending member
    rw [lookup term] at found
    split at found
    · cases found
    · rename_i present
      cases found
      exact ⟨present, rfl⟩
  · rintro ⟨present, rfl⟩
    have found := lookup term
    rw [if_neg present] at found
    exact (keyOf_of_lookupBy found).1

/-- Groups that hold the postings of each term that occurs, sorted by their terms. -/
theorem eq_groupByTerm {postings : List (Term × Posting)} {groups : List (Term × List Posting)}
    (distinct : (groups.map (·.1)).Nodup)
    (sorted : groups.Pairwise fun first second => first.1 ≤ second.1)
    (grouped : ∀ term list, (term, list) ∈ groups ↔ list ≠ [] ∧ list = postingsFor postings term) :
    groups = groupByTerm postings := by
  have groupsAscend : AscendingBy Prod.fst groups :=
    List.pairwise_map.mpr (sorted.imp₂ (fun _ _ ordered differs =>
      UInt64.lt_of_le_of_ne ordered differs) (List.pairwise_map.mp distinct))
  refine eq_of_mem_iff groupsAscend (groupByTerm_spec postings).1 fun ⟨term, list⟩ => ?_
  rw [grouped, mem_groupByTerm]

/-- Whatever the order in which a grouping hands out its terms, sorting by term gives the same
groups. -/
theorem groupByTerm_eq_of_grouped {postings : List (Term × Posting)}
    {groups : List (Term × List Posting)} (distinct : (groups.map (·.1)).Nodup)
    (grouped : ∀ term list, (term, list) ∈ groups ↔ list ≠ [] ∧ list = postingsFor postings term) :
    groups.mergeSort termLE = groupByTerm postings := by
  have same := List.mergeSort_perm groups termLE
  exact eq_groupByTerm ((same.map (·.1)).nodup_iff.mpr distinct) (mergeSort_termLE_sorted groups)
    fun term list => same.mem_iff.trans (grouped term list)

/-! ### The lists of a shard -/

/-- The postings of some entries under their terms, the documents renumbered. -/
def postingsOf (entries : List Entry) (renumber : DocId → DocId) : List (Term × Posting) :=
  entries.flatMap fun entry =>
    entry.terms.map fun listed => (listed.1, ⟨renumber entry.doc, listed.2⟩)

/-- The flags that some entries give a term in a document, a word for each time that it is
listed there. -/
def flagsFrom (entries : List Entry) (renumber : DocId → DocId) (term : Term) (doc : DocId) :
    List Metadata :=
  entries.flatMap fun entry =>
    if renumber entry.doc = doc then
      (entry.terms.filter fun listed => listed.1 == term).map (·.2)
    else []

theorem mem_flagsFrom {entries : List Entry} {renumber : DocId → DocId} {term : Term}
    {doc : DocId} {flags : Metadata} : flags ∈ flagsFrom entries renumber term doc ↔
      ∃ entry ∈ entries, renumber entry.doc = doc ∧ (term, flags) ∈ entry.terms := by
  rw [flagsFrom, List.mem_flatMap]
  refine exists_congr fun entry => and_congr_right fun _ => ?_
  by_cases isDoc : renumber entry.doc = doc
  · rw [if_pos isDoc, List.mem_map]
    constructor
    · rintro ⟨⟨other, _⟩, member, rfl⟩
      obtain ⟨listed, isTerm⟩ := List.mem_filter.mp member
      have same : other = term := eq_of_beq isTerm
      exact ⟨isDoc, same ▸ listed⟩
    · rintro ⟨-, listed⟩
      exact ⟨_, List.mem_filter.mpr ⟨listed, beq_self_eq_true term⟩, rfl⟩
  · rw [if_neg isDoc]
    exact ⟨fun member => absurd member List.not_mem_nil, fun both => absurd both.1 isDoc⟩

/-- The flags of one entry. -/
theorem flagsOf_entry (entry : Entry) (renumber : DocId → DocId) (term : Term) (doc : DocId) :
    flagsOf (postingsFor (entry.terms.map fun listed =>
        (listed.1, (⟨renumber entry.doc, listed.2⟩ : Posting))) term) doc =
      if renumber entry.doc = doc then
        (entry.terms.filter fun listed => listed.1 == term).map (·.2)
      else [] := by
  rw [flagsOf, postingsFor, List.filter_map]
  by_cases isDoc : renumber entry.doc = doc
  · simp [isDoc, List.filter_map, Function.comp_def]
  · simp [isDoc, List.filter_map, Function.comp_def]

/-- The postings of the entries hold the flags that they give. -/
theorem flagsOf_postingsOf (entries : List Entry) (renumber : DocId → DocId) (term : Term)
    (doc : DocId) : flagsOf (postingsFor (postingsOf entries renumber) term) doc =
      flagsFrom entries renumber term doc := by
  induction entries with
  | nil => rfl
  | cons entry rest inductionHypothesis =>
    rw [flagsFrom, List.flatMap_cons, ← flagsFrom, ← inductionHypothesis, ← flagsOf_entry,
      postingsOf, List.flatMap_cons, postingsFor_append, flagsOf, List.filter_append,
      List.map_append]
    rfl

/-- The number of postings in lists by term. -/
def countPostings : List (Term × List Posting) → Nat
  | [] => 0
  | list :: rest => list.2.length + countPostings rest

/-- The collapsed postings of a term, sorted first. -/
def settle (backend : Backend) (list : Term × List Posting) : Term × List Posting :=
  (list.1, collapsed (backend.sort Pair.le list.2))

theorem listsOf_eq (entries : List Entry) (renumber : DocId → DocId) (backend : Backend) :
    Preindex.listsOf entries renumber backend =
      (groupByTerm (postingsOf entries renumber)).map (settle backend) := by
  rw [Preindex.listsOf]
  refine List.map_congr_left fun ⟨term, postings⟩ _ => ?_
  dsimp only
  rw [toList_collapse]
  rfl

theorem lookupBy_map_settle (backend : Backend) (lists : List (Term × List Posting))
    (term : Term) :
    lookupBy Prod.fst (lists.map (settle backend)) term =
      (lookupBy Prod.fst lists term).map (settle backend) := by
  induction lists with
  | nil => rfl
  | cons first rest inductionHypothesis =>
    rw [List.map_cons, lookupBy_cons, lookupBy_cons, inductionHypothesis]
    show (if first.1 = term then _ else _) = _
    split <;> rfl

/-- The lists made from some entries are in normal form and stand for their postings, with
either backend. -/
theorem listsOf_denotes (entries : List Entry) (renumber : DocId → DocId) (backend : Backend) :
    Denotes (Preindex.listsOf entries renumber backend)
      (listingOf (postingsOf entries renumber)) := by
  obtain ⟨ascending, lookup⟩ := groupByTerm_spec (postingsOf entries renumber)
  rw [listsOf_eq]
  refine ⟨?_, fun list member => ?_, fun list member => ?_, ?_⟩
  · rw [AscendingBy, List.map_map]
    exact ascending
  · obtain ⟨group, -, rfl⟩ := List.mem_map.mp member
    exact collapsed_ascendingBy (backend.sort_sorted group.2)
  · obtain ⟨group, isGroup, rfl⟩ := List.mem_map.mp member
    have found := lookupBy_of_mem ascending isGroup
    rw [lookup group.1] at found
    split at found
    · cases found
    · rename_i inhabited
      have isList : postingsFor (postingsOf entries renumber) group.1 = group.2 :=
        congrArg Prod.snd (Option.some.inj found)
      refine collapsed_ne_nil fun empty => inhabited ?_
      rw [isList]
      exact List.perm_nil.mp (empty ▸ (backend.sort_perm group.2).symm)
  · funext term doc
    rw [flagsAt, lookupBy_map_settle, lookup term, listingOf]
    split
    · rename_i absent
      rw [absent]
      rfl
    · rw [Option.map_some, Option.bind_some]
      show flagsIn (collapsed (backend.sort Pair.le _)) doc = _
      rw [flagsIn_collapsed (backend.sort_sorted _)]
      exact combineAll_perm (flagsOf_perm (backend.sort_perm _) doc)

@[simp] theorem countPostings_underTerms (groups : List (List (Term × Posting))) :
    countPostings (underTerms groups) = groups.flatten.length := by
  induction groups with
  | nil => rfl
  | cons group groups inductionHypothesis =>
    cases group with
    | nil => exact inductionHypothesis
    | cons first rest =>
      rw [underTerms_cons, List.flatten_cons, List.length_append, ← inductionHypothesis,
        countPostings, List.length_map]

theorem countPostings_map_settle_le (backend : Backend) (lists : List (Term × List Posting)) :
    countPostings (lists.map (settle backend)) ≤ countPostings lists := by
  induction lists with
  | nil => exact Nat.le_refl 0
  | cons first rest inductionHypothesis =>
    have shrinks : (settle backend first).2.length ≤ first.2.length :=
      (length_collapsed_le _).trans (Nat.le_of_eq (backend.sort_perm first.2).length_eq)
    exact Nat.add_le_add shrinks inductionHypothesis

/-- Grouping and collapsing make no postings. -/
theorem countPostings_listsOf_le (entries : List Entry) (renumber : DocId → DocId)
    (backend : Backend) :
    countPostings (Preindex.listsOf entries renumber backend) ≤
      (postingsOf entries renumber).length := by
  have grouped : countPostings (groupByTerm (postingsOf entries renumber)) =
      (postingsOf entries renumber).length := by
    refine (countPostings_underTerms _).trans ?_
    rw [List.flatten_splitBy, List.length_mergeSort]
  rw [listsOf_eq, ← grouped]
  exact countPostings_map_settle_le backend _

end InvertedIndex
