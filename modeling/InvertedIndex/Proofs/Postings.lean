/-
This file proves what collapsing and uniting postings do to the flags of each document.
A document in a list of postings has the flags of all its postings there, combined; how
often and in which order they come makes no difference. Collapsing sorted postings leaves
one posting for each document with these flags, and the union of two lists in document
order gives each document the flags of both sides.
-/

import InvertedIndex.Proofs.KeyedLists

namespace InvertedIndex

/-! ### Combined flags -/

instance : Std.Associative combine := ⟨UInt64.or_assoc⟩

instance : Std.Commutative combine := ⟨UInt64.or_comm⟩

/-- What two sources say about the flags of a document, taken together. -/
def bothFlags (first second : Option Metadata) : Option Metadata :=
  Option.merge combine first second

@[simp] theorem bothFlags_none (flags : Option Metadata) : bothFlags flags none = flags :=
  Option.merge_none_right

@[simp] theorem none_bothFlags (flags : Option Metadata) : bothFlags none flags = flags :=
  Option.merge_none_left

theorem bothFlags_assoc (first second third : Option Metadata) :
    bothFlags (bothFlags first second) third = bothFlags first (bothFlags second third) := by
  unfold bothFlags
  exact Std.Associative.assoc first second third

theorem bothFlags_comm (first second : Option Metadata) :
    bothFlags first second = bothFlags second first := by
  unfold bothFlags
  exact Std.Commutative.comm first second

/-- Together they say what one of them says alone, or what both say combined. -/
theorem bothFlags_eq_some_iff {first second : Option Metadata} {flags : Metadata} :
    bothFlags first second = some flags ↔
      (first = some flags ∧ ¬ ∃ other, second = some other) ∨
      (second = some flags ∧ ¬ ∃ other, first = some other) ∨
      ∃ one other, first = some one ∧ second = some other ∧ flags = one ||| other := by
  cases first with
  | none => simp
  | some one =>
    cases second with
    | none => simp
    | some other => simp [bothFlags, combine, eq_comm]

/-- All of these flags combined, or nothing when there are none. -/
def combineAll : List Metadata → Option Metadata
  | [] => none
  | flags :: rest => bothFlags (some flags) (combineAll rest)

@[simp] theorem combineAll_append (left right : List Metadata) :
    combineAll (left ++ right) = bothFlags (combineAll left) (combineAll right) := by
  induction left with
  | nil => simp [combineAll]
  | cons flags rest inductionHypothesis =>
    rw [List.cons_append, combineAll, inductionHypothesis, combineAll, bothFlags_assoc]

theorem combineAll_perm {left right : List Metadata} (same : left.Perm right) :
    combineAll left = combineAll right := by
  induction same with
  | nil => rfl
  | cons flags _ inductionHypothesis => rw [combineAll, combineAll, inductionHypothesis]
  | swap first second rest =>
    simp only [combineAll]
    rw [← bothFlags_assoc, ← bothFlags_assoc, bothFlags_comm (some second)]
  | trans _ _ first second => exact first.trans second

@[simp] theorem bothFlags_self (flags : Option Metadata) : bothFlags flags flags = flags := by
  cases flags with
  | none => rfl
  | some word => exact congrArg some (UInt64.or_self)

/-- Flags that are already there add nothing. -/
theorem combineAll_append_of_subset {left right : List Metadata}
    (inside : ∀ flags ∈ left, flags ∈ right) : combineAll (left ++ right) = combineAll right := by
  induction left with
  | nil => rfl
  | cons flags rest inductionHypothesis =>
    obtain ⟨before, behind, rfl⟩ := List.append_of_mem (inside flags List.mem_cons_self)
    rw [List.cons_append, combineAll,
      inductionHypothesis fun other member => inside other (List.mem_cons_of_mem _ member),
      combineAll_perm List.perm_middle, combineAll, ← bothFlags_assoc, bothFlags_self]

/-- It only matters which flags there are, not in which order or how often. -/
theorem combineAll_congr {left right : List Metadata}
    (same : ∀ flags, flags ∈ left ↔ flags ∈ right) : combineAll left = combineAll right := by
  rw [← combineAll_append_of_subset fun flags => (same flags).mpr,
    combineAll_perm List.perm_append_comm,
    combineAll_append_of_subset fun flags => (same flags).mp]

/-- All flags combined are their disjunction. -/
theorem combineAll_eq (flags : List Metadata) :
    combineAll flags = if flags = [] then none else some (flags.foldl (· ||| ·) 0) := by
  have started (start : Metadata) (rest : List Metadata) :
      bothFlags (some start) (combineAll rest) = some (rest.foldl (· ||| ·) start) := by
    induction rest generalizing start with
    | nil => rfl
    | cons next rest inductionHypothesis =>
      rw [combineAll, ← bothFlags_assoc, List.foldl_cons]
      exact inductionHypothesis (start ||| next)
  cases flags with
  | nil => rfl
  | cons first rest =>
    rw [combineAll, started, if_neg (List.cons_ne_nil _ _), List.foldl_cons, UInt64.zero_or]

/-! ### The flags of a document -/

/-- The flags that some postings give to a document, one word for each posting. -/
def flagsOf (postings : List Posting) (doc : DocId) : List Metadata :=
  (postings.filter fun posting => posting.key == doc).map (·.payload)

/-- The flags of a document in a list in document order. -/
def flagsIn (postings : List Posting) (doc : DocId) : Option Metadata :=
  (lookupBy Pair.key postings doc).map (·.payload)

theorem flagsOf_cons (posting : Posting) (rest : List Posting) (doc : DocId) :
    flagsOf (posting :: rest) doc =
      if posting.key = doc then posting.payload :: flagsOf rest doc else flagsOf rest doc := by
  rw [flagsOf, List.filter_cons]
  by_cases isDoc : posting.key = doc
  · rw [if_pos isDoc, if_pos (beq_iff_eq.mpr isDoc)]
    rfl
  · rw [if_neg isDoc, if_neg (mt beq_iff_eq.mp isDoc)]
    rfl

theorem flagsOf_eq_nil_iff {postings : List Posting} {doc : DocId} :
    flagsOf postings doc = [] ↔ ∀ posting ∈ postings, posting.key ≠ doc := by
  rw [flagsOf, List.map_eq_nil_iff, List.filter_eq_nil_iff]
  simp only [beq_iff_eq]

theorem flagsOf_perm {left right : List Posting} (same : left.Perm right) (doc : DocId) :
    (flagsOf left doc).Perm (flagsOf right doc) :=
  (same.filter _).map _

@[simp] theorem flagsIn_cons (posting : Posting) (rest : List Posting) (doc : DocId) :
    flagsIn (posting :: rest) doc =
      if posting.key = doc then some posting.payload else flagsIn rest doc := by
  rw [flagsIn, lookupBy_cons, flagsIn]
  split <;> rfl

theorem flagsIn_eq_none_iff {postings : List Posting} {doc : DocId} :
    flagsIn postings doc = none ↔ ∀ posting ∈ postings, posting.key ≠ doc := by
  rw [flagsIn, Option.map_eq_none_iff, lookupBy_eq_none_iff]

/-- In a list in document order the flags of a document are those of its posting. -/
theorem flagsIn_eq_some_iff {postings : List Posting} (ascending : AscendingBy Pair.key postings)
    {doc : DocId} {flags : Metadata} :
    flagsIn postings doc = some flags ↔ ⟨doc, flags⟩ ∈ postings := by
  rw [flagsIn, Option.map_eq_some_iff]
  constructor
  · rintro ⟨posting, found, rfl⟩
    obtain ⟨member, rfl⟩ := keyOf_of_lookupBy found
    exact member
  · intro member
    exact ⟨_, lookupBy_of_mem ascending member, rfl⟩

/-- Two lists in document order that give every document the same flags are the same. -/
theorem eq_of_flagsIn_eq {left right : List Posting} (leftAscending : AscendingBy Pair.key left)
    (rightAscending : AscendingBy Pair.key right)
    (same : ∀ doc, flagsIn left doc = flagsIn right doc) : left = right := by
  refine eq_of_lookupBy_eq leftAscending rightAscending fun doc => ?_
  have flags := same doc
  rw [flagsIn, flagsIn] at flags
  cases onLeft : lookupBy Pair.key left doc with
  | none =>
    rw [onLeft, Option.map_none] at flags
    exact (Option.map_eq_none_iff.mp flags.symm).symm
  | some first =>
    rw [onLeft, Option.map_some] at flags
    obtain ⟨second, onRight, payload⟩ := Option.map_eq_some_iff.mp flags.symm
    have firstKey := (keyOf_of_lookupBy onLeft).2
    have secondKey := (keyOf_of_lookupBy onRight).2
    rw [onRight]
    cases first
    cases second
    simp_all

/-! ### Unions -/

/-- Two postings of the same document as one. -/
def joinPostings (first second : Posting) : Posting :=
  ⟨first.key, combine first.payload second.payload⟩

theorem key_joinPostings (first second : Posting) (_same : first.key = second.key) :
    (joinPostings first second).key = first.key := rfl

theorem unite_eq_uniteBy (left right : List Posting) :
    unite left right = uniteBy Pair.key joinPostings left right := by
  fun_induction unite left right with
  | case1 right => rw [uniteBy]
  | case2 left nonempty => rw [uniteBy]; exact nonempty
  | case3 first left second right before inductionHypothesis =>
    rw [uniteBy, if_pos before, inductionHypothesis]
  | case4 first left second right notBefore after inductionHypothesis =>
    rw [uniteBy, if_neg notBefore, if_pos after, inductionHypothesis]
  | case5 first left second right notBefore notAfter inductionHypothesis =>
    rw [uniteBy, if_neg notBefore, if_neg notAfter, inductionHypothesis]
    rfl

theorem unite_ascendingBy {left right : List Posting}
    (leftAscending : AscendingBy Pair.key left) (rightAscending : AscendingBy Pair.key right) :
    AscendingBy Pair.key (unite left right) := by
  rw [unite_eq_uniteBy]
  exact uniteBy_ascendingBy key_joinPostings leftAscending rightAscending

theorem flagsIn_unite {left right : List Posting} (leftAscending : AscendingBy Pair.key left)
    (rightAscending : AscendingBy Pair.key right) (doc : DocId) :
    flagsIn (unite left right) doc = bothFlags (flagsIn left doc) (flagsIn right doc) := by
  rw [unite_eq_uniteBy, flagsIn,
    lookupBy_uniteBy key_joinPostings leftAscending rightAscending, flagsIn, flagsIn]
  cases lookupBy Pair.key left doc <;> cases lookupBy Pair.key right doc <;> rfl

theorem unite_comm (left right : List Posting) : unite left right = unite right left := by
  rw [unite_eq_uniteBy, unite_eq_uniteBy]
  refine uniteBy_comm (fun first second same => ?_) left right
  rw [joinPostings, joinPostings, same, combine, combine, UInt64.or_comm]

@[simp] theorem unite_self (postings : List Posting) : unite postings postings = postings := by
  rw [unite_eq_uniteBy]
  refine uniteBy_self (fun posting => ?_) postings
  rw [joinPostings, combine, UInt64.or_self]

theorem unite_assoc {left middle right : List Posting} (leftAscending : AscendingBy Pair.key left)
    (middleAscending : AscendingBy Pair.key middle) (rightAscending : AscendingBy Pair.key right) :
    unite (unite left middle) right = unite left (unite middle right) := by
  simp only [unite_eq_uniteBy]
  refine uniteBy_assoc key_joinPostings leftAscending middleAscending rightAscending
    fun first _ second _ third _ => ?_
  simp only [joinPostings, combine, UInt64.or_assoc]

/-! ### Collapsing -/

/-- The postings from `last` on, with `last` still open for more flags. -/
def collapseInto (last : Posting) : List Posting → List Posting
  | [] => [last]
  | next :: rest =>
    if last.key = next.key then
      collapseInto ⟨next.key, combine last.payload next.payload⟩ rest
    else last :: collapseInto next rest

/-- One posting for each run of postings of the same document, as a list. -/
def collapsed : List Posting → List Posting
  | [] => []
  | first :: rest => collapseInto first rest

/-- Sorted postings are collapsed to one posting for each document, in document order, with
all the flags that the document was given. -/
theorem collapseInto_spec (last : Posting) {rest : List Posting}
    (sorted : (last :: rest).Pairwise fun first second => first.key ≤ second.key) :
    (∀ posting ∈ collapseInto last rest, last.key ≤ posting.key) ∧
      AscendingBy Pair.key (collapseInto last rest) ∧
      ∀ doc, flagsIn (collapseInto last rest) doc = combineAll (flagsOf (last :: rest) doc) := by
  induction rest generalizing last with
  | nil =>
    refine ⟨?_, ascendingBy_cons.mpr ⟨nofun, ascendingBy_nil⟩, fun doc => ?_⟩
    · intro posting member
      rw [List.mem_singleton.mp member]
      exact UInt64.le_refl _
    · rw [collapseInto, flagsIn_cons, flagsOf_cons]
      split <;> rfl
  | cons next rest inductionHypothesis =>
    obtain ⟨lastLe, tail⟩ := List.pairwise_cons.mp sorted
    obtain ⟨nextLe, restSorted⟩ := List.pairwise_cons.mp tail
    rw [collapseInto]
    split
    · rename_i same
      obtain ⟨above, ascending, flags⟩ := inductionHypothesis
        ⟨next.key, combine last.payload next.payload⟩ (List.pairwise_cons.mpr ⟨nextLe, restSorted⟩)
      refine ⟨fun posting member => same ▸ above posting member, ascending, fun doc => ?_⟩
      rw [flags doc, flagsOf_cons, flagsOf_cons, flagsOf_cons, same]
      split
      · rw [combineAll, combineAll, combineAll, ← bothFlags_assoc]
        rfl
      · rfl
    · rename_i different
      have before : last.key < next.key :=
        UInt64.lt_of_le_of_ne (lastLe next List.mem_cons_self) different
      obtain ⟨above, ascending, flags⟩ := inductionHypothesis next tail
      have allAbove : ∀ posting ∈ collapseInto next rest, last.key < posting.key :=
        fun posting member => UInt64.lt_of_lt_of_le before (above posting member)
      refine ⟨?_, ascendingBy_cons.mpr ⟨allAbove, ascending⟩, fun doc => ?_⟩
      · intro posting member
        rcases List.mem_cons.mp member with rfl | later
        · exact UInt64.le_refl _
        · exact UInt64.le_of_lt (allAbove posting later)
      · rw [flagsIn_cons, flags doc, flagsOf_cons last]
        split
        · rename_i isDoc
          have absent : flagsOf (next :: rest) doc = [] := by
            refine flagsOf_eq_nil_iff.mpr fun posting member isKey => ?_
            have notBelow : next.key ≤ posting.key := by
              rcases List.mem_cons.mp member with rfl | later
              · exact UInt64.le_refl _
              · exact nextLe posting later
            rw [isKey, ← isDoc] at notBelow
            exact UInt64.lt_irrefl _ (UInt64.lt_of_lt_of_le before notBelow)
          rw [absent]
          rfl
        · rfl

theorem collapsed_ascendingBy {postings : List Posting}
    (sorted : postings.Pairwise fun first second => first.key ≤ second.key) :
    AscendingBy Pair.key (collapsed postings) := by
  cases postings with
  | nil => exact ascendingBy_nil
  | cons first rest => exact (collapseInto_spec first sorted).2.1

theorem flagsIn_collapsed {postings : List Posting}
    (sorted : postings.Pairwise fun first second => first.key ≤ second.key) (doc : DocId) :
    flagsIn (collapsed postings) doc = combineAll (flagsOf postings doc) := by
  cases postings with
  | nil => rfl
  | cons first rest => exact (collapseInto_spec first sorted).2.2 doc

theorem collapsed_ne_nil {postings : List Posting} (inhabited : postings ≠ []) :
    collapsed postings ≠ [] := by
  have into (last : Posting) (rest : List Posting) : collapseInto last rest ≠ [] := by
    induction rest generalizing last with
    | nil => exact List.cons_ne_nil _ _
    | cons next rest inductionHypothesis =>
      rw [collapseInto]
      split
      · exact inductionHypothesis _
      · exact List.cons_ne_nil _ _
  cases postings with
  | nil => exact absurd rfl inhabited
  | cons first rest => exact into first rest

theorem length_collapsed_le (postings : List Posting) :
    (collapsed postings).length ≤ postings.length := by
  have into (last : Posting) (rest : List Posting) :
      (collapseInto last rest).length ≤ rest.length + 1 := by
    induction rest generalizing last with
    | nil => exact Nat.le_refl 1
    | cons next rest inductionHypothesis =>
      rw [collapseInto]
      split
      · exact Nat.le_succ_of_le (inductionHypothesis _)
      · exact Nat.succ_le_succ (inductionHypothesis next)
  cases postings with
  | nil => exact Nat.le_refl 0
  | cons first rest => exact into first rest

/-! ### Sorting -/

section

variable {Element : Type} {le : Element → Element → Bool}

theorem Backend.sort_perm (backend : Backend) (elements : List Element) :
    (backend.sort le elements).Perm elements := by
  cases backend with
  | scalar => exact List.mergeSort_perm elements le
  | vector =>
    rw [Backend.sort]
    split
    · exact List.mergeSort_perm elements le
    · dsimp only
      refine (List.merge_perm_append le).trans ?_
      refine ((List.mergeSort_perm _ le).append (List.mergeSort_perm _ le)).trans ?_
      rw [List.take_append_drop]

theorem Backend.pairwise_sort (backend : Backend)
    (trans : ∀ first second third, le first second → le second third → le first third)
    (total : ∀ first second, le first second || le second first) (elements : List Element) :
    (backend.sort le elements).Pairwise fun first second => le first second := by
  cases backend with
  | scalar => exact List.pairwise_mergeSort trans total elements
  | vector =>
    rw [Backend.sort]
    split
    · exact List.pairwise_mergeSort trans total elements
    · exact List.pairwise_merge trans total _ _ (List.pairwise_mergeSort trans total _)
        (List.pairwise_mergeSort trans total _)

end

theorem Pair.key_le_of_le {first second : Pair} (ordered : first.le second) :
    first.key ≤ second.key := by
  rw [Pair.le, Bool.or_eq_true, Bool.and_eq_true, decide_eq_true_iff, beq_iff_eq] at ordered
  rcases ordered with before | ⟨same, -⟩
  · exact UInt64.le_of_lt before
  · exact UInt64.le_of_eq same

theorem Pair.le_trans (first second third : Pair) (left : first.le second)
    (right : second.le third) : first.le third := by
  simp only [Pair.le, Bool.or_eq_true, Bool.and_eq_true, decide_eq_true_iff, beq_iff_eq] at *
  rcases left with before | ⟨same, ordered⟩
  · rcases right with after | ⟨equal, -⟩
    · exact .inl (UInt64.lt_trans before after)
    · exact .inl (equal ▸ before)
  · rcases right with after | ⟨equal, further⟩
    · exact .inl (same ▸ after)
    · exact .inr ⟨same.trans equal, UInt64.le_trans ordered further⟩

theorem Pair.le_antisymm {first second : Pair} (before : first.le second)
    (after : second.le first) : first = second := by
  obtain ⟨key, payload⟩ := first
  obtain ⟨otherKey, otherPayload⟩ := second
  simp only [Pair.le, Bool.or_eq_true, Bool.and_eq_true, decide_eq_true_iff, beq_iff_eq] at *
  rcases before with before | ⟨rfl, before⟩
  · rcases after with after | ⟨rfl, -⟩
    · exact absurd (UInt64.lt_trans before after) (UInt64.lt_irrefl _)
    · exact absurd before (UInt64.lt_irrefl _)
  · rcases after with after | ⟨-, after⟩
    · exact absurd after (UInt64.lt_irrefl _)
    · rw [UInt64.le_antisymm before after]

theorem Pair.le_total (first second : Pair) : first.le second || second.le first := by
  simp only [Pair.le, Bool.or_eq_true, Bool.and_eq_true, decide_eq_true_iff, beq_iff_eq]
  by_cases before : first.key < second.key
  · exact .inl (.inl before)
  by_cases after : second.key < first.key
  · exact .inr (.inl after)
  have same := UInt64.le_antisymm (UInt64.not_lt.mp after) (UInt64.not_lt.mp before)
  rcases UInt64.le_total first.payload second.payload with ordered | reversed
  · exact .inl (.inr ⟨same, ordered⟩)
  · exact .inr (.inr ⟨same.symm, reversed⟩)

theorem Backend.sort_sorted (backend : Backend) (postings : List Posting) :
    (backend.sort Pair.le postings).Pairwise fun first second => first.key ≤ second.key :=
  (backend.pairwise_sort Pair.le_trans Pair.le_total postings).imp Pair.key_le_of_le

end InvertedIndex
