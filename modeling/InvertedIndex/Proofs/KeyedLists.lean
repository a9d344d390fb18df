/-
This file proves what lists in key order are determined by. A list whose keys strictly
ascend holds at most one element of each key, so it is known once it is known which
element each key finds. The union of two such lists is again in order, and each key finds
in it what it finds on both sides, joined where it finds something on both. The lists of
postings and the lists of terms of this library are both united in this way. A list that is
sorted in another order is in a strict order when no two elements of it are alike.
-/

import InvertedIndex.Posting
import Mathlib.Data.List.Basic

namespace InvertedIndex

section

variable {Element : Type} (keyOf : Element → UInt64)

/-! ### Looking up keys -/

/-- Each element has a smaller key than the next one. -/
def AscendingBy (elements : List Element) : Prop :=
  (elements.map keyOf).Pairwise (· < ·)

/-- The element with a key. -/
def lookupBy (elements : List Element) (key : UInt64) : Option Element :=
  elements.find? fun element => keyOf element == key

variable {keyOf}

theorem ascendingBy_nil : AscendingBy keyOf [] := .nil

theorem ascendingBy_cons {first : Element} {rest : List Element} :
    AscendingBy keyOf (first :: rest) ↔
      (∀ element ∈ rest, keyOf first < keyOf element) ∧ AscendingBy keyOf rest := by
  rw [AscendingBy, List.map_cons, List.pairwise_cons, List.forall_mem_map, AscendingBy]

/-- No key comes twice. -/
theorem AscendingBy.nodup {elements : List Element} (ascending : AscendingBy keyOf elements) :
    (elements.map keyOf).Nodup := List.Pairwise.imp UInt64.ne_of_lt ascending

@[simp] theorem lookupBy_nil (key : UInt64) : lookupBy keyOf [] key = none := rfl

@[simp] theorem lookupBy_cons (first : Element) (rest : List Element) (key : UInt64) :
    lookupBy keyOf (first :: rest) key =
      if keyOf first = key then some first else lookupBy keyOf rest key := by
  rw [lookupBy, List.find?_cons, lookupBy]
  by_cases isKey : keyOf first = key
  · rw [if_pos isKey, isKey, beq_self_eq_true]
  · rw [if_neg isKey, beq_eq_false_iff_ne.mpr isKey]

theorem lookupBy_eq_none_iff {elements : List Element} {key : UInt64} :
    lookupBy keyOf elements key = none ↔ ∀ element ∈ elements, keyOf element ≠ key := by
  rw [lookupBy, List.find?_eq_none]
  simp only [beq_iff_eq]

theorem keyOf_of_lookupBy {elements : List Element} {key : UInt64} {found : Element}
    (lookup : lookupBy keyOf elements key = some found) :
    found ∈ elements ∧ keyOf found = key := by
  have isKey : (keyOf found == key) = true :=
    List.find?_some (p := fun element => keyOf element == key) lookup
  exact ⟨List.mem_of_find?_eq_some lookup, eq_of_beq isKey⟩

/-- Keys smaller than all of the elements find nothing. -/
theorem lookupBy_eq_none_of_lt {elements : List Element} {key : UInt64}
    (smaller : ∀ element ∈ elements, key < keyOf element) :
    lookupBy keyOf elements key = none := by
  refine lookupBy_eq_none_iff.mpr fun element member isKey => ?_
  exact UInt64.lt_irrefl key (isKey ▸ smaller element member)

/-- In a list in key order every element is found by its key. -/
theorem lookupBy_of_mem {elements : List Element} (ascending : AscendingBy keyOf elements)
    {element : Element} (member : element ∈ elements) :
    lookupBy keyOf elements (keyOf element) = some element := by
  induction elements with
  | nil => exact absurd member List.not_mem_nil
  | cons first rest inductionHypothesis =>
    obtain ⟨smaller, tail⟩ := ascendingBy_cons.mp ascending
    rw [lookupBy_cons]
    rcases List.mem_cons.mp member with rfl | later
    · rw [if_pos rfl]
    · rw [if_neg fun same => UInt64.lt_irrefl _ (same ▸ smaller element later)]
      exact inductionHypothesis tail later

/-- Two lists in key order that find the same elements are the same. -/
theorem eq_of_lookupBy_eq {left right : List Element} (leftAscending : AscendingBy keyOf left)
    (rightAscending : AscendingBy keyOf right)
    (same : ∀ key, lookupBy keyOf left key = lookupBy keyOf right key) : left = right := by
  induction left generalizing right with
  | nil =>
    cases right with
    | nil => rfl
    | cons second rest =>
      have found := same (keyOf second)
      rw [lookupBy_of_mem rightAscending List.mem_cons_self] at found
      cases found
  | cons first left inductionHypothesis =>
    obtain ⟨firstSmaller, leftTail⟩ := ascendingBy_cons.mp leftAscending
    cases right with
    | nil =>
      have found := same (keyOf first)
      rw [lookupBy_of_mem leftAscending List.mem_cons_self] at found
      cases found
    | cons second right =>
      obtain ⟨secondSmaller, rightTail⟩ := ascendingBy_cons.mp rightAscending
      have foundRight := (same (keyOf first)).symm.trans
        (lookupBy_of_mem leftAscending List.mem_cons_self)
      have foundLeft := (same (keyOf second)).trans
        (lookupBy_of_mem rightAscending List.mem_cons_self)
      -- Each head is found on the other side, so neither can come before the other.
      have heads : first = second := by
        rcases List.mem_cons.mp (keyOf_of_lookupBy foundRight).1 with equal | later
        · exact equal
        · rcases List.mem_cons.mp (keyOf_of_lookupBy foundLeft).1 with equal | earlier
          · exact equal.symm
          · exact absurd (UInt64.lt_trans (firstSmaller second earlier)
              (secondSmaller first later)) (UInt64.lt_irrefl _)
      subst heads
      rw [inductionHypothesis leftTail rightTail fun key => ?_]
      by_cases isKey : keyOf first = key
      · rw [lookupBy_eq_none_of_lt (isKey ▸ firstSmaller),
          lookupBy_eq_none_of_lt (isKey ▸ secondSmaller)]
      · have found := same key
        rwa [lookupBy_cons, lookupBy_cons, if_neg isKey, if_neg isKey] at found

/-- So are two lists in key order with the same elements. -/
theorem eq_of_mem_iff {left right : List Element} (leftAscending : AscendingBy keyOf left)
    (rightAscending : AscendingBy keyOf right)
    (same : ∀ element, element ∈ left ↔ element ∈ right) : left = right := by
  refine eq_of_lookupBy_eq leftAscending rightAscending fun key => ?_
  cases found : lookupBy keyOf left key with
  | none =>
    refine (lookupBy_eq_none_iff.mpr fun element member => ?_).symm
    exact lookupBy_eq_none_iff.mp found element ((same element).mpr member)
  | some element =>
    obtain ⟨member, rfl⟩ := keyOf_of_lookupBy found
    exact (lookupBy_of_mem rightAscending ((same element).mp member)).symm

/-! ### Unions in key order -/

variable (keyOf) in
/-- The union of two lists in key order; elements of the same key are joined. -/
def uniteBy (join : Element → Element → Element) : List Element → List Element → List Element
  | [], right => right
  | left, [] => left
  | first :: left, second :: right =>
    if keyOf first < keyOf second then first :: uniteBy join left (second :: right)
    else if keyOf second < keyOf first then second :: uniteBy join (first :: left) right
    else join first second :: uniteBy join left right
termination_by left right => left.length + right.length

variable {join : Element → Element → Element}

/-- Every key of a union is a key of one of its sides. -/
theorem keyOf_of_mem_uniteBy
    (joined : ∀ first second, keyOf first = keyOf second → keyOf (join first second) = keyOf first)
    {left right : List Element} {element : Element}
    (member : element ∈ uniteBy keyOf join left right) :
    ∃ origin, origin ∈ left ++ right ∧ keyOf element = keyOf origin := by
  fun_induction uniteBy keyOf join left right with
  | case1 right => exact ⟨element, member, rfl⟩
  | case2 left nonempty => exact ⟨element, List.mem_append_left _ member, rfl⟩
  | case3 first left second right before inductionHypothesis =>
    rcases List.mem_cons.mp member with rfl | later
    · exact ⟨element, List.mem_cons_self, rfl⟩
    · obtain ⟨origin, isThere, same⟩ := inductionHypothesis later
      exact ⟨origin, List.mem_cons_of_mem _ isThere, same⟩
  | case4 first left second right notBefore after inductionHypothesis =>
    rcases List.mem_cons.mp member with rfl | later
    · exact ⟨element, List.mem_append_right _ List.mem_cons_self, rfl⟩
    · obtain ⟨origin, isThere, same⟩ := inductionHypothesis later
      refine ⟨origin, ?_, same⟩
      rcases List.mem_append.mp isThere with onLeft | onRight
      · exact List.mem_append_left _ onLeft
      · exact List.mem_append_right _ (List.mem_cons_of_mem _ onRight)
  | case5 first left second right notBefore notAfter inductionHypothesis =>
    rcases List.mem_cons.mp member with rfl | later
    · have same := UInt64.le_antisymm (UInt64.not_lt.mp notAfter) (UInt64.not_lt.mp notBefore)
      exact ⟨first, List.mem_cons_self, joined first second same⟩
    · obtain ⟨origin, isThere, same⟩ := inductionHypothesis later
      refine ⟨origin, ?_, same⟩
      rcases List.mem_append.mp isThere with onLeft | onRight
      · exact List.mem_append_left _ (List.mem_cons_of_mem _ onLeft)
      · exact List.mem_append_right _ (List.mem_cons_of_mem _ onRight)

/-- A key below both sides is below their union. -/
theorem lt_of_mem_uniteBy
    (joined : ∀ first second, keyOf first = keyOf second → keyOf (join first second) = keyOf first)
    {left right : List Element} {key : UInt64} (leftAbove : ∀ element ∈ left, key < keyOf element)
    (rightAbove : ∀ element ∈ right, key < keyOf element) :
    ∀ element ∈ uniteBy keyOf join left right, key < keyOf element := by
  intro element member
  obtain ⟨origin, isThere, same⟩ := keyOf_of_mem_uniteBy joined member
  rw [same]
  rcases List.mem_append.mp isThere with onLeft | onRight
  · exact leftAbove origin onLeft
  · exact rightAbove origin onRight

theorem uniteBy_ascendingBy
    (joined : ∀ first second, keyOf first = keyOf second → keyOf (join first second) = keyOf first)
    {left right : List Element} (leftAscending : AscendingBy keyOf left)
    (rightAscending : AscendingBy keyOf right) :
    AscendingBy keyOf (uniteBy keyOf join left right) := by
  fun_induction uniteBy keyOf join left right with
  | case1 right => exact rightAscending
  | case2 left nonempty => exact leftAscending
  | case3 first left second right before inductionHypothesis =>
    obtain ⟨firstSmaller, leftTail⟩ := ascendingBy_cons.mp leftAscending
    obtain ⟨secondSmaller, -⟩ := ascendingBy_cons.mp rightAscending
    refine ascendingBy_cons.mpr ⟨?_, inductionHypothesis leftTail rightAscending⟩
    refine lt_of_mem_uniteBy joined firstSmaller (List.forall_mem_cons.mpr ⟨before, ?_⟩)
    exact fun element member => UInt64.lt_trans before (secondSmaller element member)
  | case4 first left second right notBefore after inductionHypothesis =>
    obtain ⟨firstSmaller, -⟩ := ascendingBy_cons.mp leftAscending
    obtain ⟨secondSmaller, rightTail⟩ := ascendingBy_cons.mp rightAscending
    refine ascendingBy_cons.mpr ⟨?_, inductionHypothesis leftAscending rightTail⟩
    refine lt_of_mem_uniteBy joined (List.forall_mem_cons.mpr ⟨after, ?_⟩) secondSmaller
    exact fun element member => UInt64.lt_trans after (firstSmaller element member)
  | case5 first left second right notBefore notAfter inductionHypothesis =>
    obtain ⟨firstSmaller, leftTail⟩ := ascendingBy_cons.mp leftAscending
    obtain ⟨secondSmaller, rightTail⟩ := ascendingBy_cons.mp rightAscending
    have same := UInt64.le_antisymm (UInt64.not_lt.mp notAfter) (UInt64.not_lt.mp notBefore)
    refine ascendingBy_cons.mpr ⟨?_, inductionHypothesis leftTail rightTail⟩
    rw [joined first second same]
    exact lt_of_mem_uniteBy joined firstSmaller (same ▸ secondSmaller)

/-- A key finds in a union what it finds on the two sides, joined. -/
theorem lookupBy_uniteBy
    (joined : ∀ first second, keyOf first = keyOf second → keyOf (join first second) = keyOf first)
    {left right : List Element} (leftAscending : AscendingBy keyOf left)
    (rightAscending : AscendingBy keyOf right) (key : UInt64) :
    lookupBy keyOf (uniteBy keyOf join left right) key =
      Option.merge join (lookupBy keyOf left key) (lookupBy keyOf right key) := by
  fun_induction uniteBy keyOf join left right with
  | case1 right => simp
  | case2 left nonempty => simp
  | case3 first left second right before inductionHypothesis =>
    obtain ⟨firstSmaller, leftTail⟩ := ascendingBy_cons.mp leftAscending
    obtain ⟨secondSmaller, -⟩ := ascendingBy_cons.mp rightAscending
    rw [lookupBy_cons, inductionHypothesis leftTail rightAscending, lookupBy_cons first left]
    by_cases isKey : keyOf first = key
    · have absent : lookupBy keyOf (second :: right) key = none := by
        refine lookupBy_eq_none_of_lt (List.forall_mem_cons.mpr ⟨isKey ▸ before, ?_⟩)
        exact fun element member => UInt64.lt_trans (isKey ▸ before) (secondSmaller element member)
      rw [if_pos isKey, if_pos isKey, absent, Option.merge_none_right]
    · rw [if_neg isKey, if_neg isKey]
  | case4 first left second right notBefore after inductionHypothesis =>
    obtain ⟨firstSmaller, -⟩ := ascendingBy_cons.mp leftAscending
    obtain ⟨secondSmaller, rightTail⟩ := ascendingBy_cons.mp rightAscending
    rw [lookupBy_cons, inductionHypothesis leftAscending rightTail, lookupBy_cons second right]
    by_cases isKey : keyOf second = key
    · have absent : lookupBy keyOf (first :: left) key = none := by
        refine lookupBy_eq_none_of_lt (List.forall_mem_cons.mpr ⟨isKey ▸ after, ?_⟩)
        exact fun element member => UInt64.lt_trans (isKey ▸ after) (firstSmaller element member)
      rw [if_pos isKey, if_pos isKey, absent, Option.merge_none_left]
    · rw [if_neg isKey, if_neg isKey]
  | case5 first left second right notBefore notAfter inductionHypothesis =>
    obtain ⟨firstSmaller, leftTail⟩ := ascendingBy_cons.mp leftAscending
    obtain ⟨secondSmaller, rightTail⟩ := ascendingBy_cons.mp rightAscending
    have same := UInt64.le_antisymm (UInt64.not_lt.mp notAfter) (UInt64.not_lt.mp notBefore)
    rw [lookupBy_cons, inductionHypothesis leftTail rightTail, lookupBy_cons first left,
      lookupBy_cons second right, joined first second same]
    by_cases isKey : keyOf first = key
    · rw [if_pos isKey, if_pos isKey, if_pos (same ▸ isKey), Option.merge_some_some]
    · rw [if_neg isKey, if_neg isKey, if_neg (same ▸ isKey)]

/-! ### Laws of unions -/

/-- The sides of a union may change places when the elements that are joined may. -/
theorem uniteBy_comm
    (commutes : ∀ first second, keyOf first = keyOf second → join first second = join second first)
    (left right : List Element) :
    uniteBy keyOf join left right = uniteBy keyOf join right left := by
  fun_induction uniteBy keyOf join left right with
  | case1 right => cases right <;> rw [uniteBy]; exact nofun
  | case2 left nonempty => rw [uniteBy]
  | case3 first left second right before inductionHypothesis =>
    rw [uniteBy, if_neg fun after => UInt64.lt_irrefl _ (UInt64.lt_trans before after),
      if_pos before, inductionHypothesis]
  | case4 first left second right notBefore after inductionHypothesis =>
    rw [uniteBy, if_pos after, inductionHypothesis]
  | case5 first left second right notBefore notAfter inductionHypothesis =>
    have same := UInt64.le_antisymm (UInt64.not_lt.mp notAfter) (UInt64.not_lt.mp notBefore)
    rw [uniteBy, if_neg notAfter, if_neg notBefore, inductionHypothesis,
      commutes first second same]

/-- A list united with itself stays as it is when every element joined with itself does. -/
theorem uniteBy_self (idempotent : ∀ element, join element element = element)
    (elements : List Element) : uniteBy keyOf join elements elements = elements := by
  induction elements with
  | nil => rw [uniteBy]
  | cons first rest inductionHypothesis =>
    rw [uniteBy, if_neg (UInt64.lt_irrefl _), if_neg (UInt64.lt_irrefl _), inductionHypothesis,
      idempotent]

/-- Unions of lists in key order may be taken in any order when joins of their elements may. -/
theorem uniteBy_assoc
    (joined : ∀ first second, keyOf first = keyOf second → keyOf (join first second) = keyOf first)
    {left middle right : List Element} (leftAscending : AscendingBy keyOf left)
    (middleAscending : AscendingBy keyOf middle) (rightAscending : AscendingBy keyOf right)
    (associates : ∀ first ∈ left, ∀ second ∈ middle, ∀ third ∈ right,
      join (join first second) third = join first (join second third)) :
    uniteBy keyOf join (uniteBy keyOf join left middle) right =
      uniteBy keyOf join left (uniteBy keyOf join middle right) := by
  have inFront := uniteBy_ascendingBy joined leftAscending middleAscending
  have behind := uniteBy_ascendingBy joined middleAscending rightAscending
  refine eq_of_lookupBy_eq (uniteBy_ascendingBy joined inFront rightAscending)
    (uniteBy_ascendingBy joined leftAscending behind) fun key => ?_
  rw [lookupBy_uniteBy joined inFront rightAscending,
    lookupBy_uniteBy joined leftAscending middleAscending,
    lookupBy_uniteBy joined leftAscending behind,
    lookupBy_uniteBy joined middleAscending rightAscending]
  cases onLeft : lookupBy keyOf left key with
  | none => rw [Option.merge_none_left, Option.merge_none_left]
  | some first =>
    cases inMiddle : lookupBy keyOf middle key with
    | none => rw [Option.merge_none_right, Option.merge_none_left]
    | some second =>
      cases onRight : lookupBy keyOf right key with
      | none => rw [Option.merge_none_right, Option.merge_none_right]
      | some third =>
        exact congrArg some (associates first (keyOf_of_lookupBy onLeft).1 second
          (keyOf_of_lookupBy inMiddle).1 third (keyOf_of_lookupBy onRight).1)

end

/-! ### Strict orders -/

/-- Sorting puts elements that are apart in a strict order. -/
theorem pairwise_mergeSort_of_apart {Element : Type} {le : Element → Element → Bool}
    {apart before : Element → Element → Prop}
    (trans : ∀ first second third, le first second → le second third → le first third)
    (total : ∀ first second, (le first second || le second first) = true)
    (symm : ∀ {first second}, apart first second → apart second first)
    (strict : ∀ first second, le first second → apart first second → before first second)
    {elements : List Element} (distinct : elements.Pairwise apart) :
    (elements.mergeSort le).Pairwise before := by
  have stillDistinct := ((List.mergeSort_perm elements le).pairwise_iff symm).mpr distinct
  exact ((List.pairwise_mergeSort trans total elements).and stillDistinct).imp
    fun {first second} both => strict first second both.1 both.2

end InvertedIndex
