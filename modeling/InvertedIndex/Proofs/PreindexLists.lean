/-
This file proves that an open preindex gives back the lists it was made of. Its postings
are the lists end to end, and the offsets of the lists are running sums of their lengths,
so the list at an index is what lies between two neighbouring offsets. None of the sums
is cut off while the postings fit in a region.
-/

import InvertedIndex.Proofs.StoreRoundTrip
import InvertedIndex.Proofs.TermLists

namespace InvertedIndex

/-! ### Pairs as words -/

@[simp]
theorem length_toWords (pairs : List Pair) : (Pair.toWords pairs).length = 2 * pairs.length := by
  induction pairs with
  | nil => rfl
  | cons pair rest inductionHypothesis =>
    rw [Pair.toWords, List.flatMap_cons, List.length_append, ← Pair.toWords, inductionHypothesis,
      List.length_cons]
    exact Nat.add_comm 2 _

theorem ofWordsOnto_toWords (before : Array Pair) (pairs : List Pair) :
    Pair.ofWordsOnto before (Pair.toWords pairs) = before ++ pairs.toArray := by
  induction pairs generalizing before with
  | nil =>
    rw [Pair.toWords, List.flatMap_nil, Array.append_empty]
    rfl
  | cons pair rest inductionHypothesis =>
    rw [Pair.toWords, List.flatMap_cons, ← Pair.toWords]
    show Pair.ofWordsOnto (before.push pair) (Pair.toWords rest) = _
    rw [inductionHypothesis]
    simp

@[simp]
theorem ofWords_toWords (pairs : List Pair) : Pair.ofWords (Pair.toWords pairs) = pairs := by
  rw [Pair.ofWords, ofWordsOnto_toWords, Array.empty_append]

/-! ### Running sums -/

/-- A list around one of its elements. -/
theorem eq_take_append_drop {Element : Type} {elements : List Element} {index : Nat}
    (inside : index < elements.length) :
    elements = elements.take index ++ elements[index] :: elements.drop (index + 1) := by
  rw [List.getElem_cons_drop, List.take_append_drop]

@[simp]
theorem countPostings_cons (list : Term × List Posting) (lists : List (Term × List Posting)) :
    countPostings (list :: lists) = list.2.length + countPostings lists := rfl

@[simp] theorem countPostings_append (left right : List (Term × List Posting)) :
    countPostings (left ++ right) = countPostings left + countPostings right := by
  induction left with
  | nil => exact (Nat.zero_add _).symm
  | cons list rest inductionHypothesis =>
    rw [List.cons_append, countPostings, countPostings, inductionHypothesis, Nat.add_assoc]

theorem length_le_countPostings {lists : List (Term × List Posting)} {index : Nat}
    (inside : index < lists.length) : lists[index].2.length ≤ countPostings lists := by
  have parts := congrArg countPostings (eq_take_append_drop inside)
  rw [countPostings_append, countPostings_cons] at parts
  omega

theorem length_le_unite (left right : List Posting) :
    left.length ≤ (unite left right).length ∧ right.length ≤ (unite left right).length := by
  fun_induction unite left right with
  | case1 right => exact ⟨Nat.zero_le _, Nat.le_refl _⟩
  | case2 left nonempty => exact ⟨Nat.le_refl _, Nat.zero_le _⟩
  | case3 first left second right before inductionHypothesis =>
    simp only [List.length_cons] at inductionHypothesis ⊢
    omega
  | case4 first left second right notBefore after inductionHypothesis =>
    simp only [List.length_cons] at inductionHypothesis ⊢
    omega
  | case5 first left second right notBefore notAfter inductionHypothesis =>
    simp only [List.length_cons]
    omega

/-- A union has at least the postings of either side. -/
theorem countPostings_le_uniteTerms (left right : List (Term × List Posting)) :
    countPostings left ≤ countPostings (uniteTerms left right) ∧
      countPostings right ≤ countPostings (uniteTerms left right) := by
  fun_induction uniteTerms left right with
  | case1 right => exact ⟨Nat.zero_le _, Nat.le_refl _⟩
  | case2 left nonempty => exact ⟨Nat.le_refl _, Nat.zero_le _⟩
  | case3 first left second right before inductionHypothesis =>
    simp only [countPostings_cons] at inductionHypothesis ⊢
    omega
  | case4 first left second right notBefore after inductionHypothesis =>
    simp only [countPostings_cons] at inductionHypothesis ⊢
    omega
  | case5 first left second right notBefore notAfter inductionHypothesis =>
    have joined := length_le_unite first.2 second.2
    simp only [countPostings_cons]
    omega

theorem length_unite_le (left right : List Posting) :
    (unite left right).length ≤ left.length + right.length := by
  fun_induction unite left right with
  | case1 right => exact Nat.le_add_left _ _
  | case2 left nonempty => exact Nat.le_refl _
  | case3 first left second right before inductionHypothesis =>
    simp only [List.length_cons] at inductionHypothesis ⊢
    omega
  | case4 first left second right notBefore after inductionHypothesis =>
    simp only [List.length_cons] at inductionHypothesis ⊢
    omega
  | case5 first left second right notBefore notAfter inductionHypothesis =>
    simp only [List.length_cons]
    omega

/-- It has no more than both sides together. -/
theorem countPostings_uniteTerms_le (left right : List (Term × List Posting)) :
    countPostings (uniteTerms left right) ≤ countPostings left + countPostings right := by
  fun_induction uniteTerms left right with
  | case1 right => exact Nat.le_add_left _ _
  | case2 left nonempty => exact Nat.le_refl _
  | case3 first left second right before inductionHypothesis =>
    simp only [countPostings_cons] at inductionHypothesis ⊢
    omega
  | case4 first left second right notBefore after inductionHypothesis =>
    simp only [countPostings_cons] at inductionHypothesis ⊢
    omega
  | case5 first left second right notBefore notAfter inductionHypothesis =>
    have joined := length_unite_le first.2 second.2
    simp only [countPostings_cons]
    omega

/-- The words of all postings, the lists end to end. -/
def wordsOf (lists : List (Term × List Posting)) : List UInt64 :=
  lists.flatMap fun list => Pair.toWords list.2

@[simp] theorem length_wordsOf (lists : List (Term × List Posting)) :
    (wordsOf lists).length = 2 * countPostings lists := by
  induction lists with
  | nil => rfl
  | cons list rest inductionHypothesis =>
    rw [wordsOf, List.flatMap_cons, List.length_append, ← wordsOf, inductionHypothesis,
      length_toWords, countPostings_cons, Nat.mul_add]

/-- The offset of the list at an index. -/
def offsetIn (lists : List (Term × List Posting)) (index : Nat) : Nat :=
  2 * countPostings (lists.take index)

theorem runningOffsets_eq (lists : List (Term × List Posting)) (start : Nat)
    (small : start + 2 * countPostings lists < wordLimit) :
    Preindex.runningOffsets start (lists.map fun list => UInt64.ofNat list.2.length) =
      (List.range (lists.length + 1)).map fun index => start + offsetIn lists index := by
  induction lists generalizing start with
  | nil => rfl
  | cons list rest inductionHypothesis =>
    rw [countPostings_cons] at small
    have width : saturatingMul (UInt64.ofNat list.2.length).toNat 2 = 2 * list.2.length := by
      rw [toNat_ofNat (by omega), saturatingMul, Nat.mul_comm]
      exact Nat.min_eq_left (by omega)
    have next : saturatingAdd start (2 * list.2.length) = start + 2 * list.2.length :=
      Nat.min_eq_left (by omega)
    rw [List.map_cons, Preindex.runningOffsets, width, next, inductionHypothesis _ (by omega),
      List.length_cons, List.range_succ_eq_map (n := rest.length + 1), List.map_cons, List.map_map]
    refine List.cons_eq_cons.mpr ⟨rfl, List.map_congr_left fun index _ => ?_⟩
    show start + 2 * list.2.length + 2 * countPostings (rest.take index) =
      start + 2 * (list.2.length + countPostings (rest.take index))
    omega

/-! ### An open preindex -/

namespace Preindex

/-- The open preindex with these lists. -/
def ofLists (owned : PreindexFiles) (lists : List (Term × List Posting)) : Preindex where
  files := owned
  terms := (lists.map (·.1)).toArray
  docs := (wordsOf lists).toArray
  offsets := (runningOffsets 0 (lists.map fun list => UInt64.ofNat list.2.length)).toArray

variable {owned : PreindexFiles} {lists : List (Term × List Posting)}

@[simp] theorem numTerms_ofLists : (ofLists owned lists).numTerms = lists.length := by
  simp [numTerms, ofLists]

@[simp] theorem numPostings_ofLists : (ofLists owned lists).numPostings = countPostings lists := by
  simp [numPostings, ofLists]

theorem offsets_ofLists (small : 2 * countPostings lists < wordLimit) {index : Nat}
    (inside : index ≤ lists.length) :
    (ofLists owned lists).offsets[index]? = some (offsetIn lists index) := by
  rw [ofLists, runningOffsets_eq lists 0 (by omega), List.getElem?_toArray, List.getElem?_map,
    List.getElem?_range (by omega), Option.map_some, Nat.zero_add]

theorem wordAt_terms {index : Nat} (inside : index < lists.length) :
    wordAt (ofLists owned lists).terms index = .ok lists[index].1 := by
  have below : index < (ofLists owned lists).terms.size := by
    rw [ofLists, List.size_toArray, List.length_map]
    exact inside
  rw [wordAt_eq below]
  simp [ofLists]

/-- The postings at an index are the list that was there. -/
theorem postings_ofLists (small : 2 * countPostings lists < wordLimit) {index : Nat}
    (inside : index < lists.length) :
    (ofLists owned lists).postings index = .ok (Pair.toWords lists[index].2).toArray := by
  have stop : offsetIn lists (index + 1) =
      offsetIn lists index + (Pair.toWords lists[index].2).length := by
    rw [offsetIn, offsetIn, length_toWords, List.take_succ_eq_append_getElem inside,
      countPostings_append, Nat.mul_add]
    rfl
  have region : (wordsOf lists).toArray = (wordsOf (lists.take index)).toArray ++
      (Pair.toWords lists[index].2).toArray ++ (wordsOf (lists.drop (index + 1))).toArray := by
    rw [List.append_toArray, List.append_toArray, List.append_assoc]
    conv => left; rw [eq_take_append_drop inside]
    rw [wordsOf, List.flatMap_append, List.flatMap_cons]
    rfl
  have before : offsetIn lists index = (wordsOf (lists.take index)).toArray.size := by
    simp [offsetIn]
  have bounded : offsetIn lists (index + 1) ≤ (wordsOf lists).toArray.size := by
    rw [region, stop, before]
    simp only [Array.size_append, List.size_toArray]
    omega
  rw [postings, offsets_ofLists small (Nat.le_of_lt inside), offsets_ofLists small inside]
  show slice (wordsOf lists).toArray _ _ = _
  rw [slice_eq (by omega) bounded]
  exact congrArg Except.ok (Shape.extract_middle _ _ region before
    (by rw [stop, before, List.size_toArray, List.size_toArray]))

/-- A preindex gives back the lists it was made of. -/
theorem lists_ofLists (small : 2 * countPostings lists < wordLimit) :
    (ofLists owned lists).lists = .ok lists := by
  rw [Preindex.lists, numTerms_ofLists]
  refine (mapM_range_eq_ok fun index inside => ?_).trans
    (congrArg Except.ok (List.map_id lists))
  rw [wordAt_terms inside, ok_bind, postings_ofLists small inside, ok_bind, List.toList_toArray,
    ofWords_toWords]
  rfl

end Preindex

end InvertedIndex
