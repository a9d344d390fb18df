/-
This file proves what a store of pairs answers. Both families of stores have records of
two words, so the term directory is a store of terms with offsets and the postings of a
term are a store of documents with flags. Written from pairs in key order, such a store has
one entry for each pair, finds the pair of every key, and reads either word of it back.
-/

import InvertedIndex.Proofs.PreindexLists
import InvertedIndex.Proofs.StoreBatch

namespace InvertedIndex

/-! ### The words of pairs -/

theorem getElem?_toWords (pairs : List Pair) (entry : Nat) :
    (Pair.toWords pairs)[entry * 2]? = pairs[entry]?.map (·.key) ∧
      (Pair.toWords pairs)[entry * 2 + 1]? = pairs[entry]?.map (·.payload) := by
  induction pairs generalizing entry with
  | nil => exact ⟨rfl, rfl⟩
  | cons pair rest inductionHypothesis =>
    rw [Pair.toWords, List.flatMap_cons, ← Pair.toWords]
    cases entry with
    | zero => exact ⟨rfl, rfl⟩
    | succ entry =>
      obtain ⟨keys, payloads⟩ := inductionHypothesis entry
      rw [Nat.succ_mul, List.getElem?_cons_succ, ← keys, ← payloads]
      exact ⟨rfl, rfl⟩

namespace Shape

variable {shape : Shape} {pairs : List Pair}

theorem size_toWords (pairs : List Pair) (width : shape.width = 2) :
    (Pair.toWords pairs).toArray.size / shape.width = pairs.length := by
  simp [width]

theorem whole_toWords (pairs : List Pair) (width : shape.width = 2) :
    (Pair.toWords pairs).toArray.size % shape.width = 0 := by
  simp [width]

theorem keyIn_toWords (width : shape.width = 2) {entry : Nat} (inside : entry < pairs.length) :
    shape.keyIn (Pair.toWords pairs).toArray entry = pairs[entry].key := by
  rw [keyIn, width, List.getElem?_toArray, (getElem?_toWords pairs entry).1,
    List.getElem?_eq_getElem inside]
  rfl

theorem keysIn_toWords (width : shape.width = 2) :
    shape.keysIn (Pair.toWords pairs).toArray = pairs.map (·.key) := by
  rw [keysIn, size_toWords pairs width]
  refine List.ext_getElem (by simp) fun entry _ inside => ?_
  rw [List.length_map] at inside
  rw [List.getElem_map, List.getElem_range, List.getElem_map, keyIn_toWords width inside]

/-- Pairs make records that a store can hold when they are in key order. -/
theorem accepts_toWords_iff (width : shape.width = 2) :
    shape.Accepts (Pair.toWords pairs).toArray ↔ AscendingBy Pair.key pairs := by
  rw [AscendingBy, ← keysIn_toWords width]
  exact ⟨Accepts.ascending, fun ascending => ⟨whole_toWords pairs width, ascending⟩⟩

theorem accepts_toWords (width : shape.width = 2) (ascending : AscendingBy Pair.key pairs) :
    shape.Accepts (Pair.toWords pairs).toArray := (accepts_toWords_iff width).mpr ascending

end Shape

/-! ### Stores of pairs -/

namespace Store

variable {store : Store} {pairs : List Pair}

/-- The records of the store are these pairs, in key order, and it finds each of them. -/
structure HoldsPairs (store : Store) (pairs : List Pair) : Prop extends store.Ordered where
  width : store.shape.width = 2
  data : store.data = (Pair.toWords pairs).toArray
  in_order : AscendingBy Pair.key pairs

/-- Opening a store that was written from pairs in key order gives these pairs. -/
theorem cut_holdsPairs {shape : Shape} (sized : shape.Sized) (width : shape.width = 2)
    (ascending : AscendingBy Pair.key pairs) (before after : Array UInt64)
    (small : before.size + shape.extent pairs.length + after.size < regionLimit)
    (backend : Backend) :
    (cut (before ++ shape.storeOf (Pair.toWords pairs).toArray ++ after) before.size shape
      pairs.length backend).HoldsPairs pairs := by
  have count := Shape.size_toWords pairs width
  have ordered := Shape.cut_storeOf_ordered sized (Shape.accepts_toWords width ascending) before
    after (by rwa [count]) backend
  rw [count] at ordered
  refine ⟨ordered, width, ?_, ascending⟩
  have data := Shape.cut_storeOf (Shape.whole_toWords pairs width) before after backend
  rw [count] at data
  rw [data]

namespace HoldsPairs

theorem entries_eq (holds : store.HoldsPairs pairs) : store.entries = pairs.length := by
  have size := holds.data_size
  rw [holds.data, holds.width, List.size_toArray, length_toWords] at size
  omega

theorem key_eq (holds : store.HoldsPairs pairs) {entry : Nat} (inside : entry < pairs.length) :
    store.key entry = pairs[entry].key := by
  rw [key, holds.data]
  exact Shape.keyIn_toWords holds.width inside

theorem word_eq (holds : store.HoldsPairs pairs) {entry : Nat} (inside : entry < pairs.length) :
    store.word 1 entry = pairs[entry].payload := by
  rw [word, holds.data, holds.width, List.getElem?_toArray, (getElem?_toWords pairs entry).2,
    List.getElem?_eq_getElem inside]
  rfl

theorem keys_eq (holds : store.HoldsPairs pairs) : store.keys = pairs.map (·.key) := by
  rw [holds.toSound.keys_eq, holds.entries_eq]
  refine List.ext_getElem (by simp) fun entry _ inside => ?_
  rw [List.length_map] at inside
  rw [List.getElem_map, List.getElem_range, List.getElem_map, holds.key_eq inside]

/-- What a lookup found is the pair of that key. -/
theorem lookupBy_eq (holds : store.HoldsPairs pairs) {key : UInt64} {found : Option Nat}
    (finds : store.Finds key found) :
    lookupBy Pair.key pairs key = found.bind fun entry => pairs[entry]? := by
  cases found with
  | none =>
    refine lookupBy_eq_none_iff.mpr fun pair member isKey => ?_
    obtain ⟨entry, inside, rfl⟩ := List.getElem_of_mem member
    exact finds entry (holds.entries_eq ▸ inside) ((holds.key_eq inside).trans isKey)
  | some entry =>
    obtain ⟨below, isKey⟩ := finds
    have inside : entry < pairs.length := holds.entries_eq ▸ below
    rw [Option.bind_some, List.getElem?_eq_getElem inside, ← isKey, holds.key_eq inside]
    exact lookupBy_of_mem holds.in_order (List.getElem_mem inside)

/-- The payloads of some keys, 0 for a key without a pair. -/
theorem columnWith_eq (holds : store.HoldsPairs pairs) (strategy : Strategy) {keys : List UInt64}
    (ascending : keys.Pairwise (· < ·)) :
    store.columnWith strategy keys 1 =
      .ok (keys.map fun key => ((lookupBy Pair.key pairs key).map (·.payload)).getD 0) := by
  obtain ⟨found, answered, finds⟩ := holds.toSound.columnWith_eq strategy ascending
    (show 1 < store.shape.width by rw [holds.width]; decide)
  have each := finds holds.toOrdered
  rw [answered]
  clear answered finds ascending
  refine congrArg Except.ok ?_
  induction each with
  | nil => rfl
  | @cons key outcome keys found isThere _ inductionHypothesis =>
    rw [List.map_cons, List.map_cons, inductionHypothesis, holds.lookupBy_eq isThere]
    congr 1
    cases outcome with
    | none => rfl
    | some entry =>
      have inside : entry < pairs.length := holds.entries_eq ▸ isThere.1
      rw [columnOf, holds.word_eq inside, Option.bind_some, List.getElem?_eq_getElem inside]
      rfl

end HoldsPairs

end Store

end InvertedIndex
