/-
This file proves what a batch lookup answers. Either strategy walks forward through the
store, and what it has passed is smaller than every key still to come. A batch lookup in
a store whose header was accepted never faults, whatever the store holds, and in a store
that finds its keys it locates each key of the batch exactly where a single lookup does.
-/

import InvertedIndex.Proofs.StoreLookup
import InvertedIndex.Store.Batch
import Mathlib.Data.List.Forall2

namespace InvertedIndex

/-! ### Sorted batches -/

theorem pairwise_of_adjacent (relation : UInt64 → UInt64 → Prop)
    (chain : ∀ first second third, relation first second → relation second third →
      relation first third)
    {first second : UInt64} {rest : List UInt64} (step : relation first second)
    (tail : (second :: rest).Pairwise relation) : (first :: second :: rest).Pairwise relation := by
  refine List.pairwise_cons.mpr ⟨fun key member => ?_, tail⟩
  rcases List.mem_cons.mp member with rfl | later
  · exact step
  · exact chain _ _ _ step (List.rel_of_pairwise_cons tail later)

theorem strictlyAscending_iff {keys : List UInt64} :
    strictlyAscending keys = true ↔ keys.Pairwise (· < ·) := by
  fun_induction strictlyAscending keys with
  | case1 first second rest inductionHypothesis =>
    rw [Bool.and_eq_true, decide_eq_true_iff, inductionHypothesis]
    constructor
    · rintro ⟨step, tail⟩
      exact pairwise_of_adjacent (· < ·) (fun _ _ _ => UInt64.lt_trans) step tail
    · intro pairwise
      exact ⟨List.rel_of_pairwise_cons pairwise List.mem_cons_self, pairwise.of_cons⟩
  | case2 keys short =>
    match keys, short with
    | [], _ => simp
    | [_], _ => simp
    | first :: second :: rest, short => exact absurd rfl (short first second rest)

theorem ascending_iff {keys : List UInt64} :
    ascending keys = true ↔ keys.Pairwise (· ≤ ·) := by
  fun_induction ascending keys with
  | case1 first second rest inductionHypothesis =>
    rw [Bool.and_eq_true, decide_eq_true_iff, inductionHypothesis]
    constructor
    · rintro ⟨step, tail⟩
      exact pairwise_of_adjacent (· ≤ ·) (fun _ _ _ => UInt64.le_trans) step tail
    · intro pairwise
      exact ⟨List.rel_of_pairwise_cons pairwise List.mem_cons_self, pairwise.of_cons⟩
  | case2 keys short =>
    match keys, short with
    | [], _ => simp
    | [_], _ => simp
    | first :: second :: rest, short => exact absurd rfl (short first second rest)

namespace Store

/-- Every entry that a batch found is an entry of the store. -/
def FoundInside (store : Store) (found : List (Option Nat)) : Prop :=
  ∀ entry, some entry ∈ found → entry < store.entries

/-- What a batch lookup may assume: the keys of the batch ascend, and the entries that it
has passed hold smaller keys only. -/
structure Resumes (store : Store) (entry : Nat) (keys : List UInt64) : Prop where
  ascending : keys.Pairwise (· ≤ ·)
  passed : ∀ key ∈ keys, ∀ earlier, earlier < entry → store.key earlier < key

namespace FoundInside

variable {store : Store}

theorem nil : store.FoundInside [] := fun _ member => absurd member List.not_mem_nil

theorem cons_none {found : List (Option Nat)} (inside : store.FoundInside found) :
    store.FoundInside (none :: found) := by
  intro entry member
  rcases List.mem_cons.mp member with equal | later
  · cases equal
  · exact inside entry later

theorem cons_some {entry : Nat} {found : List (Option Nat)} (below : entry < store.entries)
    (inside : store.FoundInside found) : store.FoundInside (some entry :: found) := by
  intro other member
  rcases List.mem_cons.mp member with equal | later
  · cases equal
    exact below
  · exact inside other later

/-- Nothing is found for any key. -/
theorem map_none (keys : List UInt64) : store.FoundInside (keys.map fun _ => none) := by
  intro entry member
  obtain ⟨key, -, equal⟩ := List.mem_map.mp member
  cases equal

end FoundInside

namespace Resumes

variable {store : Store} {key : UInt64} {rest : List UInt64} {entry next : Nat}

theorem atStart {keys : List UInt64} (ascending : keys.Pairwise (· ≤ ·)) :
    store.Resumes 0 keys where
  ascending := ascending
  passed := fun _ _ earlier before => absurd before (Nat.not_lt_zero earlier)

/-- The batch goes on from an entry before which no key reaches the key just handled. -/
theorem advance (resumes : store.Resumes entry (key :: rest))
    (smaller : ∀ earlier, entry ≤ earlier → earlier < next → store.key earlier < key) :
    store.Resumes next rest where
  ascending := resumes.ascending.of_cons
  passed := by
    intro later member earlier before
    have notSmaller : key ≤ later := List.rel_of_pairwise_cons resumes.ascending member
    rcases Nat.lt_or_ge earlier entry with behind | ahead
    · exact resumes.passed later (List.mem_cons_of_mem _ member) earlier behind
    · exact UInt64.lt_of_lt_of_le (smaller earlier ahead before) notSmaller

/-- Once every entry has been passed no key of the batch is in the store. -/
theorem finds_none {keys : List UInt64} (resumes : store.Resumes store.entries keys) :
    List.Forall₂ store.Finds keys (keys.map fun _ => none) := by
  induction keys with
  | nil => exact .nil
  | cons key rest inductionHypothesis =>
    refine .cons ?_ (inductionHypothesis (resumes.advance fun earlier behind before =>
      absurd before (Nat.not_lt_of_le behind)))
    intro entry below isKey
    exact UInt64.lt_irrefl key (isKey ▸ resumes.passed key List.mem_cons_self entry below)

end Resumes

/-! ### Both strategies -/

namespace Sound

variable {store : Store}

/-- Walking to a key passes smaller keys only. -/
theorem advance_eq (sound : store.Sound) (key : UInt64) {entry : Nat}
    (inside : entry ≤ store.entries) :
    ∃ next, store.advance key entry = .ok next ∧ next ≤ store.entries ∧
      (∀ earlier, entry ≤ earlier → earlier < next → store.key earlier < key) ∧
      (next < store.entries → key ≤ store.key next) := by
  induction gap : store.entries - entry generalizing entry with
  | zero =>
    refine ⟨entry, ?_, inside, fun earlier behind before => ?_, fun below => ?_⟩
    · rw [Store.advance, dif_neg (by omega)]
      rfl
    · exact absurd before (Nat.not_lt_of_le behind)
    · omega
  | succ gap inductionHypothesis =>
    have below : entry < store.entries := by omega
    rw [Store.advance, dif_pos below, sound.keyAt_eq below, ok_bind]
    split
    · rename_i isSmaller
      obtain ⟨next, walked, upTo, smaller, notSmaller⟩ :=
        inductionHypothesis (show entry + 1 ≤ store.entries by omega) (by omega)
      refine ⟨next, walked, upTo, fun earlier behind before => ?_, notSmaller⟩
      rcases Nat.lt_or_ge entry earlier with later | here
      · exact smaller earlier later before
      · rwa [Nat.le_antisymm here behind]
    · rename_i isNotSmaller
      refine ⟨entry, rfl, inside, fun earlier behind before => ?_, fun _ =>
        UInt64.not_lt.mp isNotSmaller⟩
      exact absurd before (Nat.not_lt_of_le behind)

theorem locateByMerge_eq (sound : store.Sound) (keys : List UInt64) {entry : Nat}
    (inside : entry ≤ store.entries) :
    ∃ found, store.locateByMerge entry keys = .ok found ∧ store.FoundInside found ∧
      (store.Ordered → store.Resumes entry keys → List.Forall₂ store.Finds keys found) := by
  induction keys generalizing entry with
  | nil => exact ⟨[], rfl, .nil, fun _ _ => .nil⟩
  | cons key rest inductionHypothesis =>
    obtain ⟨next, walked, upTo, smaller, notSmaller⟩ := sound.advance_eq key inside
    rw [locateByMerge, walked, ok_bind]
    split
    · rename_i atEnd
      subst atEnd
      refine ⟨_, rfl, .cons_none (.map_none rest), fun _ resumes => .cons ?_
        (resumes.advance smaller).finds_none⟩
      intro earlier below isKey
      rcases Nat.lt_or_ge earlier entry with behind | ahead
      · exact UInt64.lt_irrefl key
          (isKey ▸ resumes.passed key List.mem_cons_self earlier behind)
      · exact UInt64.lt_irrefl key (isKey ▸ smaller earlier ahead below)
    · rename_i notEnd
      have below : next < store.entries := by omega
      obtain ⟨found, located, foundInside, finds⟩ := inductionHypothesis upTo
      rw [sound.keyAt_eq below, ok_bind, located]
      refine ⟨_, rfl, ?_, fun ordered resumes => .cons ?_
        (finds ordered (resumes.advance smaller))⟩
      · split
        · exact .cons_some below foundInside
        · exact .cons_none foundInside
      · split
        · rename_i isKey
          exact ⟨below, eq_of_beq isKey⟩
        · rename_i isNotKey
          intro other otherBelow isKey
          -- A key equal to the one searched is neither passed nor at `next` nor after it.
          rcases Nat.lt_trichotomy other next with before | rfl | after
          · rcases Nat.lt_or_ge other entry with behind | ahead
            · exact UInt64.lt_irrefl key
                (isKey ▸ resumes.passed key List.mem_cons_self other behind)
            · exact UInt64.lt_irrefl key (isKey ▸ smaller other ahead before)
          · exact isNotKey (beq_iff_eq.mpr isKey)
          · refine UInt64.lt_irrefl key (UInt64.lt_of_le_of_lt (notSmaller below) ?_)
            exact isKey ▸ ordered.ascending next other after otherBelow

theorem locateBySearch_eq (sound : store.Sound) (keys : List UInt64) {entry : Nat}
    (inside : entry ≤ store.entries) :
    ∃ found, store.locateBySearch entry keys = .ok found ∧ store.FoundInside found ∧
      (store.Ordered → store.Resumes entry keys → List.Forall₂ store.Finds keys found) := by
  induction keys generalizing entry with
  | nil => exact ⟨[], rfl, .nil, fun _ _ => .nil⟩
  | cons key rest inductionHypothesis =>
    rw [locateBySearch]
    split
    · rename_i atEnd
      subst atEnd
      exact ⟨_, rfl, .cons_none (.map_none rest), fun _ resumes => resumes.finds_none⟩
    obtain ⟨position, searched, within, splits⟩ :=
      sound.searchEntries_eq key inside (Nat.le_refl _) false
    have finds_head : store.Ordered → store.Resumes entry (key :: rest) →
        store.Finds key (Ordered.foundEntry position) := fun ordered resumes =>
      ordered.finds_of_isFirst (Nat.le_refl _) (splits (ordered.ascendingOn (Nat.le_refl _)))
        (resumes.passed key List.mem_cons_self)
        (fun other notBelow below => absurd below (Nat.not_lt_of_le notBelow))
    have resumes_rest : store.Ordered → store.Resumes entry (key :: rest) →
        store.Resumes position.entry rest := fun ordered resumes =>
      resumes.advance (splits (ordered.ascendingOn (Nat.le_refl _))).smaller
    obtain ⟨found, located, foundInside, finds⟩ := inductionHypothesis within.le_stop
    rw [searched, ok_bind]
    cases position with
    | found place =>
      dsimp only [Position.entry] at located ⊢
      rw [located]
      exact ⟨_, rfl, .cons_some (within.found_lt place rfl) foundInside, fun ordered resumes =>
        .cons (finds_head ordered resumes) (finds ordered (resumes_rest ordered resumes))⟩
    | insertion place =>
      dsimp only [Position.entry] at located ⊢
      rw [located]
      exact ⟨_, rfl, .cons_none foundInside, fun ordered resumes =>
        .cons (finds_head ordered resumes) (finds ordered (resumes_rest ordered resumes))⟩

/-- Either strategy locates some keys in any store, and the right ones in a store that finds
its keys. -/
theorem locate_eq (sound : store.Sound) (strategy : Strategy) (keys : List UInt64) :
    ∃ found, store.locate strategy keys = .ok found ∧ store.FoundInside found ∧
      (store.Ordered → keys.Pairwise (· ≤ ·) → List.Forall₂ store.Finds keys found) := by
  cases strategy with
  | merge =>
    obtain ⟨found, located, inside, finds⟩ := sound.locateByMerge_eq keys (Nat.zero_le _)
    exact ⟨found, located, inside, fun ordered ascending => finds ordered (.atStart ascending)⟩
  | search =>
    obtain ⟨found, located, inside, finds⟩ := sound.locateBySearch_eq keys (Nat.zero_le _)
    exact ⟨found, located, inside, fun ordered ascending => finds ordered (.atStart ascending)⟩

end Sound

/-! ### Columns and filters -/

/-- A word of a record, or 0 where the store has no such record. -/
def word (store : Store) (column entry : Nat) : UInt64 :=
  (store.data[entry * store.shape.width + column]?).getD 0

/-- A word of the record that was found for a key, or 0 where none was. -/
def columnOf (store : Store) (column : Nat) : Option Nat → UInt64
  | none => 0
  | some entry => store.word column entry

namespace Sound

variable {store : Store}

theorem wordAt_record (sound : store.Sound) {entry column : Nat} (below : entry < store.entries)
    (inside : column < store.shape.width) :
    wordAt (store.data.extract (entry * store.shape.width)
      (entry * store.shape.width + store.shape.width)) column = .ok (store.word column entry) := by
  have record := sound.record_inside below
  rw [wordAt_eq (by rw [Array.size_extract]; omega), Array.getElem_extract, word,
    Array.getElem?_eq_getElem (by omega), Option.getD_some]

/-- A batch lookup of a column that the records have answers for every strictly ascending
batch, and for the entries with those keys in a store that finds its keys. -/
theorem columnWith_eq (sound : store.Sound) (strategy : Strategy) {keys : List UInt64}
    (ascending : keys.Pairwise (· < ·)) {column : Nat} (inside : column < store.shape.width) :
    ∃ found, store.columnWith strategy keys column = .ok (found.map (store.columnOf column)) ∧
      (store.Ordered → List.Forall₂ store.Finds keys found) := by
  obtain ⟨found, located, foundInside, finds⟩ := sound.locate_eq strategy keys
  have isAscending : (!strictlyAscending keys) = false := by
    rw [strictlyAscending_iff.mpr ascending]
    rfl
  refine ⟨found, ?_, fun ordered => finds ordered (ascending.imp UInt64.le_of_lt)⟩
  rw [columnWith, if_neg (Nat.not_le_of_lt inside), isAscending, if_neg Bool.false_ne_true, located]
  refine mapM_eq_ok fun outcome member => ?_
  cases outcome with
  | none => rfl
  | some entry =>
    have record := sound.record_inside (foundInside entry member)
    have small := sound.data_small
    dsimp only
    rw [checkedMul_eq (by omega), ok_bind, checkedAdd_eq (by omega), ok_bind,
      wordAt_eq (by omega), columnOf, word, Array.getElem?_eq_getElem (by omega), Option.getD_some]

/-- Narrowing ascending candidates by a store never faults. -/
theorem select_eq (sound : store.Sound) (present : Bool) {candidates : List UInt64}
    (ascending : candidates.Pairwise (· ≤ ·)) :
    ∃ found, store.select present candidates =
        .ok (((candidates.zip found).filter fun entry => entry.2.isSome == present).map (·.1)) ∧
      (store.Ordered → List.Forall₂ store.Finds candidates found) := by
  obtain ⟨found, located, -, finds⟩ := sound.locate_eq
    (.choose candidates.length store.entries defaultMergeRatio) candidates
  have isAscending : (!InvertedIndex.ascending candidates) = false := by
    rw [ascending_iff.mpr ascending]
    rfl
  refine ⟨found, ?_, fun ordered => finds ordered ascending⟩
  rw [select, isAscending, if_neg Bool.false_ne_true]
  dsimp only
  rw [located]
  rfl

end Sound

end Store

end InvertedIndex
