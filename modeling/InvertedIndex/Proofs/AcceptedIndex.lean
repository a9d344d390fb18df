/-
This file proves what it means that an index was accepted. Its directory is a term store
that takes up the whole of the first file, the terms ascend, and every record of it points
to where a postings store stands. Queries open these stores again without checking them;
in an accepted index that never fails.
-/

import InvertedIndex.Index
import InvertedIndex.Proofs.StoreBatch

namespace InvertedIndex

theorem Shape.terms_sized : Shape.terms.Sized := ⟨by decide, by decide⟩

theorem Shape.postings_sized : Shape.postings.Sized := ⟨by decide, by decide⟩

namespace Index

/-- The term directory of an index with this many terms. -/
def termStore (index : Index) (terms : Nat) : Store :=
  .cut index.words 0 Shape.terms terms index.options.backend

/-- Where the postings of the term at an entry of the directory start. -/
def postingsOffset (index : Index) (terms entry : Nat) : Nat :=
  ((index.termStore terms).word 1 entry).toNat

/-- The postings store of this many documents at an offset. -/
def postingsStore (index : Index) (offset documents : Nat) : Store :=
  .cut index.docs offset Shape.postings documents index.options.backend

/-- An index that passes every check when it is opened. -/
structure Accepted (index : Index) (terms : Nat) : Prop where
  words_small : index.words.size < regionLimit
  docs_small : index.docs.size < regionLimit
  directory : Shape.terms.StandsAt index.words 0 terms
  whole : Shape.terms.extent terms = index.words.size
  ascending : ∀ entry, 0 < entry → entry < terms →
    (index.termStore terms).key (entry - 1) < (index.termStore terms).key entry
  postings : ∀ entry, entry < terms → ∃ documents,
    Shape.postings.StandsAt index.docs (index.postingsOffset terms entry) documents

/-! ### The checks -/

theorem directoryRecord_eq {directory : Store} (sound : directory.Sound)
    (width : directory.shape.width = 2) {entry : Nat} (below : entry < directory.entries) :
    directoryRecord directory entry =
      .ok (directory.key entry, (directory.word 1 entry).toNat) := by
  rw [directoryRecord, sound.record_eq below, ok_bind,
    sound.wordAt_record below (show 0 < directory.shape.width by omega), ok_bind,
    sound.wordAt_record below (show 1 < directory.shape.width by omega), ok_bind]
  rfl

variable {index : Index} {terms : Nat}

theorem termStore_sound (small : index.words.size < regionLimit)
    (stands : Shape.terms.StandsAt index.words 0 terms) : (index.termStore terms).Sound :=
  Store.cut_sound Shape.terms_sized small stands _

theorem checkRecord_eq_ok_iff (wordsPath : Path) (wordsSmall : index.words.size < regionLimit)
    (docsSmall : index.docs.size < regionLimit)
    (stands : Shape.terms.StandsAt index.words 0 terms) {entry : Nat} (below : entry < terms) :
    index.checkRecord wordsPath (index.termStore terms) entry = .ok () ↔
      (0 < entry →
        (index.termStore terms).key (entry - 1) < (index.termStore terms).key entry) ∧
      ∃ documents,
        Shape.postings.StandsAt index.docs (index.postingsOffset terms entry) documents := by
  have sound := termStore_sound wordsSmall stands
  have below' : entry < (index.termStore terms).entries := below
  have header : (Header.read index.docs (index.postingsOffset terms entry) Shape.postings >>=
      fun _ => (.ok () : Except (Failure StorageError) Unit)) = .ok () ↔
      ∃ documents,
        Shape.postings.StandsAt index.docs (index.postingsOffset terms entry) documents := by
    rw [bind_eq_ok]
    constructor
    · rintro ⟨header, accepted, _⟩
      obtain ⟨documents, standing, _⟩ := Header.standsAt_of_read docsSmall accepted
      exact ⟨documents, standing⟩
    · rintro ⟨documents, standing⟩
      exact ⟨_, Header.read_of_standsAt Shape.postings_sized docsSmall standing, rfl⟩
  rw [← header, checkRecord, directoryRecord_eq sound rfl below', lift_ok, ok_bind]
  dsimp only
  by_cases first : 0 < entry
  · rw [if_pos first, sound.keyAt_eq (Nat.lt_of_le_of_lt (Nat.sub_le _ _) below'), lift_ok,
      ok_bind]
    by_cases smaller : (index.termStore terms).key (entry - 1) < (index.termStore terms).key entry
    · rw [if_neg (UInt64.not_le.mpr smaller)]
      exact ⟨fun rest => ⟨fun _ => smaller, rest⟩, fun both => both.2⟩
    · rw [if_pos (UInt64.not_lt.mp smaller), error_bind]
      exact ⟨nofun, fun both => absurd (both.1 first) smaller⟩
  · rw [if_neg first]
    exact ⟨fun rest => ⟨fun isLater => absurd isLater first, rest⟩, fun both => both.2⟩

/-- What is left to check once the directory stands where it should. -/
theorem check_eq_ok_iff_of_standsAt (wordsPath : Path)
    (wordsSmall : index.words.size < regionLimit)
    (stands : Shape.terms.StandsAt index.words 0 terms) :
    index.check wordsPath = .ok () ↔
      Shape.terms.extent terms = index.words.size ∧ ∀ entry, entry < terms →
        index.checkRecord wordsPath (index.termStore terms) entry = .ok () := by
  have opened : Store.open index.words 0 Shape.terms index.options.backend =
      .ok (index.termStore terms) :=
    Store.open_of_standsAt Shape.terms_sized wordsSmall stands _
  have covered : (index.termStore terms).sizeWords = .ok (Shape.terms.extent terms) :=
    (termStore_sound wordsSmall stands).sizeWords_eq
  rw [check, opened, ok_bind, covered, lift_ok, ok_bind]
  dsimp only
  by_cases whole : Shape.terms.extent terms = index.words.size
  · rw [if_neg (not_not_intro whole)]
    refine Iff.trans forM_eq_ok
      ⟨fun each => ⟨whole, fun entry below => ?_⟩, fun both entry member => ?_⟩
    · exact each entry (List.mem_range.mpr below)
    · exact both.2 entry (List.mem_range.mp member)
  · rw [if_pos whole, error_bind]
    exact ⟨nofun, fun both => absurd both.1 whole⟩

/-- An index passes its checks exactly when it is acceptable with some number of terms. -/
theorem check_eq_ok_iff (wordsPath : Path) (wordsSmall : index.words.size < regionLimit)
    (docsSmall : index.docs.size < regionLimit) :
    index.check wordsPath = .ok () ↔ ∃ terms, index.Accepted terms := by
  constructor
  · intro passed
    obtain ⟨directory, opened, -⟩ := bind_eq_ok.mp passed
    obtain ⟨terms, stands, -⟩ := Store.standsAt_of_open wordsSmall opened
    obtain ⟨whole, each⟩ := (check_eq_ok_iff_of_standsAt wordsPath wordsSmall stands).mp passed
    have record : ∀ entry, entry < terms → _ := fun entry below =>
      (checkRecord_eq_ok_iff wordsPath wordsSmall docsSmall stands below).mp (each entry below)
    exact ⟨terms, wordsSmall, docsSmall, stands, whole,
      fun entry positive below => (record entry below).1 positive,
      fun entry below => (record entry below).2⟩
  · rintro ⟨terms, accepted⟩
    refine (check_eq_ok_iff_of_standsAt wordsPath wordsSmall accepted.directory).mpr
      ⟨accepted.whole, fun entry below => ?_⟩
    exact (checkRecord_eq_ok_iff wordsPath wordsSmall docsSmall accepted.directory below).mpr
      ⟨fun positive => accepted.ascending entry positive below, accepted.postings entry below⟩

/-! ### The stores that queries open -/

namespace Accepted

theorem directory_eq (accepted : index.Accepted terms) :
    index.directory = .ok (index.termStore terms) :=
  Store.openTrusted_of_standsAt Shape.terms_sized accepted.words_small accepted.directory _

theorem directory_sound (accepted : index.Accepted terms) : (index.termStore terms).Sound :=
  termStore_sound accepted.words_small accepted.directory

theorem directoryRecord_eq (accepted : index.Accepted terms) {entry : Nat}
    (below : entry < terms) :
    directoryRecord (index.termStore terms) entry =
      .ok ((index.termStore terms).key entry, index.postingsOffset terms entry) :=
  Index.directoryRecord_eq accepted.directory_sound rfl below

/-- A postings store that stands somewhere is opened there. -/
theorem postingsAt_eq (accepted : index.Accepted terms) {offset documents : Nat}
    (stands : Shape.postings.StandsAt index.docs offset documents) :
    index.postingsAt offset = .ok (index.postingsStore offset documents) :=
  Store.openTrusted_of_standsAt Shape.postings_sized accepted.docs_small stands _

theorem postingsStore_sound (accepted : index.Accepted terms) {offset documents : Nat}
    (stands : Shape.postings.StandsAt index.docs offset documents) :
    (index.postingsStore offset documents).Sound :=
  Store.cut_sound Shape.postings_sized accepted.docs_small stands _

/-- The postings of a term are those that its record points to. -/
theorem postings_of_found (accepted : index.Accepted terms) {term : Term} {entry documents : Nat}
    (found : (index.termStore terms).find term = .ok (some entry)) (below : entry < terms)
    (stands : Shape.postings.StandsAt index.docs (index.postingsOffset terms entry) documents) :
    index.postings term =
      .ok (some (index.postingsStore (index.postingsOffset terms entry) documents)) := by
  rw [Index.postings, accepted.directory_eq, ok_bind, found, ok_bind]
  dsimp only
  rw [accepted.directoryRecord_eq below, ok_bind, accepted.postingsAt_eq stands]
  rfl

theorem postings_of_absent (accepted : index.Accepted terms) {term : Term}
    (absent : (index.termStore terms).find term = .ok none) : index.postings term = .ok none := by
  rw [Index.postings, accepted.directory_eq, ok_bind, absent]
  rfl

/-- Every term has postings in a sound store or none at all. -/
theorem postings_eq (accepted : index.Accepted terms) (term : Term) :
    ∃ answer, index.postings term = .ok answer ∧
      ∀ store, answer = some store → store.Sound ∧ store.shape = Shape.postings := by
  obtain ⟨found, located, inside⟩ := accepted.directory_sound.find_eq term
  cases found with
  | none => exact ⟨none, accepted.postings_of_absent located, fun store equal => nomatch equal⟩
  | some entry =>
    have below : entry < terms := inside entry rfl
    obtain ⟨documents, stands⟩ := accepted.postings entry below
    refine ⟨_, accepted.postings_of_found located below stands, fun store equal => ?_⟩
    cases equal
    exact ⟨accepted.postingsStore_sound stands, rfl⟩

theorem numTerms_eq (accepted : index.Accepted terms) : index.numTerms = .ok terms := by
  rw [numTerms, accepted.directory_eq]
  rfl

/-- The terms are listed in the order of their records, each with the number of documents in
the postings that its record points to. -/
theorem termCounts_eq (accepted : index.Accepted terms) :
    ∃ counts, index.termCounts = .ok counts ∧
      counts.map Prod.fst = (List.range terms).map (index.termStore terms).key ∧
      ∀ term count, (term, count) ∈ counts → ∃ entry, entry < terms ∧
        (index.termStore terms).key entry = term ∧
        Shape.postings.StandsAt index.docs (index.postingsOffset terms entry) count := by
  choose! documents stands using accepted.postings
  refine ⟨(List.range terms).map fun entry => ((index.termStore terms).key entry, documents entry),
    ?_, ?_, fun term count member => ?_⟩
  · rw [termCounts, accepted.directory_eq, ok_bind]
    refine mapM_eq_ok fun entry member => ?_
    have below : entry < terms := List.mem_range.mp member
    dsimp only
    rw [accepted.directoryRecord_eq below, ok_bind]
    dsimp only
    rw [accepted.postingsAt_eq (stands entry below)]
    rfl
  · rw [List.map_map]
    rfl
  · obtain ⟨entry, isEntry, same⟩ := List.mem_map.mp member
    have below : entry < terms := List.mem_range.mp isEntry
    cases same
    exact ⟨entry, below, rfl, stands entry below⟩

end Accepted

end Index

end InvertedIndex
