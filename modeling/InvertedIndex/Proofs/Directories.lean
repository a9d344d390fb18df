/-
This file proves that a directory lists each of its entries once. What a location holds is
the first node that a file system keeps for it, and a listing goes through all nodes, so
the two agree as long as no location has two nodes. A file system starts that way, and
every operation on files leaves it that way.
-/

import InvertedIndex.Proofs.FailedFinalization
import Mathlib.Data.List.Nodup

namespace InvertedIndex

namespace FileSystem

variable {files after : FileSystem} {path : Path}

/-- No location has two nodes. -/
def HeldOnce (files : FileSystem) : Prop := (files.nodes.map (·.1)).Nodup

instance (files : FileSystem) : Decidable files.HeldOnce :=
  inferInstanceAs (Decidable (files.nodes.map (·.1)).Nodup)

/-! ### Operations on files -/

theorem length_le_of_mem_directoriesTo {location : Location} {entry : Location × Node}
    (member : entry ∈ directoriesTo location) : entry.1.length ≤ location.length := by
  induction location with
  | nil => cases member
  | cons name holder inductionHypothesis =>
    rcases List.mem_cons.mp member with rfl | above
    · exact Nat.le_refl _
    · exact Nat.le_succ_of_le (inductionHypothesis above)

theorem heldOnce_withWorkingDirectory (location : Location) :
    (withWorkingDirectory location).HeldOnce := by
  rw [HeldOnce, withWorkingDirectory]
  induction location with
  | nil => exact List.nodup_nil
  | cons name holder inductionHypothesis =>
    refine List.nodup_cons.mpr ⟨fun member => ?_, inductionHypothesis⟩
    obtain ⟨entry, above, same⟩ := List.mem_map.mp member
    have shorter := length_le_of_mem_directoriesTo above
    rw [same, List.length_cons] at shorter
    exact Nat.not_succ_le_self _ shorter

namespace HeldOnce

theorem of_sublist (heldOnce : files.HeldOnce) (fewer : after.nodes.Sublist files.nodes) :
    after.HeldOnce :=
  List.Nodup.sublist (fewer.map _) heldOnce

theorem erase (heldOnce : files.HeldOnce) (location : Location) :
    (files.erase location).HeldOnce :=
  heldOnce.of_sublist List.filter_sublist

theorem put (heldOnce : files.HeldOnce) (location : Location) (node : Node) :
    (files.put location node).HeldOnce := by
  refine List.nodup_cons.mpr ⟨fun member => ?_, heldOnce.erase location⟩
  obtain ⟨entry, kept, same⟩ := List.mem_map.mp member
  exact (of_decide_eq_true (List.mem_filter.mp kept).2) same

theorem createNew {contents : List UInt8} (heldOnce : files.HeldOnce)
    (created : files.createNew path contents = .ok after) : after.HeldOnce := by
  obtain ⟨location, _, _, rfl⟩ := names_of_createNew created
  exact heldOnce.put location _

theorem write {contents : List UInt8} (heldOnce : files.HeldOnce)
    (written : files.write path contents = .ok after) : after.HeldOnce := by
  obtain ⟨place, _, rest⟩ := bind_eq_ok.mp written
  split at rest
  · cases rest
  · split at rest
    · cases rest
    · obtain ⟨present, _, rest⟩ := bind_eq_ok.mp rest
      split at rest
      · cases rest
      · cases rest
        exact heldOnce.put _ _

theorem remove (heldOnce : files.HeldOnce) (removed : files.remove path = .ok after) :
    after.HeldOnce := by
  obtain ⟨place, _, rest⟩ := bind_eq_ok.mp removed
  split at rest
  · cases rest
  · obtain ⟨present, _, rest⟩ := bind_eq_ok.mp rest
    split at rest
    · cases rest
    · cases rest
    · split at rest
      · cases rest
      · cases rest
        exact heldOnce.erase _

theorem removeTree (heldOnce : files.HeldOnce) (removed : files.removeTree path = .ok after) :
    after.HeldOnce := by
  obtain ⟨_, _, rest⟩ := bind_eq_ok.mp removed
  cases rest
  exact heldOnce.of_sublist List.filter_sublist

theorem rename {target : Path} (heldOnce : files.HeldOnce)
    (moved : files.rename path target = .ok after) : after.HeldOnce := by
  rw [FileSystem.rename] at moved
  split at moved
  · cases moved
  · obtain ⟨first, _, rest⟩ := bind_eq_ok.mp moved
    obtain ⟨second, _, rest⟩ := bind_eq_ok.mp rest
    split at rest
    · obtain ⟨present, _, rest⟩ := bind_eq_ok.mp rest
      split at rest
      · cases rest
      · cases rest
      · obtain ⟨there, _, rest⟩ := bind_eq_ok.mp rest
        split at rest
        · cases rest
        · split at rest
          · cases rest
          · split at rest
            · cases rest
              exact heldOnce
            · cases rest
              exact (heldOnce.erase _).put _ _
    · cases rest

theorem makeDirectory (heldOnce : files.HeldOnce)
    (made : files.makeDirectory path = .ok after) : after.HeldOnce := by
  obtain ⟨place, _, rest⟩ := bind_eq_ok.mp made
  split at rest
  · cases rest
  · obtain ⟨present, _, rest⟩ := bind_eq_ok.mp rest
    split at rest
    · cases rest
    · cases rest
      exact heldOnce.put _ _

theorem ensureDirectory (heldOnce : files.HeldOnce) (path : Path) :
    (files.ensureDirectory path).2.HeldOnce := by
  rw [FileSystem.ensureDirectory]
  split
  · rename_i made
    exact heldOnce.makeDirectory made
  · split <;> exact heldOnce

/-- Directories that were made above a refused one keep the property, too. -/
theorem makeDirectories (heldOnce : files.HeldOnce) (path : Path) :
    (files.makeDirectories path).2.HeldOnce := by
  fun_induction FileSystem.makeDirectories files path with
  | case1 => exact heldOnce
  | case2 => exact heldOnce
  | case3 path _ _ _ _ _ changed made inductionHypothesis =>
    rw [made] at inductionHypothesis
    exact HeldOnce.ensureDirectory inductionHypothesis path
  | case4 _ _ _ _ _ _ _ inductionHypothesis => exact inductionHypothesis
  | case5 path => exact heldOnce.ensureDirectory path

end HeldOnce

/-! ### Listings -/

theorem HeldOnce.lookup_eq_some_iff (heldOnce : files.HeldOnce) {name : String}
    {holder : Location} {node : Node} :
    files.lookup (name :: holder) = some node ↔ (name :: holder, node) ∈ files.nodes := by
  rw [lookup, Option.map_eq_some_iff]
  constructor
  · rintro ⟨⟨location, _⟩, found, rfl⟩
    obtain rfl : location = name :: holder := by simpa using List.find?_some found
    exact List.mem_of_find?_eq_some found
  · intro member
    cases found : files.nodes.find? fun entry => entry.1 = name :: holder with
    | none => simpa using List.find?_eq_none.mp found _ member
    | some entry =>
      have same : entry.1 = name :: holder := by simpa using List.find?_some found
      exact ⟨entry, rfl, congrArg Prod.snd (List.inj_on_of_nodup_map heldOnce
        (List.mem_of_find?_eq_some found) member same)⟩

/-- What a directory lists: all its entries, no name twice. -/
structure Lists (files : FileSystem) (place : Location) (entries : List (String × Node)) :
    Prop where
  mem_iff : ∀ name node, (name, node) ∈ entries ↔ files.lookup (name :: place) = some node
  distinct : (entries.map (·.1)).Nodup

/-- What a directory shows of a node: its name, when the directory holds it. -/
def shownIn (place : Location) (entry : Location × Node) : Option (String × Node) :=
  match entry.1 with
  | name :: holder => if holder = place then some (name, entry.2) else none
  | [] => none

theorem shownIn_eq_some_iff {place : Location} {entry : Location × Node}
    {shown : String × Node} :
    shownIn place entry = some shown ↔ entry = (shown.1 :: place, shown.2) := by
  obtain ⟨location, node⟩ := entry
  cases location with
  | nil => simp [shownIn]
  | cons name holder =>
    by_cases below : holder = place
    · simp [shownIn, below, Prod.ext_iff]
    · simp [shownIn, below]

theorem list_of_directory {place : Location} (heldOnce : files.HeldOnce)
    (isDirectory : files.resolve path = .ok (place, .directory)) :
    ∃ entries, files.list path = .ok entries ∧ files.Lists place entries := by
  have listed : files.list path = .ok ((files.nodes.filterMap (shownIn place)).mergeSort
      fun first second => first.1 ≤ second.1) := by
    rw [list, isDirectory]
    rfl
  refine ⟨_, listed, fun name node => ?_, ?_⟩
  · simp only [List.mem_mergeSort, List.mem_filterMap, shownIn_eq_some_iff, exists_eq_right,
      heldOnce.lookup_eq_some_iff]
  · refine ((List.mergeSort_perm _ _).map _).nodup_iff.mpr ?_
    rw [HeldOnce, List.Nodup, List.pairwise_map] at heldOnce
    rw [List.Nodup, List.pairwise_map]
    refine heldOnce.filterMap _ fun first second different firstShown isFirst secondShown
      isSecond same => different ?_
    rw [shownIn_eq_some_iff.mp isFirst, shownIn_eq_some_iff.mp isSecond, same]

end FileSystem

/-! ### Paths of entries -/

namespace Path

/-- A name that spells one step, to an entry. -/
structure Plain (name : String) : Prop where
  noSlash : '/' ∉ name.toList
  isStep : stepOf name.toList = some (.into name)

theorem pieces_of_noSlash {text : List Char} (noSlash : '/' ∉ text) : pieces text = [text] := by
  induction text with
  | nil => rfl
  | cons character rest inductionHypothesis =>
    obtain ⟨notFirst, notLater⟩ := not_or.mp (mt List.mem_cons.mpr noSlash)
    rw [pieces, if_neg (Ne.symm notFirst), inductionHypothesis notLater]

theorem pieces_append_slash (front rest : List Char) :
    pieces (front ++ '/' :: rest) = pieces front ++ pieces rest := by
  induction front with
  | nil => rfl
  | cons character front inductionHypothesis =>
    rw [List.cons_append, pieces, pieces, inductionHypothesis]
    by_cases isSlash : character = '/'
    · rw [if_pos isSlash, if_pos isSlash, List.cons_append]
    · rw [if_neg isSlash, if_neg isSlash]
      cases split : pieces front with
      | nil => exact absurd split (pieces_ne_nil front)
      | cons piece more => rfl

namespace Plain

variable {name : String}

theorem ne_piece (plain : Plain name) {piece : List Char}
    (otherStep : stepOf piece ≠ some (.into name)) : name.toList ≠ piece := fun same =>
  otherStep (same ▸ plain.isStep)

theorem ne_nil (plain : Plain name) : name.toList ≠ [] := plain.ne_piece nofun

theorem head?_ne_slash (plain : Plain name) : name.toList.head? ≠ some '/' := fun isSlash =>
  plain.noSlash (List.mem_of_mem_head? isSlash)

/-- The spelling of an entry's path ends in its name, after a start that does not depend on
the name. -/
theorem joinedText_eq (plain : Plain name) (base : String) :
    joinedText base name =
      (if base = "" || base.toList.getLast? = some '/' then base else base ++ "/") ++ name := by
  rw [joinedText, if_neg plain.head?_ne_slash]
  split <;> rfl

/-- What a text spells whose last piece is the name. -/
theorem ofText_eq (plain : Plain name) {text : String} {front : List (List Char)}
    (parts : pieces text.toList = front ++ [name.toList]) :
    ofText text =
      { text
        absolute := text.toList.head? = some '/'
        dotted := front.head? = some ['.']
        steps := front.filterMap stepOf ++ [.into name]
        ending := .name } := by
  have notDot : name.toList ≠ ['.'] := plain.ne_piece nofun
  have notDots : name.toList ≠ ['.', '.'] := plain.ne_piece nofun
  have start : (front ++ [name.toList]).head? = some ['.'] ↔ front.head? = some ['.'] := by
    cases front with
    | nil => simpa using notDot
    | cons => rfl
  have steps : (front ++ [name.toList]).filterMap stepOf =
      front.filterMap stepOf ++ [.into name] := by
    rw [List.filterMap_append, List.filterMap_cons_some plain.isStep, List.filterMap_nil]
  have ending : endingOf (front ++ [name.toList]) = .name := by
    rw [endingOf, List.filter_append, List.filter_cons_of_pos (by simpa using plain.ne_nil),
      List.filter_nil, List.getLast?_concat, List.getLast?_concat]
    split
    · rename_i isDot
      exact absurd (Option.some.inj isDot) notDot
    · rename_i isDots
      exact absurd (Option.some.inj isDots) notDots
    · exact if_neg (by simpa using plain.ne_nil)
  rw [ofText, parts]
  simp only [start, steps, ending]

/-- The pieces before the name are those of the directory, up to an empty last one. -/
theorem pieces_joinedText (plain : Plain name) (text : String) :
    ∃ front, pieces (joinedText text name).toList = front ++ [name.toList] ∧
      (front.head? = some ['.'] ↔ (pieces text.toList).head? = some ['.']) ∧
      front.filterMap stepOf = (pieces text.toList).filterMap stepOf ∧
      ((joinedText text name).toList.head? = some '/' ↔ text.toList.head? = some '/') := by
  have last : pieces name.toList = [name.toList] := pieces_of_noSlash plain.noSlash
  by_cases isEmpty : text = ""
  · subst isEmpty
    have spelled : joinedText "" name = name := by simp [plain.joinedText_eq]
    exact ⟨[], by rw [spelled, last, List.nil_append], by simp [pieces], rfl,
      by simp [spelled, plain.head?_ne_slash]⟩
  have start (trail : List Char) :
      (text.toList ++ trail).head? = some '/' ↔ text.toList.head? = some '/' := by
    rw [List.head?_append_of_ne_nil _ (by simpa using isEmpty)]
  by_cases slashed : text.toList.getLast? = some '/'
  · obtain ⟨front, isFront⟩ := List.getLast?_eq_some_iff.mp slashed
    have parts : pieces text.toList = pieces front ++ [[]] := by
      rw [isFront, pieces_append_slash, pieces]
    rw [plain.joinedText_eq, if_pos (by simp [slashed]), String.toList_append]
    refine ⟨pieces front, ?_, ?_, ?_, start _⟩
    · rw [isFront, List.append_assoc, List.singleton_append, pieces_append_slash, last]
    · rw [parts, List.head?_append_of_ne_nil _ (pieces_ne_nil front)]
    · rw [parts, List.filterMap_append]
      exact (List.append_nil _).symm
  · rw [plain.joinedText_eq, if_neg (by simp [isEmpty, slashed]), String.toList_append,
      String.toList_append, List.append_assoc]
    exact ⟨pieces text.toList, (pieces_append_slash _ _).trans (congrArg _ last), Iff.rfl, rfl,
      start _⟩

/-- An entry of a directory has the path that its name spells below the directory. -/
theorem child_eq_join (plain : Plain name) (text : String) :
    (ofText text).child name = (ofText text).join name := by
  obtain ⟨front, parts, dotted, steps, absolute⟩ := plain.pieces_joinedText text
  rw [join]
  show (ofText text).child name = ofText (joinedText text name)
  rw [plain.ofText_eq parts]
  simp only [child, ofText, dotted, steps, absolute]

end Plain

end Path

end InvertedIndex
