/-
This file proves which files of a directory a build reads as shards, and in which order. The
name of a shard spells its number with at least four digits, more than the number needs when
there are leading zeros, so several names can stand for one number and the order falls back
on the paths. Whatever else the directory holds has no influence.
-/

import InvertedIndex.Proofs.Directories
import InvertedIndex.Proofs.KeyedLists
import InvertedIndex.Journal.Shard
import Mathlib.Data.List.Sort

namespace InvertedIndex.Journal

/-! ### Names of shards -/

/-- A name that stands for a shard of this number. -/
structure ShardNamed (name : String) (number : Nat) : Prop where
  small : number < wordLimit
  spelled : ∃ digits : List Char, 4 ≤ digits.length ∧ (∀ digit ∈ digits, digit.isDigit) ∧
    Nat.ofDigitChars 10 digits 0 = number ∧
    name = "page-index-" ++ String.ofList digits ++ ".dat"

theorem toList_spelled (digits : List Char) :
    ("page-index-" ++ String.ofList digits ++ ".dat").toList =
      "page-index-".toList ++ (digits ++ ".dat".toList) := by
  simp only [String.toList_append, String.toList_ofList, List.append_assoc]

theorem dropStart_eq_some_iff {start text rest : List Char} :
    shardNumber?.dropStart start text = some rest ↔ text = start ++ rest := by
  fun_induction shardNumber?.dropStart start text with
  | case1 text => simp
  | case2 => simp
  | case3 start character text inductionHypothesis => simpa using inductionHypothesis
  | case4 expected start character text different => simp [Ne.symm different]

theorem shardNumber?_eq_some_iff {name : String} {number : Nat} :
    shardNumber? name = some number ↔ ShardNamed name number := by
  constructor
  · intro found
    obtain ⟨afterLead, lead, rest⟩ := Option.bind_eq_some_iff.mp found
    obtain ⟨reversed, trail, rest⟩ := Option.bind_eq_some_iff.mp rest
    dsimp only at rest
    split at rest
    · rename_i checks
      obtain ⟨enough, areDigits, small⟩ := checks
      cases rest
      refine ⟨small, reversed.reverse, enough, List.all_eq_true.mp areDigits, rfl, ?_⟩
      have isAfter : afterLead = reversed.reverse ++ ".dat".toList := by
        rw [← List.reverse_inj, List.reverse_append, List.reverse_reverse]
        exact dropStart_eq_some_iff.mp trail
      rw [← String.toList_inj, toList_spelled, ← isAfter]
      exact dropStart_eq_some_iff.mp lead
    · cases rest
  · rintro ⟨small, digits, enough, areDigits, rfl, rfl⟩
    have lead : shardNumber?.dropStart "page-index-".toList
        ("page-index-" ++ String.ofList digits ++ ".dat").toList =
        some (digits ++ ".dat".toList) := dropStart_eq_some_iff.mpr (toList_spelled digits)
    have trail : shardNumber?.dropStart ".dat".toList.reverse (digits ++ ".dat".toList).reverse =
        some digits.reverse := by
      rw [dropStart_eq_some_iff, List.reverse_append]
    refine Option.bind_eq_some_iff.mpr ⟨_, lead, Option.bind_eq_some_iff.mpr ⟨_, trail, ?_⟩⟩
    rw [List.reverse_reverse]
    exact if_pos ⟨enough, List.all_eq_true.mpr areDigits, small⟩

theorem shardNamed_shardName {number : Nat} (small : number < wordLimit) :
    ShardNamed (shardName number) number := by
  refine ⟨small, List.replicate (4 - (toString number).length) '0' ++ Nat.toDigits 10 number,
    ?_, ?_, ?_, ?_⟩
  · rw [Nat.toString_eq_ofList_toDigits, List.length_append, List.length_replicate]
    simp
    omega
  · intro digit member
    rcases List.mem_append.mp member with padding | shown
    · rw [List.eq_of_mem_replicate padding]
      rfl
    · exact Nat.isDigit_of_mem_toDigits (by decide) (by decide) shown
  · rw [Nat.ofDigitChars_append, Nat.ofDigitChars_replicate_zero, Nat.mul_zero,
      Nat.ofDigitChars_ten_toDigits]
  · rw [shardName, paddedNumber, String.ofList_append, ← Nat.toString_eq_ofList_toDigits]

namespace ShardNamed

variable {name : String} {number other : Nat}

theorem number_eq (first : ShardNamed name number) (second : ShardNamed name other) :
    number = other :=
  Option.some.inj ((shardNumber?_eq_some_iff.mpr first).symm.trans
    (shardNumber?_eq_some_iff.mpr second))

theorem plain (named : ShardNamed name number) : Path.Plain name := by
  obtain ⟨digits, _, areDigits, _, spelled⟩ := named.spelled
  have isText : name.toList = "page-index-".toList ++ (digits ++ ".dat".toList) := by
    rw [spelled, toList_spelled]
  refine ⟨fun slash => ?_, ?_⟩
  · rw [isText, List.mem_append, List.mem_append] at slash
    rcases slash with lead | isDigit | trail
    · revert lead
      decide
    · exact absurd (areDigits _ isDigit) (by decide)
    · revert trail
      decide
  · rw [Path.stepOf_of_name, String.ofList_toList]
    all_goals
      rw [isText]
      nofun

end ShardNamed

/-! ### The order of shards -/

/-- Shards are ordered by number, and by path where they share one. -/
def ShardBefore (first second : Nat × Path) : Prop :=
  first.1 < second.1 ∨ first.1 = second.1 ∧ first.2.text < second.2.text

instance : Std.Irrefl ShardBefore where
  irrefl _ before := before.elim (Nat.lt_irrefl _) fun same => String.lt_irrefl _ same.2

instance : Std.Antisymm ShardBefore where
  antisymm first second before after := by
    exfalso
    rcases before with smaller | ⟨same, smaller⟩
    · rcases after with larger | ⟨equal, _⟩
      · exact Nat.lt_asymm smaller larger
      · exact absurd equal (Nat.ne_of_gt smaller)
    · rcases after with larger | ⟨_, larger⟩
      · exact absurd same (Nat.ne_of_gt larger)
      · exact String.lt_asymm smaller larger

theorem shardLE_iff {first second : Nat × Path} :
    shardLE first second ↔
      first.1 < second.1 ∨ first.1 = second.1 ∧ first.2.text ≤ second.2.text := by
  rw [shardLE, Bool.or_eq_true, Bool.and_eq_true, decide_eq_true_iff, decide_eq_true_iff,
    beq_iff_eq]

theorem shardLE_trans (first second third : Nat × Path) (before : shardLE first second)
    (after : shardLE second third) : shardLE first third := by
  rw [shardLE_iff] at before after ⊢
  rcases before with smaller | ⟨same, smaller⟩
  · rcases after with larger | ⟨equal, _⟩
    · exact .inl (Nat.lt_trans smaller larger)
    · exact .inl (equal ▸ smaller)
  · rcases after with larger | ⟨equal, larger⟩
    · exact .inl (same ▸ larger)
    · exact .inr ⟨same.trans equal, String.le_trans smaller larger⟩

theorem shardLE_total (first second : Nat × Path) :
    (shardLE first second || shardLE second first) = true := by
  rw [Bool.or_eq_true, shardLE_iff, shardLE_iff]
  rcases Nat.lt_trichotomy first.1 second.1 with smaller | same | larger
  · exact .inl (.inl smaller)
  · exact (String.le_total first.2.text second.2.text).imp (fun le => .inr ⟨same, le⟩)
      fun le => .inr ⟨same.symm, le⟩
  · exact .inr (.inl larger)

/-- Shards with different paths are strictly ordered once they are sorted. -/
theorem pairwise_mergeSort_shardLE {shards : List (Nat × Path)}
    (distinct : shards.Pairwise fun first second => first.2.text ≠ second.2.text) :
    (shards.mergeSort shardLE).Pairwise ShardBefore := by
  refine pairwise_mergeSort_of_apart shardLE_trans shardLE_total Ne.symm ?_ distinct
  intro first second le different
  exact (shardLE_iff.mp le).imp_right (And.imp_right fun le => Std.lt_of_le_of_ne le different)

/-! ### The shards of a directory -/

/-- A shard of the directory at a place: its number, and the path of a regular file that is
named after the number. -/
def IsShard (files : FileSystem) (directory : Path) (place : Location) (shard : Nat × Path) :
    Prop :=
  ∃ name contents, ShardNamed name shard.1 ∧ shard.2 = directory.child name ∧
    files.lookup (name :: place) = some (.file contents)

/-- The paths of a directory's shards, each once, in the order of numbers and paths. -/
structure ShardsOf (files : FileSystem) (directory : Path) (place : Location)
    (shards : List (Nat × Path)) : Prop where
  mem_iff : ∀ shard, shard ∈ shards ↔ IsShard files directory place shard
  ordered : shards.Pairwise ShardBefore
  distinct : (shards.map (·.2)).Nodup

section

variable {files : FileSystem} {directory : Path} {place : Location}

/-- The membership and the order leave no choice. -/
theorem ShardsOf.unique {first second : List (Nat × Path)}
    (isFirst : ShardsOf files directory place first)
    (isSecond : ShardsOf files directory place second) : first = second :=
  isFirst.ordered.eq_of_mem_iff isSecond.ordered fun shard =>
    (isFirst.mem_iff shard).trans (isSecond.mem_iff shard).symm

/-- The shard that an entry of a directory is, if any. -/
def shardAt (directory : Path) (entry : String × Node) : Option (Nat × Path) :=
  match entry.2, shardNumber? entry.1 with
  | .file _, some number => some (number, directory.child entry.1)
  | _, _ => none

theorem shardAt_eq_some_iff {entry : String × Node} {shard : Nat × Path} :
    shardAt directory entry = some shard ↔
      ShardNamed entry.1 shard.1 ∧ shard.2 = directory.child entry.1 ∧
        ∃ contents, entry.2 = .file contents := by
  obtain ⟨name, node⟩ := entry
  obtain ⟨number, path⟩ := shard
  rw [← shardNumber?_eq_some_iff, shardAt]
  dsimp only
  split
  · rename_i contents value isNumber
    simp [isNumber, eq_comm]
  · rename_i neither
    constructor
    · nofun
    · rintro ⟨isNumber, _, contents, isFile⟩
      exact absurd isNumber (neither contents number isFile)

theorem child_text_injective {first second : String} (firstPlain : Path.Plain first)
    (secondPlain : Path.Plain second)
    (same : (directory.child first).text = (directory.child second).text) : first = second := by
  rw [Path.child, Path.child] at same
  dsimp only at same
  rw [firstPlain.joinedText_eq, secondPlain.joinedText_eq, String.append_right_inj] at same
  exact same

theorem findShards_of_directory (heldOnce : files.HeldOnce)
    (isDirectory : files.resolve directory = .ok (place, .directory)) :
    ∃ shards, findShards directory files = .ok (shards.map (·.2)) ∧
      ShardsOf files directory place shards := by
  obtain ⟨entries, listed, lists⟩ := FileSystem.list_of_directory heldOnce isDirectory
  have found : findShards directory files =
      .ok (((entries.filterMap (shardAt directory)).mergeSort shardLE).map (·.2)) := by
    rw [findShards, listed]
    rfl
  have distinct : (entries.filterMap (shardAt directory)).Pairwise fun first second =>
      first.2.text ≠ second.2.text := by
    have distinctNames := lists.distinct
    rw [List.Nodup, List.pairwise_map] at distinctNames
    refine distinctNames.filterMap _ fun first second different firstShard isFirst secondShard
      isSecond same => different ?_
    obtain ⟨firstNamed, firstPath, _⟩ := shardAt_eq_some_iff.mp isFirst
    obtain ⟨secondNamed, secondPath, _⟩ := shardAt_eq_some_iff.mp isSecond
    rw [firstPath, secondPath] at same
    exact child_text_injective firstNamed.plain secondNamed.plain same
  refine ⟨_, found, fun shard => ?_, pairwise_mergeSort_shardLE distinct, ?_⟩
  · rw [List.mem_mergeSort, List.mem_filterMap]
    constructor
    · rintro ⟨⟨name, node⟩, member, isShard⟩
      obtain ⟨named, isPath, contents, rfl⟩ := shardAt_eq_some_iff.mp isShard
      exact ⟨name, contents, named, isPath, (lists.mem_iff name _).mp member⟩
    · rintro ⟨name, contents, named, isPath, isFile⟩
      exact ⟨(name, .file contents), (lists.mem_iff name _).mpr isFile,
        shardAt_eq_some_iff.mpr ⟨named, isPath, contents, rfl⟩⟩
  · refine ((List.mergeSort_perm _ _).map _).nodup_iff.mpr ?_
    rw [List.Nodup, List.pairwise_map]
    exact distinct.imp fun different same => different (congrArg Path.text same)

/-- The shards with these numbers, under the names that are given to them. -/
theorem shardsOf_numbers {text : String} {numbers : List UInt64}
    (ascending : numbers.Pairwise (· < ·))
    (named : ∀ name, (∃ number contents, ShardNamed name number ∧
        files.lookup (name :: place) = some (.file contents)) ↔
      ∃ number ∈ numbers, name = shardName number.toNat) :
    ShardsOf files (Path.ofText text) place
      (numbers.map fun number => (number.toNat, shardPath (Path.ofText text) number.toNat)) := by
  have isNamed (number : UInt64) : ShardNamed (shardName number.toNat) number.toNat :=
    shardNamed_shardName number.toNat_lt
  have isPath (number : UInt64) : shardPath (Path.ofText text) number.toNat =
      (Path.ofText text).child (shardName number.toNat) :=
    ((isNamed number).plain.child_eq_join text).symm
  refine ⟨fun shard => ?_, ?_, ?_⟩
  · rw [List.mem_map]
    constructor
    · rintro ⟨number, member, rfl⟩
      obtain ⟨_, contents, _, isFile⟩ := (named _).mpr ⟨number, member, rfl⟩
      exact ⟨_, contents, isNamed number, isPath number, isFile⟩
    · rintro ⟨name, contents, isShard, path, isFile⟩
      obtain ⟨number, member, rfl⟩ := (named name).mp ⟨_, contents, isShard, isFile⟩
      exact ⟨number, member, Prod.ext ((isNamed number).number_eq isShard)
        ((isPath number).trans path.symm)⟩
  · rw [List.pairwise_map]
    exact ascending.imp fun {first second} smaller => .inl (UInt64.lt_iff_toNat_lt.mp smaller)
  · rw [List.map_map, List.Nodup, List.pairwise_map]
    refine ascending.imp ?_
    intro first second smaller samePath
    refine UInt64.ne_of_lt smaller ?_
    have sameName : shardName first.toNat = shardName second.toNat :=
      child_text_injective (isNamed first).plain (isNamed second).plain
        (congrArg Path.text ((isPath first).symm.trans (Eq.trans samePath (isPath second))))
    have sameNumber : ShardNamed (shardName first.toNat) second.toNat := by
      rw [sameName]
      exact isNamed second
    exact UInt64.toNat_inj.mp ((isNamed first).number_eq sameNumber)

end

/-- Discovery finds the shards of a directory, each once and in order. Two states of the files
with the same shards are not told apart, and shards under the names that are given to their
numbers are found in the order of the numbers. -/
theorem findShards_finds_shards {text : String} {files : FileSystem} {place : Location}
    (heldOnce : files.HeldOnce)
    (isDirectory : files.resolve (Path.ofText text) = .ok (place, .directory)) :
    (∃ shards : List (Nat × Path), findShards (Path.ofText text) files =
        .ok (shards.map (·.2)) ∧ ShardsOf files (Path.ofText text) place shards) ∧
    (∀ other : FileSystem, other.HeldOnce →
      other.resolve (Path.ofText text) = .ok (place, .directory) →
      (∀ name number, ShardNamed name number →
        ((∃ contents, other.lookup (name :: place) = some (.file contents)) ↔
          ∃ contents, files.lookup (name :: place) = some (.file contents))) →
      findShards (Path.ofText text) other = findShards (Path.ofText text) files) ∧
    ∀ numbers : List UInt64, numbers.Pairwise (· < ·) →
      (∀ name, (∃ number contents, ShardNamed name number ∧
          files.lookup (name :: place) = some (.file contents)) ↔
        ∃ number ∈ numbers, name = shardName number.toNat) →
      findShards (Path.ofText text) files =
        .ok (numbers.map fun number => shardPath (Path.ofText text) number.toNat) := by
  obtain ⟨shards, found, isShards⟩ := findShards_of_directory heldOnce isDirectory
  refine ⟨⟨shards, found, isShards⟩, fun other otherHeldOnce otherIsDirectory same => ?_,
    fun numbers ascending named => ?_⟩
  · obtain ⟨others, otherFound, areOthers⟩ :=
      findShards_of_directory otherHeldOnce otherIsDirectory
    have sameShards : ∀ shard, shard ∈ others ↔ IsShard files (Path.ofText text) place shard := by
      intro shard
      rw [areOthers.mem_iff]
      constructor
      · rintro ⟨name, contents, named, isPath, isFile⟩
        obtain ⟨kept, isKept⟩ := (same name _ named).mp ⟨contents, isFile⟩
        exact ⟨name, kept, named, isPath, isKept⟩
      · rintro ⟨name, contents, named, isPath, isFile⟩
        obtain ⟨kept, isKept⟩ := (same name _ named).mpr ⟨contents, isFile⟩
        exact ⟨name, kept, named, isPath, isKept⟩
    rw [otherFound, found,
      ShardsOf.unique ⟨sameShards, areOthers.ordered, areOthers.distinct⟩ isShards]
  · rw [found, isShards.unique (shardsOf_numbers ascending named), List.map_map]
    rfl

/-- A directory with two shards, a file and a directory that are none, and a shard elsewhere. -/
def crowdedDirectory : FileSystem where
  nodes := [(["page-index-12345.dat", "shards"], .file [1]), (["notes.txt", "shards"], .file []),
    (["page-index-9999.dat", "shards"], .file []), (["page-index-1.dat", "shards"], .file []),
    (["page-index-0000.dat", "shards"], .directory), (["page-index-0007.dat"], .file []),
    (["shards"], .directory)]
  workingDirectory := []

/-- The shard with the smaller number comes first, although its name is the larger text. -/
theorem findShards_of_crowded_directory :
    findShards (Path.ofText "shards") crowdedDirectory = .ok
      [Path.ofText "shards/page-index-9999.dat", Path.ofText "shards/page-index-12345.dat"] := by
  have heldOnce : crowdedDirectory.HeldOnce := by decide
  have each : ∀ entry ∈ crowdedDirectory.nodes, entry.2 ≠ .directory →
      entry.1.tail = ["shards"] → (shardNumber? (entry.1.headD "")).isSome →
      ∃ number ∈ [(9999 : UInt64), 12345], entry.1.headD "" = shardName number.toNat := by
    decide +kernel
  obtain ⟨-, -, inOrder⟩ :=
    @findShards_finds_shards "shards" crowdedDirectory ["shards"] heldOnce rfl
  refine inOrder [9999, 12345] (by decide) fun name => ⟨?_, ?_⟩
  · rintro ⟨number, contents, named, isFile⟩
    exact each _ (heldOnce.lookup_eq_some_iff.mp isFile) nofun rfl
      (Option.isSome_of_mem (shardNumber?_eq_some_iff.mpr named))
  · rintro ⟨number, member, rfl⟩
    rcases List.mem_pair.mp member with rfl | rfl
    · exact ⟨_, _, shardNamed_shardName (UInt64.toNat_lt _), rfl⟩
    · exact ⟨_, _, shardNamed_shardName (UInt64.toNat_lt _), rfl⟩

end InvertedIndex.Journal
