/-
This file proves that shards which are files are read for as long as the files stay. What a
build does to other files cannot change the entries that it gets from them.
-/

import InvertedIndex.Proofs.Reduction

namespace InvertedIndex

open FileSystem

namespace Journal.Reader

variable {reader after : Reader}

theorem items_of_next {item : Except StorageError Entry} (step : reader.next = some (item, after)) :
    reader.items = item :: after.items := by
  rw [items]
  split
  · rename_i nothing
    rw [step] at nothing
    cases nothing
  · rename_i found
    rw [step] at found
    cases found
    rfl

theorem items_of_end (nothing : reader.next = none) : reader.items = [] := by
  rw [items]
  split
  · rfl
  · rename_i found
    rw [nothing] at found
    cases found

end Journal.Reader

/-- A file holds these entries as a shard. -/
def FileSystem.HoldsShard (files : FileSystem) (path : Path) (entries : List Entry) : Prop :=
  ∃ location bytes reader, Names files path location ∧
    files.lookup location = some (.file bytes) ∧ Journal.Reader.open path bytes = .ok reader ∧
    reader.items = entries.map .ok

/-- Shards that are files can be read wherever the files stay. -/
theorem Builder.reads_of_files {builder : Builder} {contents : Path → List Entry}
    {shards : List Path} {files : FileSystem} (fromFiles : builder.source = .files)
    (holds : ∀ shard ∈ shards, files.HoldsShard shard (contents shard)) :
    builder.Reads contents shards files := by
  intro later kept shard member
  obtain ⟨location, bytes, reader, names, isFile, opened, items⟩ := holds shard member
  have read : later.read shard = .ok (.file bytes) :=
    (names.of_sameDirectories kept.directories).read_of_lookup (kept.files _ _ isFile)
  rw [fromFiles]
  show (Journal.openFile shard later).map Journal.Reader.items = _
  rw [Journal.openFile, read]
  show (Journal.Reader.open shard bytes).map Journal.Reader.items = _
  rw [opened]
  exact congrArg Except.ok items

end InvertedIndex
