/-
This file collects what the steps of an operation on the world come to, one rule for each
way of putting operations together.
-/

import InvertedIndex.Proofs.Checked
import InvertedIndex.World

namespace InvertedIndex

/-- A chain of operations goes on from the state that its first step leaves behind, unless
that step failed. -/
theorem bind_apply {State Cause First Second : Type}
    (first : ExceptT Cause (StateM State) First)
    (next : First → ExceptT Cause (StateM State) Second) (state : State) :
    (first >>= next) state = match first state with
      | (.ok value, after) => next value after
      | (.error cause, after) => (.error cause, after) := by
  show (match first state with | (result, after) => ExceptT.bindCont next result after) = _
  rcases first state with ⟨result, after⟩
  cases result <;> rfl

/-- A chain that succeeds went on from the state that its first step left behind. -/
theorem bind_apply_eq_ok {State Cause First Second : Type}
    {first : ExceptT Cause (StateM State) First}
    {next : First → ExceptT Cause (StateM State) Second} {state after : State} {result : Second}
    (performed : (first >>= next) state = (.ok result, after)) :
    ∃ value between, first state = (.ok value, between) ∧
      next value between = (.ok result, after) := by
  rw [bind_apply] at performed
  rcases isEnd : first state with ⟨cause | value, between⟩
  · rw [isEnd] at performed
    cases performed
  · rw [isEnd] at performed
    exact ⟨value, between, rfl, performed⟩

namespace Action

variable {ε α : Type}

/-- An operation succeeds however its errors are seen. -/
theorem perform_mapError_eq_ok {δ : Type} {action : Action ε α} {change : ε → δ}
    {world after : World} {value : α}
    (performed : (action.mapError change).perform world = (.ok value, after)) :
    action.perform world = (.ok value, after) := by
  rw [perform, mapError] at performed
  rw [perform]
  split at performed
  · rename_i isValue
    cases performed
    exact isValue
  · cases performed

/-- So it does when it would have been cleaned up after. -/
theorem cleaningUp_apply_eq_ok {action : Action ε α} {cleanUp : World → World}
    {world after : World} {value : α}
    (performed : action.cleaningUp cleanUp world = (.ok value, after)) :
    action world = (.ok value, after) := by
  rw [cleaningUp] at performed
  split at performed
  · rename_i isValue
    cases performed
    exact isValue
  · cases performed

/-- From every world the operation ends with a value, and the value is a good one. -/
def Yields (action : Action ε α) (good : α → Prop) : Prop :=
  ∀ world, ∃ value after, action.perform world = (.ok value, after) ∧ good value

theorem Yields.of_checked {result : Except Fault α} {value : α} {good : α → Prop}
    (computed : result = .ok value) (isGood : good value) :
    (ofChecked result : Action ε α).Yields good := by
  intro world
  subst computed
  exact ⟨value, world, rfl, isGood⟩

/-- A computation that has come to a value goes on with it. -/
theorem ofChecked_ok_bind {β : Type} (value : β) (next : β → Action ε α) :
    ((ofChecked (.ok value) : Action ε β) >>= next) = next value := rfl

theorem Yields.bind {β : Type} {first : Action ε α} {next : α → Action ε β} {good : α → Prop}
    {better : β → Prop} (yields : first.Yields good)
    (goesOn : ∀ value, good value → (next value).Yields better) :
    (first >>= next).Yields better := by
  intro world
  obtain ⟨value, between, done, isGood⟩ := yields world
  obtain ⟨result, after, finished, isBetter⟩ := goesOn value isGood between
  refine ⟨result, after, ?_, isBetter⟩
  rw [perform] at done
  rw [perform, bind_apply, done]
  exact finished

theorem Yields.pure {value : α} {good : α → Prop} (isGood : good value) :
    (Pure.pure value : Action ε α).Yields good := fun world => ⟨value, world, rfl, isGood⟩

/-- An operation comes to one value. -/
theorem Yields.unique {action : Action ε α} {first second : α}
    (isFirst : action.Yields fun value => value = first)
    (isSecond : action.Yields fun value => value = second) (world : World) : first = second := by
  obtain ⟨value, after, performed, rfl⟩ := isFirst world
  obtain ⟨other, later, again, rfl⟩ := isSecond world
  exact Except.ok.inj (congrArg Prod.fst (performed.symm.trans again))

/-- The operation ends in the same way in every world, whatever it leaves of it. -/
def Steady (action : Action ε α) : Prop :=
  ∀ world other, (action.perform world).1 = (action.perform other).1

theorem Steady.of_checked (result : Except Fault α) : (ofChecked result : Action ε α).Steady :=
  fun _ _ => rfl

theorem Steady.pure (value : α) : (Pure.pure value : Action ε α).Steady := fun _ _ => rfl

theorem Steady.bind {β : Type} {first : Action ε α} {next : α → Action ε β}
    (steady : first.Steady) (goesOn : ∀ value, (next value).Steady) :
    (first >>= next).Steady := by
  intro world other
  have same := steady world other
  rw [perform, perform] at same
  rw [perform, perform, bind_apply, bind_apply]
  generalize first world = here at same ⊢
  generalize first other = there at same ⊢
  obtain ⟨failure | value, after⟩ := here <;> obtain ⟨result, afterThere⟩ := there <;> cases same
  · rfl
  · exact goesOn value after afterThere

/-! ### What an operation ends with -/

/-- From this world the operation ends with a value, which is good together with the world
after it, or with a failure that is expected there. -/
@[irreducible]
def Ends (action : Action ε α) (world : World) (expected : Failure ε → World → Prop)
    (good : α → World → Prop) : Prop :=
  match action.perform world with
  | (.ok value, after) => good value after
  | (.error failure, after) => expected failure after

namespace Ends

variable {δ β : Type} {world : World} {expected : Failure ε → World → Prop}
  {good : α → World → Prop}

theorem of_value {action : Action ε α} {value : α} {after : World}
    (performed : action.perform world = (.ok value, after)) (isGood : good value after) :
    action.Ends world expected good := by
  rw [Ends, performed]
  exact isGood

theorem of_failure {action : Action ε α} {failure : Failure ε} {after : World}
    (performed : action.perform world = (.error failure, after))
    (isExpected : expected failure after) : action.Ends world expected good := by
  rw [Ends, performed]
  exact isExpected

theorem of_same {action other : Action ε α} {start : World}
    (same : action.perform world = other.perform start) (ends : other.Ends start expected good) :
    action.Ends world expected good := by
  unfold Ends at ends ⊢
  rw [same]
  exact ends

/-- The two ways in which an operation may end. -/
theorem cases {action : Action ε α} (ends : action.Ends world expected good) :
    (∃ value after, action.perform world = (.ok value, after) ∧ good value after) ∨
      ∃ failure after, action.perform world = (.error failure, after) ∧
        expected failure after := by
  unfold Ends at ends
  split at ends
  · exact .inl ⟨_, _, ‹_›, ends⟩
  · exact .inr ⟨_, _, ‹_›, ends⟩

/-- What is known of the end of an operation holds of the value that it ended with. -/
theorem of_perform_ok {action : Action ε α} (ends : action.Ends world expected good) {value : α}
    {after : World} (performed : action.perform world = (.ok value, after)) : good value after := by
  unfold Ends at ends
  rwa [performed] at ends

/-- So it does of the failure. -/
theorem of_perform_error {action : Action ε α} (ends : action.Ends world expected good)
    {failure : Failure ε} {after : World}
    (performed : action.perform world = (.error failure, after)) : expected failure after := by
  unfold Ends at ends
  rwa [performed] at ends

theorem weaken {action : Action ε α} {better : α → World → Prop}
    (ends : action.Ends world expected good)
    (improves : ∀ value after, good value after → better value after) :
    action.Ends world expected better := by
  rcases ends.cases with ⟨value, after, performed, isGood⟩ | ⟨failure, after, performed, isFailure⟩
  · exact of_value performed (improves value after isGood)
  · exact of_failure performed isFailure

theorem weaken_failure {action : Action ε α} {allowed : Failure ε → World → Prop}
    (ends : action.Ends world expected good)
    (explains : ∀ failure after, expected failure after → allowed failure after) :
    action.Ends world allowed good := by
  rcases ends.cases with ⟨value, after, performed, isGood⟩ | ⟨failure, after, performed, isFailure⟩
  · exact of_value performed isGood
  · exact of_failure performed (explains failure after isFailure)

/-- What is known of the end of an operation is known together with the run that led to it. -/
theorem recorded {action : Action ε α} (ends : action.Ends world expected good) :
    action.Ends world
      (fun failure after => expected failure after ∧
        action.perform world = (.error failure, after))
      fun value after => good value after ∧ action.perform world = (.ok value, after) := by
  rcases ends.cases with ⟨value, after, performed, isGood⟩ | ⟨failure, after, performed, isFailure⟩
  · exact of_value performed ⟨isGood, performed⟩
  · exact of_failure performed ⟨isFailure, performed⟩

/-- What is known of an operation in two ways is known of it together. -/
theorem both {action : Action ε α} {allowed : Failure ε → World → Prop}
    {better : α → World → Prop} (first : action.Ends world expected good)
    (second : action.Ends world allowed better) :
    action.Ends world (fun failure after => expected failure after ∧ allowed failure after)
      fun value after => good value after ∧ better value after := by
  unfold Ends at first second ⊢
  split
  · rename_i value after performed
    rw [performed] at first second
    exact ⟨first, second⟩
  · rename_i failure after performed
    rw [performed] at first second
    exact ⟨first, second⟩

/-- Every operation ends in some way. -/
theorem trivial (action : Action ε α) (world : World) :
    action.Ends world (fun _ _ => True) fun _ _ => True := by
  unfold Ends
  split <;> exact True.intro

/-- An operation goes on from the good values of the one before it. -/
theorem bind {first : Action ε α} {next : α → Action ε β} {better : β → World → Prop}
    (ends : first.Ends world expected good)
    (goesOn : ∀ value after, good value after → (next value).Ends after expected better) :
    (first >>= next).Ends world expected better := by
  rcases ends.cases with ⟨value, after, performed, isGood⟩ | ⟨failure, after, performed, isFailure⟩
  · rw [perform] at performed
    refine of_same ?_ (goesOn value after isGood)
    rw [perform, bind_apply, performed]
    rfl
  · rw [perform] at performed
    refine of_failure ?_ isFailure
    rw [perform, bind_apply, performed]

theorem pure {value : α} (isGood : good value world) :
    (Pure.pure value : Action ε α).Ends world expected good := of_value rfl isGood

theorem mapError {action : Action ε α} {change : ε → δ} {seen : Failure δ → World → Prop}
    (ends : action.Ends world expected good)
    (sees : ∀ failure after, expected failure after → seen (failure.map change) after) :
    (action.mapError change).Ends world seen good := by
  rcases ends.cases with ⟨value, after, performed, isGood⟩ | ⟨failure, after, performed, isFailure⟩
  · rw [perform] at performed
    refine of_value ?_ isGood
    rw [perform, Action.mapError, performed]
  · rw [perform] at performed
    refine of_failure ?_ (sees failure after isFailure)
    rw [perform, Action.mapError, performed]

theorem cleaningUp {action : Action ε α} {allowed : Failure ε → World → Prop}
    (ends : action.Ends world expected good) (cleanUp : World → World)
    (cleans : ∀ failure after, expected failure after → allowed failure (cleanUp after)) :
    (action.cleaningUp cleanUp).Ends world allowed good := by
  rcases ends.cases with ⟨value, after, performed, isGood⟩ | ⟨failure, after, performed, isFailure⟩
  · rw [perform] at performed
    refine of_value ?_ isGood
    rw [perform, Action.cleaningUp, performed]
  · rw [perform] at performed
    refine of_failure ?_ (cleans failure after isFailure)
    rw [perform, Action.cleaningUp, performed]

theorem ofResult_ok {value : α} (isGood : good value world) :
    (ofResult (.ok value) : Action ε α).Ends world expected good := of_value rfl isGood

theorem ofResult_error {failure : Failure ε} (isExpected : expected failure world) :
    (ofResult (.error failure) : Action ε α).Ends world expected good := of_failure rfl isExpected

theorem ofResult_ok_bind {β : Type} {value : β} {next : β → Action ε α}
    (ends : (next value).Ends world expected good) :
    ((ofResult (.ok value) : Action ε β) >>= next).Ends world expected good :=
  bind (show (ofResult (.ok value) : Action ε β).Ends world expected
      fun result after => result = value ∧ after = world from of_value rfl ⟨rfl, rfl⟩)
    fun _ _ same => same.1 ▸ same.2 ▸ ends

/-- Nothing follows a failure. -/
theorem bind_of_fails {first : Action ε α} {next : α → Action ε β} {better : β → World → Prop}
    (fails : first.Ends world expected fun _ _ => False) :
    (first >>= next).Ends world expected better :=
  fails.bind fun _ _ impossible => impossible.elim

theorem ofResult_error_bind {failure : Failure ε} {next : β → Action ε α}
    (isExpected : expected failure world) :
    ((ofResult (.error failure) : Action ε β) >>= next).Ends world expected good :=
  bind_of_fails (.ofResult_error isExpected)

theorem inspect_ends {look : FileSystem → Except ε α} {value : α}
    (looked : look world.files = .ok value) (isGood : good value world) :
    (inspect look).Ends world expected good := by
  refine of_value ?_ isGood
  rw [perform, inspect, looked]

theorem log_bind {level : Level} {text : String} {next : Unit → Action ε α}
    (ends : (next ()).Ends { world with log := world.log ++ [⟨level, text⟩] } expected good) :
    (log level text >>= next).Ends world expected good :=
  bind (show (log level text : Action ε Unit).Ends world expected
        fun _ after => after = { world with log := world.log ++ [⟨level, text⟩] } from
      of_value rfl rfl)
    fun _ _ same => same ▸ ends

theorem fromRoot_bind {path : Path} {next : Path → Action ε α}
    (ends : (next (path.fromRoot world.files.workingDirectory)).Ends world expected good) :
    (fromRoot path >>= next).Ends world expected good :=
  bind (show (fromRoot path : Action ε Path).Ends world expected fun value after =>
        value = path.fromRoot world.files.workingDirectory ∧ after = world from
      of_value rfl ⟨rfl, rfl⟩)
    fun _ _ same => same.1 ▸ same.2 ▸ ends

/-- What follows an operation whose outcome is kept as a value goes on from both outcomes. -/
theorem outcome_bind {action : Action ε α} {next : Except (Failure ε) α → Action δ β}
    {seen : Failure δ → World → Prop} {better : β → World → Prop}
    (ends : action.Ends world expected good)
    (afterValue : ∀ value after, good value after → (next (.ok value)).Ends after seen better)
    (afterFailure : ∀ failure after, expected failure after →
      (next (.error failure)).Ends after seen better) :
    (action.outcome >>= next).Ends world seen better := by
  rcases ends.cases with ⟨value, after, performed, isGood⟩ | ⟨failure, after, performed, isFailure⟩
  · rw [perform] at performed
    refine of_same ?_ (afterValue value after isGood)
    rw [perform, bind_apply, Action.outcome, performed]
    rfl
  · rw [perform] at performed
    refine of_same ?_ (afterFailure failure after isFailure)
    rw [perform, bind_apply, Action.outcome, performed]
    rfl

/-- The outcome of an operation that ends with a value is that value. -/
theorem outcome_bind_of_value {action : Action ε α} {value : α} {after : World}
    {next : Except (Failure ε) α → Action δ β} {seen : Failure δ → World → Prop}
    {better : β → World → Prop} (performed : action.perform world = (.ok value, after))
    (ends : (next (.ok value)).Ends after seen better) :
    (action.outcome >>= next).Ends world seen better := by
  rw [perform] at performed
  refine of_same ?_ ends
  rw [perform, bind_apply, Action.outcome, performed]
  rfl

/-- What follows may not depend on the outcome at all. -/
theorem outcome_bind_of_any {action : Action ε α} {next : Except (Failure ε) α → Action δ β}
    {seen : Failure δ → World → Prop} {better : β → World → Prop}
    (ends : ∀ result after, (next result).Ends after seen better) :
    (action.outcome >>= next).Ends world seen better := by
  refine of_same ?_ (ends (action.perform world).1 (action.perform world).2)
  rw [perform, bind_apply, Action.outcome]
  rfl

end Ends

end Action

end InvertedIndex
