/-
This file collects what a checked operation comes to when its check succeeds, and how a
chain of operations that may fail is taken apart and put together. It is used wherever a
computation is followed step by step.
-/

import InvertedIndex.Fault

namespace InvertedIndex

/-! ### Chains of operations -/

section

variable {ε α β : Type}

@[simp]
theorem ok_bind (value : α) (next : α → Except ε β) : (Except.ok value >>= next) = next value := rfl

@[simp]
theorem error_bind (cause : ε) (next : α → Except ε β) :
    ((Except.error cause : Except ε α) >>= next) = .error cause := rfl

/-- A chain that ends with a value had one after its first step. -/
theorem bind_eq_ok {first : Except ε α} {next : α → Except ε β} {result : β} :
    first >>= next = .ok result ↔ ∃ value, first = .ok value ∧ next value = .ok result := by
  cases first with
  | ok value => simp
  | error cause => simp

@[simp]
theorem lift_ok (value : α) :
    (liftM (Except.ok value : Except Fault α) : Except (Failure ε) α) = .ok value := rfl

/-- A list of operations succeeds when each of them does. -/
theorem mapM_eq_ok {operation : α → Except ε β} {result : α → β} {inputs : List α}
    (each : ∀ input ∈ inputs, operation input = .ok (result input)) :
    inputs.mapM operation = .ok (inputs.map result) := by
  induction inputs with
  | nil => rfl
  | cons input rest inductionHypothesis =>
    rw [List.mapM_cons, each input List.mem_cons_self,
      inductionHypothesis fun other member => each other (List.mem_cons_of_mem _ member)]
    rfl

/-- So does an operation for each position of a list. -/
theorem mapM_range_eq_ok {elements : List α} {operation : Nat → Except ε β} {result : α → β}
    (each : ∀ index (inside : index < elements.length),
      operation index = .ok (result elements[index])) :
    (List.range elements.length).mapM operation = .ok (elements.map result) := by
  induction elements generalizing operation with
  | nil => rfl
  | cons element rest inductionHypothesis =>
    have others : (List.range rest.length).mapM (operation ∘ Nat.succ) = .ok (rest.map result) :=
      inductionHypothesis fun index inside => each (index + 1) (Nat.succ_lt_succ inside)
    rw [List.length_cons, List.range_succ_eq_map, List.mapM_cons, each 0 (Nat.zero_lt_succ _),
      ok_bind, List.mapM_map, others]
    rfl

/-- Values that are all there are taken together. -/
theorem mapM_id_ok (values : List α) :
    ((values.map Except.ok).mapM id : Except ε (List α)) = .ok values := by
  rw [List.mapM_map]
  exact (mapM_eq_ok fun value _ => rfl).trans (congrArg Except.ok (List.map_id values))

/-- Otherwise the first error among them is the end. -/
theorem mapM_id_error (values : List α) (cause : ε) (rest : List (Except ε α)) :
    (values.map Except.ok ++ Except.error cause :: rest).mapM id = .error cause := by
  rw [List.mapM_append, mapM_id_ok]
  rfl

/-- Results are all values, or there is a first error among them. -/
theorem values_or_first_error (results : List (Except ε α)) :
    (∃ values : List α, results = values.map .ok) ∨
      ∃ (values : List α) (cause : ε) (rest : List (Except ε α)),
        results = values.map .ok ++ .error cause :: rest := by
  induction results with
  | nil => exact .inl ⟨[], rfl⟩
  | cons result results inductionHypothesis =>
    cases result with
    | error cause => exact .inr ⟨[], cause, results, rfl⟩
    | ok value =>
      rcases inductionHypothesis with ⟨values, rfl⟩ | ⟨values, cause, rest, rfl⟩
      · exact .inl ⟨value :: values, rfl⟩
      · exact .inr ⟨value :: values, cause, rest, rfl⟩

/-- Tests that all come to an answer keep what the answers say. -/
theorem filterM_eq_ok {α : Type} {test : α → Except ε Bool} {accepts : α → Bool}
    (tests : ∀ input, test input = .ok (accepts input)) (inputs : List α) :
    inputs.filterM test = .ok (inputs.filter accepts) := by
  have onto (kept : List α) :
      inputs.filterAuxM test kept = .ok ((inputs.filter accepts).reverse ++ kept) := by
    induction inputs generalizing kept with
    | nil => rfl
    | cons input rest inductionHypothesis =>
      rw [List.filterAuxM, tests, ok_bind, inductionHypothesis, List.filter_cons]
      cases accepts input with
      | true => simp
      | false => simp
  rw [List.filterM, onto, ok_bind, List.append_nil, List.reverse_reverse]
  rfl

/-- A list of checks passes exactly when each of them does. -/
theorem forM_eq_ok {check : α → Except ε Unit} {inputs : List α} :
    inputs.forM check = .ok () ↔ ∀ input ∈ inputs, check input = .ok () := by
  induction inputs with
  | nil => exact ⟨fun _ input member => absurd member List.not_mem_nil, fun _ => rfl⟩
  | cons input rest inductionHypothesis =>
    rw [List.forall_mem_cons, ← inductionHypothesis]
    show (check input >>= fun _ => rest.forM check) = .ok () ↔ _
    rw [bind_eq_ok]
    constructor
    · rintro ⟨_, first, others⟩
      exact ⟨first, others⟩
    · rintro ⟨first, others⟩
      exact ⟨(), first, others⟩

end

/-! ### Checked sizes and positions -/

theorem toNat_ofNat {size : Nat} (small : size < wordLimit) : (UInt64.ofNat size).toNat = size := by
  rw [UInt64.toNat_ofNat']
  exact Nat.mod_eq_of_lt small

theorem checkedAdd_eq {first second : Nat} (small : first + second < wordLimit) :
    checkedAdd first second = .ok (first + second) := if_pos small

theorem checkedMul_eq {first second : Nat} (small : first * second < wordLimit) :
    checkedMul first second = .ok (first * second) := if_pos small

theorem slice_eq {words : Array UInt64} {start stop : Nat} (ordered : start ≤ stop)
    (inside : stop ≤ words.size) : slice words start stop = .ok (words.extract start stop) :=
  if_pos ⟨ordered, inside⟩

theorem wordAt_eq {words : Array UInt64} {position : Nat} (inside : position < words.size) :
    wordAt words position = .ok words[position] := dif_pos inside

end InvertedIndex
