/-
This file proves what handles serve while generations come and go. In a run handles are
opened, asked for their readers and made to switch, while files are replaced or removed under
the same paths. Only a call that opens a reader and finds a generation in it moves a handle, so
each handle serves the generation that was last installed in it. A reader holds what was mapped
when it was opened: what it answers depends neither on the files nor on anything else that
happens later.
-/

import InvertedIndex.Proofs.Retirement

namespace InvertedIndex

open FileSystem

/-! ### What a reader answers -/

/-- A question to a reader. -/
inductive ReaderQuery where
  | documents (term : Term)
  | numDocuments (term : Term)
  | retainFilter (term : Term)
  | rejectFilter (term : Term)
  | metadata (term : Term) (docs : List DocId)
  | numTerms
  | termCounts
  | sizeBytes

/-- What a question is answered with. -/
def ReaderQuery.Answer : ReaderQuery → Type
  | .documents _ => PostingsSource
  | .numDocuments _ => Nat
  | .retainFilter _ => Filter
  | .rejectFilter _ => Filter
  | .metadata _ _ => List Metadata
  | .numTerms => Nat
  | .termCounts => List (Term × Nat)
  | .sizeBytes => Nat × Nat

namespace IndexReader

variable {ε α : Type} (reader : IndexReader)

/-- Puts a question to a reader. -/
def ask : (query : ReaderQuery) → Action ε query.Answer
  | .documents term => reader.documents term
  | .numDocuments term => reader.numDocuments term
  | .retainFilter term => reader.retainFilter term
  | .rejectFilter term => reader.rejectFilter term
  | .metadata term docs => reader.metadata term docs
  | .numTerms => reader.numTerms
  | .termCounts => reader.termCounts
  | .sizeBytes => pure reader.sizeBytes

/-- What a reader answers when it is asked in a world. -/
def answer (query : ReaderQuery) (world : World) : Except (Failure TracedError) query.Answer :=
  ((reader.ask query).perform world).1

/-- A warning is given or not, but it never fails. -/
theorem warn_steady : (reader.warn : Action ε Unit).Steady := by
  intro world other
  obtain ⟨_, _, here, -⟩ := reader.warn_yields world
  obtain ⟨_, _, there, -⟩ := reader.warn_yields other
  rw [here, there]

theorem consult_steady (emptyAnswer : α) (ask : Index → Except Fault α) :
    (reader.consult emptyAnswer ask : Action ε α).Steady := by
  unfold consult
  cases reader.index with
  | some index => exact .of_checked (ask index)
  | none => exact reader.warn_steady.bind fun _ => .pure emptyAnswer

theorem ask_steady (query : ReaderQuery) : (reader.ask query : Action ε query.Answer).Steady := by
  cases query with
  | metadata term docs =>
    show (reader.metadata term docs : Action ε (List Metadata)).Steady
    unfold metadata
    split
    · exact (Action.Steady.of_checked _).bind fun _ => reader.consult_steady _ _
    · exact reader.consult_steady _ _
  | sizeBytes => exact .pure _
  | documents | numDocuments | retainFilter | rejectFilter | numTerms | termCounts =>
    exact reader.consult_steady _ _

/-- A reader answers in every world as in any other. -/
theorem answer_eq (query : ReaderQuery) (world other : World) :
    reader.answer query world = reader.answer query other := reader.ask_steady query world other

end IndexReader

/-! ### Operations that install a generation -/

namespace IndexHandle

variable {α β : Type} {words docs : Path}

/-- The operation makes the generation in two files the current one. If there is none it fails,
and leaves the handle and the files as they are. -/
structure Installs (operation : HandleAction α) (words docs : Path) : Prop where
  installs : ∀ serving reader, generation words docs serving = .ok reader →
    (operation serving).2.handle = { serving.handle with current := reader }
  refuses : ∀ serving failure, generation words docs serving = .error failure →
    (operation serving).1 = .error failure ∧ (operation serving).2.handle = serving.handle ∧
      (operation serving).2.world.files = serving.world.files

/-- The operation does not change which reader is current. -/
def KeepsHandle (operation : HandleAction α) : Prop :=
  ∀ serving, (operation serving).2.handle = serving.handle

/-- What comes after an operation may keep what that has done. -/
theorem handle_bind {next : α → HandleAction β} (goesOn : ∀ value, KeepsHandle (next value))
    (first : HandleAction α) (serving : Serving) :
    ((first >>= next) serving).2.handle = (first serving).2.handle := by
  rw [bind_apply]
  rcases first serving with ⟨failure | value, after⟩
  · rfl
  · exact goesOn value after

theorem KeepsHandle.bind {first : HandleAction α} {next : α → HandleAction β}
    (keeps : KeepsHandle first) (goesOn : ∀ value, KeepsHandle (next value)) :
    KeepsHandle (first >>= next) :=
  fun serving => (handle_bind goesOn first serving).trans (keeps serving)

theorem KeepsHandle.act (action : Action TracedError α) : KeepsHandle (act action) :=
  fun _ => rfl

theorem KeepsHandle.retire (previous next : Path) : KeepsHandle (retire previous next) := by
  intro serving
  unfold IndexHandle.retire
  show ((ite _ _ _ : HandleAction Unit) serving).2.handle = _
  split
  · exact (KeepsHandle.act _).bind (fun _ => .act _) serving
  · rfl

theorem Installs.bind {first : HandleAction α} {next : α → HandleAction β}
    (installs : Installs first words docs) (goesOn : ∀ value, KeepsHandle (next value)) :
    Installs (first >>= next) words docs where
  installs serving reader found :=
    (handle_bind goesOn first serving).trans (installs.installs serving reader found)
  refuses serving failure missing := by
    obtain ⟨refused, same⟩ := installs.refuses serving failure missing
    rw [bind_apply]
    rcases isEnd : first serving with ⟨result, after⟩
    rw [isEnd] at refused same
    cases refused
    exact ⟨rfl, same⟩

theorem switchTo_installs (words docs : Path) : Installs (switchTo words docs) words docs where
  installs serving reader found := by
    obtain ⟨world, -, switched⟩ := switchTo_apply words docs serving
    rw [switched, found]
  refuses serving failure missing := by
    obtain ⟨world, sameFiles, switched⟩ := switchTo_apply words docs serving
    rw [switched, missing]
    exact ⟨rfl, rfl, sameFiles⟩

/-- A failure to remove a retired file comes after the installation. -/
theorem retireAndSwitch_installs (words docs : Path) :
    Installs (retireAndSwitch words docs) words docs :=
  (switchTo_installs words docs).bind fun _ =>
    (KeepsHandle.act _).bind fun _ => (KeepsHandle.retire _ _).bind fun _ => .retire _ _

end IndexHandle

/-! ### Runs -/

/-- A call on one of the handles, which are numbered as they are opened, or something else that
happens between the calls. -/
inductive HandleCall where
  | «open» (words docs : Path) (options : ReaderOptions)
  | current (handle : Nat)
  | switchTo (handle : Nat) (words docs : Path)
  | retireAndSwitch (handle : Nat) (words docs : Path)
  /-- Someone asks a reader. -/
  | ask (reader : IndexReader) (query : ReaderQuery)
  /-- Someone puts other files in the place of files, or removes them. A file that is mapped is
  never written to. -/
  | replaceFiles (files : FileSystem)

/-- The world, the handles that are open in it, and the readers that calls have handed out. -/
structure HandleRun where
  world : World
  handles : List IndexHandle
  snapshots : List IndexReader

/-- A call fails, or it ends with or without a reader that it hands out. -/
abbrev HandleReply := Except (Failure TracedError) (Option IndexReader)

namespace HandleRun

variable (run : HandleRun)

/-- The current reader of a handle. -/
def current (handle : Nat) : Option IndexReader := run.handles[handle]?.map IndexHandle.current

/-- Does something with one of the handles; there is nothing to do when it is not open. -/
def on (handle : Nat) (operation : HandleAction (Option IndexReader)) : HandleReply × HandleRun :=
  match run.handles[handle]? with
  | none => (.ok none, run)
  | some opened =>
    match operation { handle := opened, world := run.world } with
    | (reply, after) => (reply, { run with
        world := after.world
        handles := run.handles.set handle after.handle })

/-- Makes a call. -/
def make : HandleCall → HandleReply × HandleRun
  | .open words docs options =>
    match (IndexHandle.open words docs options).perform run.world with
    | (.ok handle, world) => (.ok none, { run with world, handles := run.handles ++ [handle] })
    | (.error failure, world) => (.error failure, { run with world })
  | .current handle => run.on handle do return some (← get).handle.current
  | .switchTo handle words docs => run.on handle do
    return some (← IndexHandle.switchTo words docs)
  | .retireAndSwitch handle words docs => run.on handle do
    IndexHandle.retireAndSwitch words docs
    return none
  | .ask reader query =>
    (.ok none, { run with world :=
      ((reader.ask query : Action TracedError query.Answer).perform run.world).2 })
  | .replaceFiles files => (.ok none, { run with world := { run.world with files } })

/-- Makes a call and keeps the reader that it hands out. -/
def step (call : HandleCall) : HandleRun :=
  match run.make call with
  | (.ok (some reader), after) => { after with snapshots := after.snapshots ++ [reader] }
  | (_, after) => after

/-- What a list of calls comes to in a world without handles. -/
def after (world : World) (calls : List HandleCall) : HandleRun :=
  calls.foldl step { world, handles := [], snapshots := [] }

/-- The generation that one of the handles finds in two files. -/
def found (handle : Nat) (words docs : Path) : Option IndexReader :=
  run.handles[handle]?.bind fun opened =>
    (IndexHandle.generation words docs { handle := opened, world := run.world }).toOption

/-- The reader that a call installs in a handle, if it installs one there: the reader that a new
handle is opened with, or the generation that a handle finds when it is to switch. -/
def installed (handle : Nat) : HandleCall → Option IndexReader
  | .open words docs options =>
    if handle = run.handles.length then
      ((IndexReader.open words docs options).perform run.world).1.toOption
    else none
  | .switchTo target words docs | .retireAndSwitch target words docs =>
    if target = handle then run.found target words docs else none
  | .current _ | .ask _ _ | .replaceFiles _ => none

/-- A call ended with this failure, and no handle and no file has changed. -/
structure Refused (failure : Failure TracedError) (ended : HandleReply × HandleRun) : Prop where
  reply : ended.1 = .error failure
  handles : ended.2.handles = run.handles
  files : ended.2.world.files = run.world.files

variable {run : HandleRun} {handle : Nat}

/-! ### What one call does -/

theorem on_eq {target : Nat} {opened : IndexHandle} (isOpen : run.handles[target]? = some opened)
    (operation : HandleAction (Option IndexReader)) :
    run.on target operation =
      ((operation { handle := opened, world := run.world }).1,
        { run with
          world := (operation { handle := opened, world := run.world }).2.world
          handles := run.handles.set target
            (operation { handle := opened, world := run.world }).2.handle }) := by
  unfold on
  rw [isOpen]
  rfl

theorem on_of_not_open {target : Nat} (isOpen : run.handles[target]? = none)
    (operation : HandleAction (Option IndexReader)) :
    run.on target operation = (.ok none, run) := by
  unfold on
  rw [isOpen]

theorem current_on (run : HandleRun) (target : Nat)
    (operation : HandleAction (Option IndexReader)) (handle : Nat) :
    (run.on target operation).2.current handle =
      if target = handle then
        run.handles[target]?.map fun opened =>
          (operation { handle := opened, world := run.world }).2.handle.current
      else run.current handle := by
  cases isOpen : run.handles[target]? with
  | none =>
    rw [on_of_not_open isOpen]
    split
    · rename_i same
      rw [current, ← same, isOpen]
      rfl
    · rfl
  | some opened =>
    rw [on_eq isOpen, current, List.getElem?_set, if_pos (List.getElem?_eq_some_iff.mp isOpen).1]
    split <;> rfl

/-- An operation that keeps the handles keeps what is current in each of them. -/
theorem current_on_of_keeps {operation : HandleAction (Option IndexReader)}
    (keeps : IndexHandle.KeepsHandle operation) (target : Nat) :
    (run.on target operation).2.current handle = run.current handle := by
  rw [current_on]
  split
  · rename_i same
    rw [current, ← same]
    exact Option.map_congr fun opened _ => congrArg IndexHandle.current (keeps _)
  · rfl

/-- An operation that installs a generation makes it current in its handle. -/
theorem current_on_of_installs {operation : HandleAction (Option IndexReader)}
    {words docs : Path} (installs : IndexHandle.Installs operation words docs) (target : Nat) :
    (run.on target operation).2.current handle =
      (if target = handle then run.found target words docs else none).or
        (run.current handle) := by
  rw [current_on]
  split
  · rename_i same
    rw [current, found, ← same]
    cases run.handles[target]? with
    | none => rfl
    | some opened =>
      rw [Option.map_some, Option.bind_some, Option.map_some]
      cases isFound : IndexHandle.generation words docs ⟨opened, run.world⟩ with
      | error failure =>
        obtain ⟨-, kept, -⟩ := installs.refuses _ failure isFound
        rw [kept]
        rfl
      | ok reader =>
        rw [installs.installs _ reader isFound]
        rfl
  · rfl

theorem switchTo_installs (words docs : Path) :
    IndexHandle.Installs (do return some (← IndexHandle.switchTo words docs)) words docs :=
  (IndexHandle.switchTo_installs words docs).bind fun _ _ => rfl

theorem retireAndSwitch_installs (words docs : Path) :
    IndexHandle.Installs
      (do IndexHandle.retireAndSwitch words docs; return (none : Option IndexReader)) words docs :=
  (IndexHandle.retireAndSwitch_installs words docs).bind fun _ _ => rfl

/-- What is opened in a handle is the reader of its two files. -/
theorem open_apply (words docs : Path) (options : ReaderOptions) (world : World) :
    ∃ after, after.files = world.files ∧
      (IndexHandle.open words docs options).perform world =
        match ((IndexReader.open words docs options).perform world).1 with
        | .ok reader => (.ok { current := reader, options }, after)
        | .error failure => (.error (.during (.openIndex words) failure), after) := by
  have sameFiles := IndexReader.open_files words docs options world
  rw [Action.perform] at sameFiles ⊢
  rw [Action.perform, IndexHandle.open, bind_apply, Action.during, Action.mapError]
  generalize (IndexReader.open words docs options) world = opening at sameFiles ⊢
  obtain ⟨failure | reader, after⟩ := opening
  · exact ⟨after, sameFiles, rfl⟩
  · exact ⟨after, sameFiles, rfl⟩

/-- Only the installation of a reader changes what is current. -/
theorem current_make (run : HandleRun) (call : HandleCall) (handle : Nat) :
    (run.make call).2.current handle = (run.installed handle call).or (run.current handle) := by
  cases call with
  | «open» words docs options =>
    obtain ⟨world, -, opened⟩ := open_apply words docs options run.world
    rw [make, installed, opened]
    cases ((IndexReader.open words docs options).perform run.world).1 with
    | error failure =>
      dsimp only
      split <;> rfl
    | ok reader =>
      dsimp only
      unfold current
      split
      · rename_i isNew
        rw [isNew, List.getElem?_concat_length]
        rfl
      · rename_i other
        rcases Nat.lt_or_gt_of_ne other with inside | outside
        · rw [List.getElem?_append_left inside]
          rfl
        · rw [List.getElem?_eq_none (by simpa using Nat.succ_le_of_lt outside),
            List.getElem?_eq_none outside.le]
          rfl
  | current target => exact current_on_of_keeps (fun _ => rfl) target
  | switchTo target words docs => exact current_on_of_installs (switchTo_installs words docs) target
  | retireAndSwitch target words docs =>
    exact current_on_of_installs (retireAndSwitch_installs words docs) target
  | ask | replaceFiles => rfl

/-- A handle that finds no generation is left as it is, and so are the files. -/
theorem refused_of_installs {operation : HandleAction (Option IndexReader)} {words docs : Path}
    (installs : IndexHandle.Installs operation words docs) {opened : IndexHandle}
    (isOpen : run.handles[handle]? = some opened) {failure : Failure TracedError}
    (missing : IndexHandle.generation words docs ⟨opened, run.world⟩ = .error failure) :
    run.Refused failure (run.on handle operation) := by
  obtain ⟨failed, kept, sameFiles⟩ := installs.refuses _ failure missing
  obtain ⟨inside, isThere⟩ := List.getElem?_eq_some_iff.mp isOpen
  rw [on_eq isOpen, kept]
  refine ⟨failed, ?_, sameFiles⟩
  dsimp only
  rw [← isThere, List.set_getElem_self]

/-- So a switch is refused, whether it is to retire the generation before it or not. -/
theorem refused_of_generation {words docs : Path} {opened : IndexHandle}
    (isOpen : run.handles[handle]? = some opened) {failure : Failure TracedError}
    (missing : IndexHandle.generation words docs ⟨opened, run.world⟩ = .error failure) :
    ∀ call ∈ [.switchTo handle words docs, .retireAndSwitch handle words docs],
      run.Refused failure (run.make call) := by
  intro call member
  rw [List.mem_pair] at member
  rcases member with rfl | rfl
  · exact refused_of_installs (switchTo_installs words docs) isOpen missing
  · exact refused_of_installs (retireAndSwitch_installs words docs) isOpen missing

/-- A handle that cannot be opened is not there, and the others stay as they are. -/
theorem refused_of_open {words docs : Path} {options : ReaderOptions}
    {failure : Failure StorageError}
    (failed : ((IndexReader.open words docs options).perform run.world).1 = .error failure) :
    run.Refused (.during (.openIndex words) failure) (run.make (.open words docs options)) := by
  obtain ⟨world, sameFiles, opened⟩ := open_apply words docs options run.world
  rw [make, opened, failed]
  exact ⟨rfl, rfl, sameFiles⟩

/-- A switch hands out the reader that it replaces. -/
theorem reply_switchTo {words docs : Path} {replaced : Option IndexReader}
    (switched : (run.make (.switchTo handle words docs)).1 = .ok replaced) :
    replaced = run.current handle := by
  change (run.on handle _).1 = _ at switched
  cases isOpen : run.handles[handle]? with
  | none =>
    rw [on_of_not_open isOpen] at switched
    cases switched
    rw [current, isOpen]
    rfl
  | some opened =>
    obtain ⟨world, -, ended⟩ := IndexHandle.switchTo_apply words docs ⟨opened, run.world⟩
    rw [on_eq isOpen, bind_apply, ended] at switched
    rw [current, isOpen]
    cases isFound : IndexHandle.generation words docs ⟨opened, run.world⟩ with
    | error failure =>
      rw [isFound] at switched
      cases switched
    | ok reader =>
      rw [isFound] at switched
      cases switched
      rfl

@[simp] theorem reply_current (run : HandleRun) (handle : Nat) :
    (run.make (.current handle)).1 = .ok (run.current handle) := by
  show (run.on handle _).1 = _
  rw [current]
  cases isOpen : run.handles[handle]? with
  | none =>
    rw [on_of_not_open isOpen]
    rfl
  | some opened =>
    rw [on_eq isOpen]
    rfl

@[simp] theorem snapshots_on (run : HandleRun) (handle : Nat)
    (operation : HandleAction (Option IndexReader)) :
    (run.on handle operation).2.snapshots = run.snapshots := by
  unfold on
  split <;> rfl

@[simp] theorem snapshots_make (run : HandleRun) (call : HandleCall) :
    (run.make call).2.snapshots = run.snapshots := by
  cases call with
  | «open» words docs options =>
    rw [make]
    split <;> rfl
  | current | switchTo | retireAndSwitch => exact snapshots_on run _ _
  | ask | replaceFiles => rfl

/-- What a step adds to a call is the reader that was handed out. -/
theorem step_cases (run : HandleRun) (call : HandleCall) :
    (∃ reader, (run.make call).1 = .ok (some reader) ∧
        run.step call = { (run.make call).2 with snapshots := run.snapshots ++ [reader] }) ∨
      (∀ reader, (run.make call).1 ≠ .ok (some reader)) ∧ run.step call = (run.make call).2 := by
  have same := snapshots_make run call
  unfold step
  generalize run.make call = ended at same ⊢
  obtain ⟨reply, after⟩ := ended
  rcases reply with failure | ⟨⟩ | reader
  · exact .inr ⟨nofun, rfl⟩
  · exact .inr ⟨nofun, rfl⟩
  · exact .inl ⟨reader, rfl, by rw [← same]⟩

theorem current_step (run : HandleRun) (call : HandleCall) (handle : Nat) :
    (run.step call).current handle = (run.installed handle call).or (run.current handle) := by
  rw [← current_make]
  rcases step_cases run call with ⟨reader, -, stepped⟩ | ⟨-, stepped⟩
  · rw [stepped]
    rfl
  · rw [stepped]

theorem snapshots_step (run : HandleRun) (call : HandleCall) :
    run.snapshots <+: (run.step call).snapshots := by
  rcases step_cases run call with ⟨reader, -, stepped⟩ | ⟨-, stepped⟩
  · rw [stepped]
    exact List.prefix_append _ _
  · rw [stepped]
    exact (snapshots_make run call).symm ▸ List.prefix_rfl

/-- A reader that is installed in a handle that was open before is ready. -/
theorem ready_of_installed {call : HandleCall} {reader earlier : IndexReader}
    (installed : run.installed handle call = some reader)
    (isOpen : run.current handle = some earlier) : reader.isReady = true := by
  cases call with
  | «open» words docs options =>
    rw [HandleRun.installed] at installed
    split at installed
    · rename_i isNew
      rw [current, isNew, List.getElem?_eq_none le_rfl] at isOpen
      cases isOpen
    · cases installed
  | switchTo target words docs | retireAndSwitch target words docs =>
    rw [HandleRun.installed] at installed
    split at installed
    · obtain ⟨opened, -, found⟩ := Option.bind_eq_some_iff.mp installed
      cases isFound : IndexHandle.generation words docs ⟨opened, run.world⟩ with
      | error failure =>
        rw [isFound] at found
        cases found
      | ok generation =>
        rw [isFound] at found
        cases found
        exact (IndexHandle.generation_eq_ok isFound).1
    · cases installed
  | current | ask | replaceFiles => cases installed

/-! ### Whole runs -/

variable {world : World} {calls earlier later : List HandleCall}

theorem after_concat (world : World) (calls : List HandleCall) (call : HandleCall) :
    after world (calls ++ [call]) = (after world calls).step call := List.foldl_concat ..

/-- What is current was installed by a call, and no call after it installed anything. -/
theorem exists_installation {reader : IndexReader}
    (isCurrent : (after world calls).current handle = some reader) :
    ∃ earlier call later, calls = earlier ++ call :: later ∧
      (after world earlier).installed handle call = some reader ∧
      ∀ between next, between ++ [next] <+: later →
        (after world (earlier ++ call :: between)).installed handle next = none := by
  induction calls using List.reverseRecOn with
  | nil => cases isCurrent
  | append_singleton calls call inductionHypothesis =>
    rw [after_concat, current_step] at isCurrent
    cases installs : (after world calls).installed handle call with
    | some other =>
      rw [installs] at isCurrent
      cases isCurrent
      refine ⟨calls, call, [], rfl, installs, fun between next isLater => ?_⟩
      cases between <;> cases List.prefix_nil.mp isLater
    | none =>
      rw [installs, Option.none_or] at isCurrent
      obtain ⟨earlier, first, later, rfl, installed, nothing⟩ := inductionHypothesis isCurrent
      refine ⟨earlier, first, later ++ [call], by simp, installed, fun between next isLater => ?_⟩
      rcases List.prefix_concat_iff.mp isLater with isLast | isBefore
      · obtain ⟨rfl, rfl⟩ := List.append_singleton_inj.mp isLast
        exact installs
      · exact nothing between next isBefore

theorem snapshots_after (world : World) (earlier later : List HandleCall) :
    (after world earlier).snapshots <+: (after world (earlier ++ later)).snapshots := by
  induction later using List.reverseRecOn with
  | nil => exact (List.append_nil earlier).symm ▸ List.prefix_rfl
  | append_singleton later call inductionHypothesis =>
    rw [← List.append_assoc, after_concat]
    exact inductionHypothesis.trans (snapshots_step _ call)

/-- A reader that was handed out is kept in its place. -/
theorem snapshot_kept {call : HandleCall} {reader : IndexReader}
    (handedOut : ((after world earlier).make call).1 = .ok (some reader)) :
    (after world (earlier ++ call :: later)).snapshots[(after world earlier).snapshots.length]? =
      some reader := by
  have kept := snapshots_after world (earlier ++ [call]) later
  rw [List.append_assoc, List.singleton_append, after_concat] at kept
  rcases step_cases (after world earlier) call with ⟨other, same, stepped⟩ | ⟨nothing, -⟩
  · cases handedOut.symm.trans same
    rw [stepped] at kept
    obtain ⟨others, isWhole⟩ := kept
    rw [← isWhole, List.append_assoc, List.getElem?_append_right le_rfl, Nat.sub_self]
    rfl
  · exact absurd handedOut (nothing reader)

/-- What is ready stays ready. -/
theorem ready_after (later : List HandleCall) {reader : IndexReader}
    (isCurrent : (after world earlier).current handle = some reader)
    (ready : reader.isReady = true) :
    ∃ now, (after world (earlier ++ later)).current handle = some now ∧ now.isReady = true := by
  induction later using List.reverseRecOn with
  | nil => exact ⟨reader, by rw [List.append_nil, isCurrent], ready⟩
  | append_singleton later call inductionHypothesis =>
    obtain ⟨before, isBefore, readyBefore⟩ := inductionHypothesis
    rw [← List.append_assoc, after_concat, current_step]
    cases installs : (after world (earlier ++ later)).installed handle call with
    | none => exact ⟨before, isBefore, readyBefore⟩
    | some other => exact ⟨other, rfl, ready_of_installed installs isBefore⟩

/-- What handles serve in a run of calls, while files are replaced and removed. A handle serves
the reader that was installed last, and that answers as it did when it was opened. A call that
cannot open a generation, or finds one of its files missing, changes no handle and no file. What
a call hands out is the reader that was current; it is kept, and it answers as it did. And a
handle that is ready stays ready. -/
theorem handles_serve_last_generation (world : World) (calls : List HandleCall) :
    (∀ handle reader, (after world calls).current handle = some reader →
      ∃ earlier call later, calls = earlier ++ call :: later ∧
        (after world earlier).installed handle call = some reader ∧
        (∀ between next, between ++ [next] <+: later →
          (after world (earlier ++ call :: between)).installed handle next = none) ∧
        ∀ query now, reader.answer query now =
          reader.answer query (after world earlier).world) ∧
    (∀ words docs options failure,
      ((IndexReader.open words docs options).perform (after world calls).world).1 =
        .error failure →
      (after world calls).Refused (.during (.openIndex words) failure)
        ((after world calls).make (.open words docs options))) ∧
    (∀ handle opened words docs, (after world calls).handles[handle]? = some opened →
      ∀ call ∈ [.switchTo handle words docs, .retireAndSwitch handle words docs],
        (∀ failure, ((IndexReader.open words docs opened.options).perform
            (after world calls).world).1 = .error failure →
          (after world calls).Refused (.during (.openGeneration words) failure)
            ((after world calls).make call)) ∧
        ((after world calls).world.files.exists? words = false ∨
            (after world calls).world.files.exists? docs = false →
          (after world calls).Refused (.generationMissing words)
            ((after world calls).make call))) ∧
    (∀ handle, ((after world calls).make (.current handle)).1 =
        .ok ((after world calls).current handle) ∧
      ∀ words docs replaced,
        ((after world calls).make (.switchTo handle words docs)).1 = .ok replaced →
        replaced = (after world calls).current handle) ∧
    (∀ earlier call later snapshot, calls = earlier ++ call :: later →
      ((after world earlier).make call).1 = .ok (some snapshot) →
      (after world calls).snapshots[(after world earlier).snapshots.length]? =
          some snapshot ∧
        ∀ query, snapshot.answer query (after world calls).world =
          snapshot.answer query (after world earlier).world) ∧
    (∀ earlier later handle reader, calls = earlier ++ later →
      (after world earlier).current handle = some reader → reader.isReady = true →
      ∃ now, (after world calls).current handle = some now ∧ now.isReady = true) := by
  refine ⟨fun handle reader isCurrent => ?_, fun words docs options failure failed =>
      refused_of_open failed, ?_, fun handle => ⟨reply_current _ handle,
      fun words docs replaced switched => reply_switchTo switched⟩, ?_, ?_⟩
  · obtain ⟨earlier, call, later, isCalls, installed, nothing⟩ :=
      exists_installation isCurrent
    exact ⟨earlier, call, later, isCalls, installed, nothing,
      fun query now => reader.answer_eq query now _⟩
  · intro handle opened words docs isOpen call member
    refine ⟨fun failure failed => ?_, fun missing => ?_⟩
    · exact refused_of_generation isOpen
        (IndexHandle.generation_of_failure failed) call member
    · exact refused_of_generation isOpen
        (IndexHandle.generation_of_missing missing) call member
  · rintro earlier call later snapshot rfl handedOut
    exact ⟨snapshot_kept handedOut, fun query => snapshot.answer_eq query _ _⟩
  · rintro earlier later handle reader rfl isCurrent ready
    exact ready_after later isCurrent ready

end HandleRun

/-! ### A generation that is retired while it is read -/

namespace generationsWorld

/-- The handle of the first generation is opened. -/
def opening : HandleCall := .open (.ofText "words") (.ofText "docs") ⟨.scalar, 32⟩

theorem after_opening : HandleRun.after generationsWorld [opening] = {
    world := afterOpen generationsWorld
    handles := [handle "words" "docs"]
    snapshots := [] } := by
  show HandleRun.step _ (.open _ _ _) = _
  rw [HandleRun.step, HandleRun.make, handle_opens "words" "docs" rfl rfl]
  rfl

theorem after_snapshot : HandleRun.after generationsWorld [opening, .current 0] =
    { world := afterOpen generationsWorld
      handles := [handle "words" "docs"]
      snapshots := [reader "words" "docs" 0] } := by
  show HandleRun.step (HandleRun.after generationsWorld [opening]) (.current 0) = _
  rw [after_opening]
  rfl

/-- The first generation is served, and the next one takes its place while it is still read. -/
def rotation : List HandleCall :=
  [opening, .current 0, .retireAndSwitch 0 (.ofText "next-words") (.ofText "next-docs")]

/-- The files of the first generation are removed when the next one is current. -/
theorem rotation_retires :
    (HandleRun.after generationsWorld rotation).current 0 =
        some (reader "next-words" "next-docs" 1) ∧
      (HandleRun.after generationsWorld rotation).world.files.read (.ofText "words") =
        .error .notFound := by
  have retires : ∃ after, IndexHandle.retireAndSwitch (.ofText "next-words")
      (.ofText "next-docs") (serving "words" "docs") = (.ok (), after) ∧
      after.handle.current = reader "next-words" "next-docs" 1 ∧
      after.world.files.read (.ofText "words") = .error .notFound := by
    refine ⟨_, Prod.ext ?_ rfl, ?_, ?_⟩
    all_goals
      rw [IndexHandle.retireAndSwitch, bind_apply, switches rfl rfl]
      rfl
  obtain ⟨after, rotated, isNext, gone⟩ := retires
  have stepped : HandleRun.after generationsWorld rotation =
      (HandleRun.after generationsWorld [opening, .current 0]).step
        (.retireAndSwitch 0 (.ofText "next-words") (.ofText "next-docs")) := rfl
  change IndexHandle.retireAndSwitch _ _ { handle := _, world := afterOpen _ } = _ at rotated
  rw [stepped, after_snapshot, HandleRun.step, HandleRun.make,
    @HandleRun.on_eq _ 0 (handle "words" "docs") rfl, bind_apply]
  dsimp only
  rw [rotated]
  exact ⟨congrArg some isNext, gone⟩

end generationsWorld

theorem handles_serve_last_generation_of_two :
    (HandleRun.after generationsWorld [generationsWorld.opening]).Refused
        (.generationMissing (.ofText "nope"))
        ((HandleRun.after generationsWorld [generationsWorld.opening]).make
          (.switchTo 0 (.ofText "nope") (.ofText "docs"))) ∧
      (HandleRun.after generationsWorld generationsWorld.rotation).snapshots[0]? =
          some (generationsWorld.reader "words" "docs" 0) ∧
        (HandleRun.after generationsWorld generationsWorld.rotation).world.files.read
          (.ofText "words") = .error .notFound ∧
        (∀ query, (generationsWorld.reader "words" "docs" 0).answer query
            (HandleRun.after generationsWorld generationsWorld.rotation).world =
          (generationsWorld.reader "words" "docs" 0).answer query
            (HandleRun.after generationsWorld [generationsWorld.opening]).world) ∧
      ∃ earlier call later, generationsWorld.rotation = earlier ++ call :: later ∧
        (HandleRun.after generationsWorld earlier).installed 0 call =
          some (generationsWorld.reader "next-words" "next-docs" 1) := by
  obtain ⟨-, -, refused, -⟩ :=
    HandleRun.handles_serve_last_generation generationsWorld [generationsWorld.opening]
  obtain ⟨served, -, -, -, kept, -⟩ :=
    HandleRun.handles_serve_last_generation generationsWorld generationsWorld.rotation
  have opened := generationsWorld.after_opening
  obtain ⟨isNext, removed⟩ := generationsWorld.rotation_retires
  obtain ⟨isKept, answers⟩ := kept [generationsWorld.opening] (.current 0) _
    (generationsWorld.reader "words" "docs" 0) rfl (by rw [opened]; rfl)
  obtain ⟨earlier, call, later, isRotation, installed, -⟩ := served 0 _ isNext
  refine ⟨?_, ?_, removed, answers, earlier, call, later, isRotation, installed⟩
  · exact (refused 0 (generationsWorld.handle "words" "docs") (.ofText "nope") (.ofText "docs")
      (by rw [opened]; rfl) _ List.mem_cons_self).2 (.inl (by rw [opened]; rfl))
  · rw [opened] at isKept
    exact isKept

end InvertedIndex
