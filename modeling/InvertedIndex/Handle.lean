/-
Serving an index while new generations of it are installed. A handle holds the reader
that answers queries now. A new generation replaces it only when it can be opened and
is there; the reader that was current before keeps its answers. Retiring also removes
the files of the previous generation that are not named by the new one.
-/

import InvertedIndex.Reader
import InvertedIndex.TracedError

namespace InvertedIndex

/-- The reader that serves queries, and how its successors are opened. -/
structure IndexHandle where
  current : IndexReader
  options : ReaderOptions

/-- A handle in the world that it serves in. -/
structure Serving where
  handle : IndexHandle
  world : World

/-- An operation on a handle. -/
abbrev HandleAction := ExceptT (Failure TracedError) (StateM Serving)

namespace IndexHandle

/-- Starts to serve the index in two files; degraded when they are not there yet. -/
def «open» (words docs : Path) (options : ReaderOptions) : Action TracedError IndexHandle := do
  let reader ← (IndexReader.open words docs options).during (.openIndex words)
  return { current := reader, options }

/-- An operation on the world alone. -/
def act {α : Type} (action : Action TracedError α) : HandleAction α := fun serving =>
  match action serving.world with
  | (result, world) => (result, { serving with world })

/-- Installs the generation in two files and returns the reader it replaces. -/
def switchTo (words docs : Path) : HandleAction IndexReader := do
  let handle := (← get).handle
  let reader ← act ((IndexReader.open words docs handle.options).during (.openGeneration words))
  if !reader.isReady then act (Action.stop (.generationMissing words))
  modify fun serving => { serving with handle := { handle with current := reader } }
  return handle.current

/-- Removes a file of the previous generation, unless the new one names it in its place
or it is gone. -/
def retire (previous next : Path) : HandleAction Unit := do
  if !previous.sameSteps next && (← get).world.files.exists? previous then
    act ((Action.change fun files => files.remove previous).filesDuring (.removeRetired previous))
    act (Action.log .debug s!"Removed retired {previous}")

/-- Installs a new generation, then removes the files of the previous one. -/
def retireAndSwitch (words docs : Path) : HandleAction Unit := do
  let previous ← switchTo words docs
  act (Action.log .info s!"Switched reverse index to {words}")
  retire previous.wordsPath words
  retire previous.docsPath docs

end IndexHandle

end InvertedIndex
