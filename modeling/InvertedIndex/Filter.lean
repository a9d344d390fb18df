/-
Filters over documents. A filter tests one document, or narrows a sorted list of
candidates in one pass. A conjunction runs its cheapest filter first and stops when
no candidate is left; neither changes what passes.
-/

import InvertedIndex.Posting
import InvertedIndex.Store.Batch

namespace InvertedIndex

/-- What it costs to run filters, in entries to look through. -/
inductive Cost where
  /-- The cost of no filters at all, which comes before a cost of zero entries. -/
  | nothing
  | entries (count : Nat)
  deriving Repr, DecidableEq

namespace Cost

/-- The cost of both. -/
def add : Cost → Cost → Cost
  | .nothing, second => second
  | first, .nothing => first
  | .entries first, .entries second => .entries (first + second)

/-- The order of costs. -/
def le : Cost → Cost → Bool
  | .nothing, _ => true
  | .entries _, .nothing => false
  | .entries first, .entries second => first ≤ second

/-- A cost as a decimal; the cost of no filters is a negative zero. -/
def text : Cost → String
  | .nothing => "-0.0"
  | .entries count => s!"{count}.0"

end Cost

/-- A condition on documents. -/
inductive Filter where
  /-- The document lists the term. -/
  | retain (term : Term) (postings : Store)
  /-- The document does not list the term. -/
  | reject (term : Term) (postings : Store)
  | noPass
  | letThrough
  /-- All of the conditions hold; they are kept in the order in which they run. -/
  | allOf (filters : List Filter)
  /-- Some condition holds. -/
  | anyOf (filters : List Filter)

namespace Filter

mutual

/-- The cost of running a filter. -/
def cost : Filter → Cost
  | retain _ postings | reject _ postings => .entries postings.entries
  | noPass | letThrough => .entries 0
  | allOf filters | anyOf filters => totalCost filters

/-- The cost of running all of these filters. -/
def totalCost : List Filter → Cost
  | [] => .nothing
  | filter :: rest => filter.cost.add (totalCost rest)

end

/-- The conjunction of some filters, which run in the order of their costs. -/
def all (filters : List Filter) : Filter :=
  allOf (filters.mergeSort fun first second => first.cost.le second.cost)

/-- The disjunction of some filters. -/
def any (filters : List Filter) : Filter := anyOf filters

mutual

/-- The text that describes a filter. -/
def describe : Filter → String
  | retain term _ => s!"Retain:{term}"
  | reject term _ => s!"Reject:{term}"
  | noPass => "NoPass"
  | letThrough => "LetThrough"
  | allOf filters => "AllOf(" ++ ", ".intercalate (describeEach filters) ++ ")"
  | anyOf filters => "AnyOf(" ++ ", ".intercalate (describeEach filters) ++ ")"

/-- The descriptions of some filters. -/
def describeEach : List Filter → List String
  | [] => []
  | filter :: rest => filter.describe :: describeEach rest

end

mutual

/-- The document passes the filter. -/
def test : Filter → DocId → Except Fault Bool
  | retain _ postings, doc => postings.contains doc
  | reject _ postings, doc => return !(← postings.contains doc)
  | noPass, _ => return false
  | letThrough, _ => return true
  | allOf filters, doc => testAll filters doc
  | anyOf filters, doc => testAny filters doc

/-- The document passes all of these filters. -/
def testAll : List Filter → DocId → Except Fault Bool
  | [], _ => return true
  | filter :: rest, doc => do if ← filter.test doc then testAll rest doc else return false

/-- The document passes one of these filters. -/
def testAny : List Filter → DocId → Except Fault Bool
  | [], _ => return false
  | filter :: rest, doc => do if ← filter.test doc then return true else testAny rest doc

end

mutual

/-- The candidates that pass the filter, in order. The candidates are sorted. -/
def apply : Filter → List DocId → Except Fault (List DocId)
  | retain _ postings, candidates => postings.retain candidates
  | reject _ postings, candidates => postings.reject candidates
  | noPass, _ => return []
  | letThrough, candidates => return candidates
  | allOf filters, candidates => applyEach filters candidates
  | anyOf filters, candidates => candidates.filterM (testAny filters)

/-- The candidates left after these filters in turn; the rest is skipped once no
candidate is left. -/
def applyEach : List Filter → List DocId → Except Fault (List DocId)
  | [], candidates => return candidates
  | filter :: rest, candidates =>
    if candidates.isEmpty then return candidates
    else do applyEach rest (← filter.apply candidates)

end

end Filter

end InvertedIndex
