/-
The answer to a query for the documents of a term, narrowed by a filter and cut off at
a limit. The documents are read and filtered in batches, and the last batch is cut
where the limit is reached.
-/

import InvertedIndex.Reader

namespace InvertedIndex

/-- How many documents are read at once. -/
def queryBatch : Nat := 4096

/-- The first documents of a source that pass the filter, as many as the limit says. -/
def queryDocuments (filter : Filter) (limit : Nat) (source : PostingsSource) :
    Except Fault (List DocId) :=
  if _more : 0 < source.remaining ∧ 0 < limit then do
    let shown := (← filter.apply (source.read queryBatch).2.1).take limit
    return shown ++
      (← queryDocuments filter (limit - shown.length) (source.read queryBatch).2.2)
  else return []
termination_by source.remaining
decreasing_by
  simp only [PostingsSource.read, queryBatch]
  omega

/-- The filter of a query: the documents list each of the terms `also` and none of the
terms `never`. -/
def IndexReader.queryFilter {ε : Type} (reader : IndexReader) (also never : List Term) :
    Action ε Filter := do
  let retained ← also.mapM reader.retainFilter
  let rejected ← never.mapM reader.rejectFilter
  return Filter.all (retained ++ rejected)

end InvertedIndex
