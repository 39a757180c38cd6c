import FCord.Data.Trim
import FCord.Recordings.Store

/-!
# The search store

The state of `useSearchStore` and its operations.
-/

namespace FCord

/-- The number of queries that are remembered. -/
def MAX_RECENT : ℕ := 10

/-- The state of `useSearchStore`. -/
structure SearchStore where
  query : String
  recentQueries : List String
  results : List ServerRecordingCache
  isSearching : Bool
  searchError : Option String
  deriving DecidableEq, Repr

namespace SearchStore

/-- The store of a fresh process. -/
def initial : SearchStore where
  query := ""
  recentQueries := []
  results := []
  isSearching := false
  searchError := none

variable (s : SearchStore)

def setQuery (q : String) : SearchStore := { s with query := q }

/-- The query becomes the first of the recent ones, unless it is blank. -/
def commitQuery : SearchStore :=
  let trimmed := trim s.query
  if trimmed = "" then s
  else
    { s with
      recentQueries :=
        (trimmed :: s.recentQueries.filter fun r => r ≠ trimmed).take MAX_RECENT }

def removeRecentQuery (q : String) : SearchStore :=
  { s with recentQueries := s.recentQueries.filter fun r => r ≠ q }

def setResults (results : List ServerRecordingCache) : SearchStore := { s with results := results }

def setSearching (v : Bool) : SearchStore := { s with isSearching := v }

def setSearchError (err : Option String) : SearchStore := { s with searchError := err }

def clearResults : SearchStore := { s with results := [], searchError := none }

end SearchStore

/-- A call of an operation of the search store. -/
inductive SearchOp where
  | setQuery (q : String)
  | commitQuery
  | removeRecentQuery (q : String)
  | setResults (results : List ServerRecordingCache)
  | setSearching (v : Bool)
  | setSearchError (err : Option String)
  | clearResults
  deriving DecidableEq, Repr

def SearchOp.apply (s : SearchStore) : SearchOp → SearchStore
  | .setQuery q => s.setQuery q
  | .commitQuery => s.commitQuery
  | .removeRecentQuery q => s.removeRecentQuery q
  | .setResults results => s.setResults results
  | .setSearching v => s.setSearching v
  | .setSearchError err => s.setSearchError err
  | .clearResults => s.clearResults

example : (SearchStore.initial.setQuery " 회의 ").commitQuery.recentQueries = ["회의"] := by
  decide +kernel

end FCord
