import Distant.Lib.Lines
import Distant.Search.Condition

/-!
# The matches of a search

What a search finds, and how it is told to the client that has asked for it.
-/

namespace Distant

abbrev SearchId := UInt32

inductive SearchQueryMatchData where
  | bytes (data : Bytes)
  | text (data : Text)
  deriving DecidableEq, Repr

structure SearchQuerySubmatch where
  «match» : SearchQueryMatchData
  start : Nat
  stop : Nat
  deriving DecidableEq, Repr

structure SearchQueryPathMatch where
  path : Text
  submatches : List SearchQuerySubmatch
  deriving DecidableEq, Repr

structure SearchQueryContentsMatch where
  path : Text
  lines : SearchQueryMatchData
  lineNumber : Nat
  absoluteOffset : Nat
  submatches : List SearchQuerySubmatch
  deriving DecidableEq, Repr

inductive SearchQueryMatch where
  | path (found : SearchQueryPathMatch)
  | contents (found : SearchQueryContentsMatch)
  deriving DecidableEq, Repr

/-- The responses to a request for a search. -/
inductive SearchResponse where
  | searchStarted (id : SearchId)
  | searchResults (id : SearchId) (found : List SearchQueryMatch)
  | searchDone (id : SearchId)
  | error (e : IoError)
  /-- of another kind -/
  | other
  deriving DecidableEq, Repr

end Distant
