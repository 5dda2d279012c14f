import Telemetry.Binary.Decimal
import Telemetry.Text.Blank
import Telemetry.Text.Pieces

/-!
# Media type negotiation

The entries of all `Accept` values are weighed together (specification, 6.3). Only `text/plain` and
`*/*` can be served; the heaviest of them is chosen, an equally heavy `text/plain` before `*/*`, and
the answer is `text/plain` if its weight is above zero.
-/

namespace Telemetry

/-- A weight is read in single precision. -/
abbrev Weight := Binary .binary32

/-- An entry of an `Accept` value. -/
structure AcceptEntry where
  weight : Weight
  mediaType : String
deriving DecidableEq

namespace AcceptEntry

/-- Read an entry: the media type and then parameters, between semicolons. The first `q=` parameter
is the weight, zero if it is no number; without one the weight is one. -/
def read (entry : List Char) : AcceptEntry :=
  match (Text.splitOn ';' entry).map Text.trim with
  | [] => ⟨.ofNat _ 1, ""⟩
  | mediaType :: parameters =>
    let weight :=
      match parameters.findSome? (Text.after? "q=".toList) with
      | none => Binary.ofNat _ 1
      | some q => (Binary.ofText? .binary32 (Text.trim q)).getD (.zero false)
    ⟨weight, String.ofList mediaType⟩

/-- The entries of an `Accept` value, between commas. -/
def readAll (value : String) : List AcceptEntry := (Text.splitOn ',' value.toList).map read

def isServed (e : AcceptEntry) : Bool := e.mediaType == "text/plain" || e.mediaType == "*/*"

/-- The better of the best entry so far and the next one. -/
def better (best next : AcceptEntry) : AcceptEntry :=
  if best.weight.lt next.weight then next
  else if next.weight.same best.weight && best.mediaType != "text/plain" &&
      next.mediaType == "text/plain" then next
  else best

end AcceptEntry

/-- The media type to answer with; without any value `text/plain`. -/
def bestMediaType (accept : List String) : Option String :=
  match accept.flatMap AcceptEntry.readAll with
  | [] => some "text/plain"
  | entries =>
    match entries.filter AcceptEntry.isServed with
    | [] => none
    | first :: rest =>
      if (Binary.zero false).lt (rest.foldl AcceptEntry.better first).weight then some "text/plain"
      else none

end Telemetry
