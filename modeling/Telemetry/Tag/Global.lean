import Telemetry.Tag.Basic

/-!
# The text of global tags

Global tags are written as one text, `key=value` pairs between commas (specification, 6.2). A
backslash takes the character after it out of the cutting: `splitEscaped` cuts at the separators
that no backslash precedes so. In the cut parts `\,` and `\=` then stand for the comma and the
equals sign.
-/

namespace Telemetry

/-- The pieces between the separators that no backslash takes out; backslashes stay. -/
def splitEscaped (sep : Char) : List Char → List (List Char)
  | [] => [[]]
  | '\\' :: c :: r =>
    match splitEscaped sep r with
    | [] => [['\\', c]]
    | p :: ps => ('\\' :: c :: p) :: ps
  | c :: r =>
    if c = sep then [] :: splitEscaped sep r
    else
      match splitEscaped sep r with
      | [] => [[c]]
      | p :: ps => (c :: p) :: ps

/-- Replace `\,` and then `\=` by the character alone. -/
def unescape (cs : List Char) : List Char := Text.dropEscapes '=' (Text.dropEscapes ',' cs)

/-- Read one pair. -/
def readPair (pair : List Char) : Except GlobalTagsFault (TagName × String) :=
  if pair.isEmpty then .error .emptyPair
  else
    match splitEscaped '=' pair with
    | [key, value] =>
      let key := String.ofList (unescape key)
      let value := String.ofList (unescape value)
      if key.isEmpty || value.isEmpty then .error (.emptyPart (String.ofList pair))
      else
        match TagName.of? key with
        | some name => .ok (name, value)
        | none => .error (.invalidName key)
    | _ => .error (.notSinglePair (String.ofList pair))

/-- Read the global tags. A blank text holds none; the first faulty pair is the answer's fault. -/
def parseGlobalTags (input : String) : Outcome Tags :=
  if (Text.trim input.toList).isEmpty then .ok ∅
  else
    match (splitEscaped ',' input.toList).mapM readPair with
    | .ok pairs => .ok (SortedMap.ofList pairs)
    | .error fault => .error (.malformedGlobalTags input fault)

end Telemetry
