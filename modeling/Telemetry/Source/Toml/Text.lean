import Telemetry.Source.Document

/-!
# Text of TOML documents

Comments, line ends, strings and keys. Each reader takes the text that is left and returns what it
read with the text after it; `none` when the text is refused.
-/

namespace Telemetry

namespace Toml

/-! ## Characters -/

def isBlank (c : Char) : Bool := c == ' ' || c == '\t'

def skipBlanks (cs : List Char) : List Char := cs.dropWhile isBlank

/-- Control characters other than the tab may not stand in comments and strings. -/
def isControl (c : Char) : Bool := (c.toNat < 0x20 && c != '\t') || c.toNat == 0x7F

/-- The rest after a line end. -/
def newline? : List Char → Option (List Char)
  | '\n' :: r => some r
  | '\r' :: '\n' :: r => some r
  | _ => none

/-- Skip a comment, if there is one; the line's end stays. -/
def skipComment? : List Char → Option (List Char)
  | '#' :: r =>
    let line := r.takeWhile fun c => c != '\n'
    let rest := r.dropWhile fun c => c != '\n'
    let (line, rest) :=
      match line.reverse with
      | '\r' :: back => if rest.isEmpty then (line, rest) else (back.reverse, '\r' :: rest)
      | _ => (line, rest)
    if line.any isControl then none else some rest
  | r => some r

/-- Skip blanks, line ends and comments. -/
def skipLines? : Nat → List Char → Option (List Char)
  | 0, _ => none
  | fuel + 1, cs => do
    let r ← skipComment? (skipBlanks cs)
    match newline? r with
    | some r => skipLines? fuel r
    | none => some r

/-- Skip the rest of a line: blanks, a comment, and the line's end or the text's. -/
def endLine? (cs : List Char) : Option (List Char) := do
  let r ← skipComment? (skipBlanks cs)
  match r with
  | [] => some []
  | r => newline? r

/-! ## Strings -/

/-- The character of an escape, after its backslash, and the rest. -/
def escaped? : List Char → Option (Char × List Char)
  | '"' :: r => some ('"', r)
  | '\\' :: r => some ('\\', r)
  | 'b' :: r => some ('\x08', r)
  | 'f' :: r => some ('\x0c', r)
  | 'n' :: r => some ('\n', r)
  | 'r' :: r => some ('\r', r)
  | 't' :: r => some ('\t', r)
  | 'u' :: r => (hexDigits? 4 0 r).bind fun (n, r) => (charOf? n).map fun c => (c, r)
  | 'U' :: r => (hexDigits? 8 0 r).bind fun (n, r) => (charOf? n).map fun c => (c, r)
  | _ => none

/-- The content of a basic string on one line, after its quote, and the rest. -/
def basic? : Nat → List Char → Option (List Char × List Char)
  | 0, _ => none
  | _ + 1, [] => none
  | _ + 1, '"' :: r => some ([], r)
  | fuel + 1, '\\' :: r => do
    let (c, r) ← escaped? r
    let (cs, r) ← basic? fuel r
    some (c :: cs, r)
  | fuel + 1, c :: r => if isControl c then none else do
    let (cs, r) ← basic? fuel r
    some (c :: cs, r)

/-- The content of a literal string on one line, after its quote, and the rest. -/
def literal? : List Char → Option (List Char × List Char)
  | [] => none
  | '\'' :: r => some ([], r)
  | c :: r => if isControl c then none else (literal? r).map fun (cs, r) => (c :: cs, r)

/-- Three quotes end a string over several lines; one or two before them belong to it. -/
def closing? (quote : Char) (cs : List Char) : Option (List Char × List Char) :=
  let quotes := cs.takeWhile (· == quote)
  let n := quotes.length
  if n < 3 then none
  else
    let inside := min (n - 3) 2
    some (quotes.take inside, cs.drop (inside + 3))

/-- Skip blanks and line ends. -/
def skipEmpty : List Char → List Char
  | '\r' :: '\n' :: r => skipEmpty r
  | c :: r => if isBlank c ∨ c = '\n' then skipEmpty r else c :: r
  | [] => []

/-- After a backslash at a line's end: the text from the next character that is not blank. -/
def skipFolded? (cs : List Char) : Option (List Char) := (newline? (skipBlanks cs)).map skipEmpty

/-- The content of a string over several lines, after its quotes, and the rest. -/
def multiline? (quote : Char) : Nat → List Char → Option (List Char × List Char)
  | 0, _ => none
  | _ + 1, [] => none
  | fuel + 1, c :: r =>
    match closing? quote (c :: r) with
    | some (inside, r) => some (inside, r)
    | none =>
      match newline? (c :: r) with
      | some r => (multiline? quote fuel r).map fun (cs, r) => ('\n' :: cs, r)
      | none =>
        if c = '\\' ∧ quote = '"' then
          match skipFolded? r with
          | some r => multiline? quote fuel r
          | none => do
            let (e, r) ← escaped? r
            let (cs, r) ← multiline? quote fuel r
            some (e :: cs, r)
        else if isControl c then none
        else (multiline? quote fuel r).map fun (cs, r) => (c :: cs, r)

/-- A line end directly after the opening quotes is left out. -/
def afterOpening (cs : List Char) : List Char := (newline? cs).getD cs

/-- A string and the rest. -/
def string? (cs : List Char) : Option (String × List Char) :=
  let fuel := cs.length + 1
  let content :=
    match cs with
    | '"' :: '"' :: '"' :: r => multiline? '"' fuel (afterOpening r)
    | '\'' :: '\'' :: '\'' :: r => multiline? '\'' fuel (afterOpening r)
    | '"' :: r => basic? fuel r
    | '\'' :: r => literal? r
    | _ => none
  content.map fun (t, r) => (String.ofList t, r)

/-! ## Keys -/

def isBare (c : Char) : Bool := c.isAlphanum || c == '_' || c == '-'

/-- One part of a key and the rest. -/
def keyPart? : List Char → Option (String × List Char)
  | '"' :: r => (basic? r.length.succ r).map fun (t, r) => (String.ofList t, r)
  | '\'' :: r => (literal? r).map fun (t, r) => (String.ofList t, r)
  | cs =>
    let part := cs.takeWhile isBare
    if part.isEmpty then none else some (String.ofList part, cs.dropWhile isBare)

/-- The parts of a key between dots, and the rest without the blanks after it. -/
def keyParts? : Nat → List Char → Option (List String × List Char)
  | 0, _ => none
  | fuel + 1, cs => do
    let (part, r) ← keyPart? (skipBlanks cs)
    match skipBlanks r with
    | '.' :: r =>
      let (parts, r) ← keyParts? fuel r
      some (part :: parts, r)
    | r => some ([part], r)

/-- How many parts a key may have, and how deep arrays and inline tables may lie in each other. -/
def maxDepth : Nat := 79

/-- A key and the rest without the blanks after it. -/
def key? (cs : List Char) : Option (List String × List Char) :=
  (keyParts? cs.length.succ cs).filter fun (key, _) => key.length ≤ maxDepth

end Toml

end Telemetry
