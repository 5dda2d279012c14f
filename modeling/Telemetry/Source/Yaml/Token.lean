import Telemetry.Source.Yaml.Scalar
import Telemetry.Source.Yaml.Tag

/-!
# Tokens of a YAML text

`Token.ofText?` splits a text into tokens. Indentation becomes tokens too: a block begins where a
line stands further in than the block around it, and ends before the first line that does not.
Whether something is a key is known only at the colon after it. Until then it is a `KeySpot`: the
key's token, and the mapping's if one begins with it, are put in front of it when the colon is
found. A key ends on its line and within 1024 characters.
-/

namespace Telemetry

namespace Yaml

inductive Token where
  | directive (directive : Directive)
  /-- Three dashes. -/
  | documentStart
  /-- Three points. -/
  | documentEnd
  /-- A block sequence begins. -/
  | blockSequence
  /-- A block mapping begins. -/
  | blockMapping
  /-- The innermost block ends. -/
  | blockEnd
  /-- A dash before an element of a block sequence. -/
  | dash
  | openBracket
  | closeBracket
  | openBrace
  | closeBrace
  | comma
  | key
  | value
  | anchor (name : List Char)
  | aliasOf (name : List Char)
  | tag (written : WrittenTag)
  | scalar (plain : Bool) (text : List Char)

/-- Where a key may begin. -/
structure KeySpot where
  index : Nat
  line : Nat
  column : Nat
  /-- How many tokens come before it. -/
  number : Nat
  /-- A line of a block mapping has to begin with a key. -/
  required : Bool

/-- The tokens so far and what the next ones depend on. -/
structure Scan where
  cursor : Cursor
  /-- The tokens so far, the latest first. -/
  tokens : List Token
  /-- The columns of the open blocks, the innermost first. -/
  columns : List Nat
  /-- Where the last key may have begun. -/
  spot : Option KeySpot
  /-- The same for the text around each open bracket, the innermost first. -/
  around : List (Option KeySpot)
  /-- Whether a key may begin here. -/
  keyAllowed : Bool

namespace Scan

/-- At the start of a text. -/
def start (cs : List Char) : Scan := ⟨.start cs, [], [], none, [], true⟩

variable (s : Scan)

def inFlow : Bool := !s.around.isEmpty

/-- The least column of a line that goes on inside the innermost block. -/
def least : Nat := (s.columns.head?.map (· + 1)).getD 0

/-- Add a token for the next `n` characters. -/
def emit (n : Nat) (t : Token) : Scan :=
  { s with tokens := t :: s.tokens, cursor := s.cursor.advance n }

/-! ### Blocks -/

/-- Put tokens after the first `number` ones. -/
def insert (number : Nat) (ts : List Token) : Scan :=
  let later := s.tokens.length - number
  { s with tokens := s.tokens.take later ++ ts.reverse ++ s.tokens.drop later }

/-- Begin a block in a column, unless the innermost one is not further out. Its token comes after
the first `number` ones. In flow style there are no blocks. -/
def enter (column number : Nat) (t : Token) : Scan :=
  if s.inFlow ∨ column < s.least then s
  else { s.insert number [t] with columns := column :: s.columns }

/-- End the blocks in a column from `least` on. -/
def leave (least : Nat) : Scan :=
  if s.inFlow then s
  else
    let ended := s.columns.takeWhile (least ≤ ·)
    { s with
      columns := s.columns.drop ended.length
      tokens := ended.map (fun _ => .blockEnd) ++ s.tokens }

/-! ### Keys -/

/-- Forget where the last key may have begun; refused when a key has to be there. -/
def dropSpot? : Option Scan :=
  if s.spot.any KeySpot.required then none else some { s with spot := none }

/-- If a key may begin here, note the place. -/
def noteSpot? : Option Scan :=
  if !s.keyAllowed then some s
  else do
    let s ← s.dropSpot?
    let c := s.cursor
    let required := !s.inFlow && s.columns.head? == some c.column
    some { s with spot := some ⟨c.index, c.line, c.column, s.tokens.length, required⟩ }

/-- Whether a key that begins at the spot cannot reach the cursor. -/
def isPast (k : KeySpot) : Bool := k.line < s.cursor.line || k.index + 1024 < s.cursor.index

/-- Forget the places whose keys cannot reach so far; refused when a key has to be at one of
them. -/
def forgetPast? : Option Scan :=
  let past := (s.spot :: s.around).filterMap fun k => k.filter s.isPast
  if past.any KeySpot.required then none
  else
    some { s with
      spot := s.spot.filter fun k => !s.isPast k
      around := s.around.map fun k => k.filter fun k => !s.isPast k }

/-! ### To the next token -/

/-- How many characters lie before the next token, and whether a key may begin there: in block style
it may after every line end. Where it may, tabs are no blanks. -/
def skipped (flow : Bool) : Bool → Bool → List Char → Nat × Bool
  | _, allowed, [] => (0, allowed)
  | comment, allowed, c :: r =>
    if isBreak c then
      let (n, allowed) := skipped flow false (allowed || !flow) r
      (n + 1, allowed)
    else if comment ∨ c = ' ' ∨ (c = '\t' ∧ (flow ∨ !allowed)) ∨ c = '#' then
      let (n, allowed) := skipped flow (comment || c == '#') allowed r
      (n + 1, allowed)
    else (0, allowed)

/-- Go to the next token. -/
def toNext? : Option Scan := do
  let (n, allowed) := skipped s.inFlow false s.keyAllowed s.cursor.rest
  let s := { s with cursor := s.cursor.advance n, keyAllowed := allowed }
  let s ← s.forgetPast?
  some (s.leave (s.cursor.column + 1))

/-! ### Tokens -/

/-- Directives and markers end all blocks. -/
def leaveAll? : Option Scan := do
  let s ← (s.leave 0).dropSpot?
  some { s with keyAllowed := false }

/-- A directive, up to the next line. -/
def directive? : Option Scan := do
  let s ← s.leaveAll?
  let (d, r) ← Yaml.directive? (s.cursor.rest.drop 1)
  let r ← nextLine? r
  some { s with tokens := .directive d :: s.tokens, cursor := s.cursor.upTo r }

/-- Three dashes or points. -/
def marker? (t : Token) : Option Scan := do
  let s ← s.leaveAll?
  some (s.emit 3 t)

/-- An opening bracket or brace. -/
def open? (t : Token) : Option Scan := do
  let s ← s.noteSpot?
  some { s.emit 1 t with spot := none, around := s.spot :: s.around, keyAllowed := true }

/-- A closing bracket or brace. -/
def close? (t : Token) : Option Scan := do
  let s ← s.dropSpot?
  some { s.emit 1 t with
    spot := s.around.headD none, around := s.around.tail, keyAllowed := false }

def comma? : Option Scan := do
  let s ← s.dropSpot?
  some { s.emit 1 .comma with keyAllowed := true }

/-- A dash before an element. -/
def dash? : Option Scan :=
  if !s.inFlow ∧ !s.keyAllowed then none
  else do
    let s ← (s.enter s.cursor.column s.tokens.length .blockSequence).dropSpot?
    some { s.emit 1 .dash with keyAllowed := true }

/-- A question mark before a key. -/
def key? : Option Scan :=
  if !s.inFlow ∧ !s.keyAllowed then none
  else do
    let s ← (s.enter s.cursor.column s.tokens.length .blockMapping).dropSpot?
    some { s.emit 1 .key with keyAllowed := !s.inFlow }

/-- A colon after a key. -/
def value? : Option Scan :=
  match s.spot with
  | some k =>
    let s := (s.insert k.number [.key]).enter k.column k.number .blockMapping
    some { s.emit 1 .value with spot := none, keyAllowed := false }
  | none =>
    if !s.inFlow ∧ !s.keyAllowed then none
    else
      let s := s.enter s.cursor.column s.tokens.length .blockMapping
      some { s.emit 1 .value with keyAllowed := !s.inFlow }

/-- The name of an anchor or alias. -/
def name? (token : List Char → Token) : Option Scan := do
  let s ← s.noteSpot?
  let r := s.cursor.rest.drop 1
  let name := r.takeWhile isWord
  let after := r.drop name.length
  let ends :=
    isApart after || after.head?.any fun c => ['?', ':', ',', ']', '}', '%', '@', '\x60'].contains c
  if name.isEmpty ∨ !ends then none
  else some { s.emit (name.length + 1) (token name) with keyAllowed := false }

def tag? : Option Scan := do
  let s ← s.noteSpot?
  let (t, r) ← writtenTag? (s.cursor.rest.drop 1)
  if isApart r ∨ (s.inFlow ∧ r.head? = some ',') then
    some { s with tokens := .tag t :: s.tokens, cursor := s.cursor.upTo r, keyAllowed := false }
  else none

def blockScalar? (folded : Bool) : Option Scan := do
  let s ← s.dropSpot?
  let (text, r) ← block? folded s.least (s.cursor.rest.drop 1)
  some { s with
    tokens := .scalar false text :: s.tokens, cursor := s.cursor.upTo r, keyAllowed := true }

def quotedScalar? (quote : Char) : Option Scan := do
  let s ← s.noteSpot?
  let (text, c) ← quoted? quote s.cursor.rest.length (s.cursor.advance 1)
  some { s with tokens := .scalar false text :: s.tokens, cursor := c, keyAllowed := false }

def plainScalar? : Option Scan := do
  let s ← s.noteSpot?
  let (text, c, endsLine) ← plain? s.inFlow s.least s.cursor.rest.length.succ s.cursor
  some { s with tokens := .scalar true text :: s.tokens, cursor := c, keyAllowed := endsLine }

/-- Read the token at the cursor, which begins with the given character. -/
def token? (d : Char) (r : List Char) : Option Scan :=
  let c := s.cursor
  if c.column = 0 ∧ d = '%' then s.directive?
  else if c.isMarker '-' then s.marker? .documentStart
  else if c.isMarker '.' then s.marker? .documentEnd
  else if d = '[' then s.open? .openBracket
  else if d = '{' then s.open? .openBrace
  else if d = ']' then s.close? .closeBracket
  else if d = '}' then s.close? .closeBrace
  else if d = ',' then s.comma?
  else if d = '-' ∧ isApart r then s.dash?
  else if d = '?' ∧ (s.inFlow ∨ isApart r) then s.key?
  else if d = ':' ∧ (s.inFlow ∨ isApart r) then s.value?
  else if d = '*' then s.name? .aliasOf
  else if d = '&' then s.name? .anchor
  else if d = '!' then s.tag?
  else if d = '|' ∧ !s.inFlow then s.blockScalar? false
  else if d = '>' ∧ !s.inFlow then s.blockScalar? true
  else if d = '\'' ∨ d = '"' then s.quotedScalar? d
  else if isBlank d ∨ isIndicator d then none
  else s.plainScalar?

/-- At the end of the text. -/
def finish? : Option (List Token) := do
  let s ← (s.leave 0).dropSpot?
  some s.tokens.reverse

/-- The tokens up to the end. Each takes at least a character. -/
def run? : Nat → Scan → Option (List Token)
  | 0, _ => none
  | fuel + 1, s => do
    let s ← s.toNext?
    match s.cursor.rest with
    | [] => s.finish?
    | d :: r => do
      let s ← s.token? d r
      run? fuel s

end Scan

/-- The tokens of a text. -/
def Token.ofText? (cs : List Char) : Option (List Token) := (Scan.start cs).run? (cs.length + 1)

end Yaml

end Telemetry
