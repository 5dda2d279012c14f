import Telemetry.Source.Document
import Telemetry.Source.Yaml.Cursor

/-!
# Text of YAML scalars

A scalar is plain, quoted, or a block of lines under a header. Each reader starts at a cursor and
gives the scalar's text with the cursor after it; `none` when the scalar is refused. Lines of plain
and quoted scalars are joined (`Gap.text`); a block keeps its lines, or folds them when its header
says so.
-/

namespace Telemetry

namespace Yaml

/-! ## Plain scalars -/

/-- The part of a plain scalar up to the next blank or line end. In flow style a colon may not stand
before an indicator. -/
def plainWord? (flow : Bool) : List Char → Option (List Char)
  | [] => some []
  | c :: r =>
    let next := r.head?
    if isBlank c || isBreak c then some []
    else if flow && c == ':' && next.any fun d => isFlow d || d == '?' then none
    else if (c == ':' && isApart r) || (flow && isFlow c) then some []
    else (plainWord? flow r).map (c :: ·)

/-- A plain scalar whose later lines begin at least so far in, the cursor after it and the gap that
ends it, and whether a line ended in that gap. -/
def plain? (flow : Bool) (least : Nat) : Nat → Cursor → Option (List Char × Cursor × Bool)
  | 0, _ => none
  | fuel + 1, c => do
    let word ← plainWord? flow c.rest
    let c := c.advance word.length
    let g := Gap.of c
    let there := g.after c
    if g.hasTab least then none
    else if g.white.isEmpty then some (word, c, false)
    else
      let ended := !flow && !g.isInLine && there.column < least
      if ended || there.rest.isEmpty || there.atMarker || there.rest.head? == some '#' then
        some (word, there, !g.isInLine)
      else
        match ← plainWord? flow there.rest with
        | [] => some (word, there, !g.isInLine)
        | _ => do
          let (more, there, endsLine) ← plain? flow least fuel there
          some (word ++ g.text ++ more, there, endsLine)

/-! ## Quoted scalars -/

/-- The character of an escape of so many hexadecimal digits, and how many characters it took. -/
def hexEscape? (digits : Nat) (cs : List Char) : Option (Char × Nat) := do
  let (n, _) ← hexDigits? digits 0 cs
  let c ← charOf? n
  some (c, digits + 1)

/-- The characters with an escape of one letter. -/
def letterEscapes : List (Char × Nat) :=
  [('0', 0), ('a', 7), ('b', 8), ('t', 9), ('\t', 9), ('n', 10), ('v', 11), ('f', 12), ('r', 13),
    ('e', 27), (' ', 32), ('"', 34), ('/', 47), ('\\', 92), ('N', 0x85), ('_', 0xA0), ('L', 0x2028),
    ('P', 0x2029)]

/-- The character of an escape, after its backslash, and how many characters it took. -/
def escaped? : List Char → Option (Char × Nat)
  | 'x' :: r => hexEscape? 2 r
  | 'u' :: r => hexEscape? 4 r
  | 'U' :: r => hexEscape? 8 r
  | c :: _ => do
    let n ← letterEscapes.lookup c
    let e ← charOf? n
    some (e, 1)
  | [] => none

/-- The content of a scalar in quotes, after its first quote, and the cursor after its last one. -/
def quoted? (quote : Char) : Nat → Cursor → Option (List Char × Cursor)
  | 0, _ => none
  | fuel + 1, c =>
    if c.atMarker then none
    else
      match c.rest with
      | [] => none
      | d :: r =>
        if isBlank d ∨ isBreak d then
          let g := Gap.of c
          (quoted? quote fuel (g.after c)).map fun (t, c) => (g.text ++ t, c)
        else if d = quote then
          if quote = '\'' ∧ r.head? = some '\'' then
            (quoted? quote fuel (c.advance 2)).map fun (t, c) => (d :: t, c)
          else some ([], c.advance 1)
        else if d = '\\' ∧ quote = '"' then
          if r.head?.any isBreak then
            let c := c.advance 2
            let g := Gap.of c
            (quoted? quote fuel (g.after c)).map fun (t, c) => (g.breaks ++ t, c)
          else do
            let (e, n) ← escaped? r
            let (t, c) ← quoted? quote fuel (c.advance (n + 1))
            some (e :: t, c)
        else (quoted? quote fuel (c.advance 1)).map fun (t, c) => (d :: t, c)

/-! ## Block scalars -/

/-- What becomes of the line ends after a block scalar. -/
inductive Chomp where
  /-- The last line keeps its end. -/
  | clip
  /-- No line end stays. -/
  | strip
  /-- All stay. -/
  | keep

/-- The header of a block scalar. -/
structure BlockHeader where
  folded : Bool
  /-- How far the lines stand further in than what they belong to, if given. -/
  indentation : Option Nat
  chomp : Chomp

def chomp? : List Char → Option (Chomp × List Char)
  | '-' :: r => some (.strip, r)
  | '+' :: r => some (.keep, r)
  | _ => none

/-- An indentation from one to nine, if a digit is there. -/
def indentation? : List Char → Option (Option Nat × List Char)
  | c :: r =>
    if c = '0' then none
    else if c.isDigit then some (some (c.toNat - '0'.toNat), r)
    else some (none, c :: r)
  | [] => some (none, [])

/-- The text of the next line, when this one holds nothing more, a comment aside. -/
def nextLine? (cs : List Char) : Option (List Char) :=
  let r := cs.dropWhile isBlank
  let r := if r.head? = some '#' then r.dropWhile fun c => !isBreak c else r
  match r with
  | [] => some []
  | c :: r => if isBreak c then some r else none

/-- The header after its first character, and the text from the next line on. The indentation and
the chomping may come in either order. -/
def blockHeader? (folded : Bool) (cs : List Char) : Option (BlockHeader × List Char) := do
  let (chomp, indentation, r) ←
    match chomp? cs with
    | some (chomp, r) => (indentation? r).map fun (n, r) => (chomp, n, r)
    | none => do
      let (n, r) ← indentation? cs
      match n, chomp? r with
      | some n, some (chomp, r) => some (chomp, some n, r)
      | n, _ => some (.clip, n, r)
  let r ← nextLine? r
  some (⟨folded, indentation, chomp⟩, r)

/-- The empty lines of a block scalar before its next line. -/
structure EmptyLines where
  breaks : List Char
  /-- The widest indentation on the way. -/
  widest : Nat
  /-- The column of the next line's text. -/
  column : Nat
  rest : List Char

/-- Skip empty lines and the indentation of the next line, `indent` columns wide when it is known.
No tab may stand there. -/
def emptyLines? (indent : Option Nat) (column : Nat) : List Char → Option EmptyLines
  | [] => some ⟨[], column, column, []⟩
  | c :: r =>
    let indenting := indent.all (column < ·)
    if c = ' ' ∧ indenting then emptyLines? indent (column + 1) r
    else if c = '\t' ∧ indenting then none
    else if isBreak c then
      (emptyLines? indent 0 r).map fun e =>
        { e with breaks := c :: e.breaks, widest := max column e.widest }
    else some ⟨[], column, column, c :: r⟩

/-- The last line end of a block scalar's content, and the empty lines after it. -/
structure BlockTail where
  ending : List Char
  empty : List Char

/-- What stands between two lines of a block scalar: the end of the first and the empty lines after
it. When folding, a line feed between lines that begin with no blank becomes a blank, or falls away
when empty lines follow. -/
def blockJoint (folded blank : Bool) (tail : BlockTail) : List Char :=
  if folded ∧ !blank ∧ tail.ending = ['\n'] then
    if tail.empty.isEmpty then [' '] else tail.empty
  else tail.ending ++ tail.empty

/-- The lines of a block scalar that begin in a column, what comes after the last one, and the rest.
The line before them is given by its tail and by whether it begins with a blank. -/
def blockLines? (folded : Bool) (indent : Nat) :
    Nat → BlockTail → Bool → Nat → List Char → Option (List Char × BlockTail × List Char)
  | 0, _, _, _, _ => none
  | fuel + 1, tail, blankBefore, column, cs =>
    if column ≠ indent ∨ cs.isEmpty then some ([], tail, cs)
    else do
      let line := cs.takeWhile fun c => !isBreak c
      let blank := line.head?.any isBlank
      let r := cs.drop line.length
      let e ← emptyLines? indent 0 (r.drop 1)
      let (more, last, rest) ←
        blockLines? folded indent fuel ⟨r.take 1, e.breaks⟩ blank e.column e.rest
      some (blockJoint folded (blankBefore || blank) tail ++ line ++ more, last, rest)

/-- A block scalar after its first character, and the rest. Its lines begin at least so far in;
without an indentation in the header, as far as the first of them. -/
def block? (folded : Bool) (least : Nat) (cs : List Char) : Option (List Char × List Char) := do
  let (header, r) ← blockHeader? folded cs
  let given := header.indentation.map fun n => least - 1 + n
  let e ← emptyLines? given 0 r
  let indent := given.getD (max e.widest (max least 1))
  let (text, tail, rest) ← blockLines? folded indent r.length.succ
    ⟨[], e.breaks⟩ false e.column e.rest
  let ending :=
    match header.chomp with
    | .strip => []
    | .clip => tail.ending
    | .keep => tail.ending ++ tail.empty
  some (text ++ ending, rest)

end Yaml

end Telemetry
