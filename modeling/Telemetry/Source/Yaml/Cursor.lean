/-!
# Places in a YAML text

A `Cursor` is a place in a text: the line and column reached and what is left to read. Lines end
with a line feed, a line separator or a paragraph separator; `unixLines` writes all other line ends
as line feeds.
-/

namespace Telemetry

namespace Yaml

/-! ## Characters -/

/-- The characters that a text may hold. -/
def isAllowed (c : Char) : Bool :=
  let n := c.toNat
  c == '\t' || c == '\n' || c == '\r' || (0x20 ≤ n && n ≤ 0x7E) || n == 0x85
    || (0xA0 ≤ n && n ≤ 0xFFFD) || 0x10000 ≤ n

def isBlank (c : Char) : Bool := c == ' ' || c == '\t'

def isBreak (c : Char) : Bool := c == '\n' || c == '\u2028' || c == '\u2029'

/-- Whether a text is empty or begins with a blank or a line end. -/
def isApart : List Char → Bool
  | [] => true
  | c :: _ => isBlank c || isBreak c

/-- The characters that structure flow style. -/
def isFlow (c : Char) : Bool := c == ',' || c == '[' || c == ']' || c == '{' || c == '}'

/-- The characters that begin no plain scalar. -/
def isIndicator (c : Char) : Bool :=
  isFlow c || ['#', '&', '*', '!', '|', '>', '\'', '"', '%', '@', '\x60'].contains c

/-- The characters of names: of anchors, directives and tag handles. -/
def isWord (c : Char) : Bool := c.isAlphanum || c == '_' || c == '-'

/-- Carriage returns, alone or before a line feed, and next lines written as line feeds. -/
def unixLines : List Char → List Char
  | '\r' :: '\n' :: r => '\n' :: unixLines r
  | c :: r => (if c = '\r' ∨ c = '\u0085' then '\n' else c) :: unixLines r
  | [] => []

/-! ## Cursors -/

structure Cursor where
  /-- How many characters were passed. -/
  index : Nat
  line : Nat
  column : Nat
  rest : List Char

namespace Cursor

/-- The start of a text. A byte order mark there is passed and takes up a column. -/
def start : List Char → Cursor
  | '\ufeff' :: r => ⟨1, 0, 1, r⟩
  | cs => ⟨0, 0, 0, cs⟩

/-- After `n` more characters. -/
def advance (n : Nat) (c : Cursor) : Cursor :=
  let passed := c.rest.take n
  let breaks := passed.countP isBreak
  let onLine := (passed.reverse.takeWhile fun d => !isBreak d).length
  { index := c.index + passed.length
    line := c.line + breaks
    column := if breaks = 0 then c.column + onLine else onLine
    rest := c.rest.drop n }

/-- At `rest`, which ends the text that is left. -/
def upTo (rest : List Char) (c : Cursor) : Cursor := c.advance (c.rest.length - rest.length)

/-- Whether three times the given character stands at the beginning of a line, apart from the text
after it. -/
def isMarker (mark : Char) (c : Cursor) : Bool :=
  c.column == 0 && c.rest.take 3 == [mark, mark, mark] && isApart (c.rest.drop 3)

/-- Whether a document begins or ends here. -/
def atMarker (c : Cursor) : Bool := c.isMarker '-' || c.isMarker '.'

end Cursor

/-! ## Gaps -/

/-- The blanks and line ends between two words. -/
structure Gap where
  white : List Char

namespace Gap

/-- The gap at a cursor. -/
def of (c : Cursor) : Gap := ⟨c.rest.takeWhile fun d => isBlank d || isBreak d⟩

def breaks (g : Gap) : List Char := g.white.filter isBreak

/-- Whether the gap is on one line. -/
def isInLine (g : Gap) : Bool := g.breaks.isEmpty

/-- The cursor after the gap. -/
def after (g : Gap) (c : Cursor) : Cursor := c.advance g.white.length

/-- The text for a gap between two words: blanks stay, a line feed becomes a blank, and of more line
ends a line feed at the beginning is left out. -/
def text (g : Gap) : List Char :=
  match g.breaks with
  | [] => g.white
  | ['\n'] => [' ']
  | '\n' :: more => more
  | separators => separators

/-- Whether a tab stands among the first `width` columns of a line that the gap begins. -/
def hasTab (width : Nat) (g : Gap) : Bool :=
  ((g.white.splitOnP isBreak).drop 1).any fun l => (l.take width).contains '\t'

end Gap

end Yaml

end Telemetry
