import Telemetry.Config
import Telemetry.Duration
import Telemetry.Error

/-!
# Settings of distributions

A property of the configuration is a list of `name=values` entries between semicolons
(`PropertyList.parse`; specification, 6.2). A name that ends in `*` stands for every name that
starts so, and of the entries that match a name the last one counts (`PropertyList.find?`).
`DistributionSettings` holds the lists once read, and resolves them for a histogram or a timer to a
`DistributionSpec`.
-/

namespace Telemetry

/-- What is kept and published of one distribution. -/
structure DistributionSpec where
  /-- Published quantiles. -/
  percentiles : List Real64
  /-- Upper bounds of the published buckets. -/
  buckets : List Real64
  minValue : Option Real64
  maxValue : Option Real64
  /-- Significant decimal digits that recorded values keep. -/
  precision : Nat
deriving DecidableEq

/-- Quantiles that are published unless configured. -/
def defaultPercentiles : List Real64 :=
  [decimal 5 (-1), decimal 75 (-2), decimal 95 (-2), decimal 98 (-2), decimal 99 (-2),
   decimal 999 (-3)]

/-- Bucket bounds of a timer, in seconds, where default buckets are switched on. -/
def defaultTimerBuckets : List Real64 :=
  [decimal 5 (-3), decimal 1 (-2), decimal 25 (-3), decimal 5 (-2), decimal 1 (-1), decimal 25 (-2),
   decimal 5 (-1), decimal 1 0, decimal 25 (-1), decimal 5 0, decimal 10 0]

/-- The default buckets of a histogram without a configured maximum reach up to this. -/
def defaultHistogramMax : Real64 := decimal 10000 0

/-! ## Entries -/

/-- The names an entry stands for. -/
inductive NamePattern where
  | exactly (name : List Char)
  | startingWith (start : List Char)
deriving DecidableEq

namespace NamePattern

/-- A `*` at the end stands for any rest. -/
def of (cs : List Char) : NamePattern :=
  match Text.before? ['*'] cs with
  | some start => .startingWith start
  | none => .exactly cs

/-- Whether a name is one of the pattern's. -/
def covers (p : NamePattern) (name : String) : Bool :=
  match p with
  | exactly n => n == name.toList
  | startingWith start => (Text.after? start name.toList).isSome

end NamePattern

/-- Entries in the order of the text. -/
abbrev PropertyList (α : Type) := List (NamePattern × α)

namespace PropertyList

variable {α : Type}

/-- Read one entry, already trimmed. -/
def readEntry (read : List Char → Except EntryFault α) (entry : List Char) :
    Except EntryFault (NamePattern × α) :=
  match Text.cut? '=' entry with
  | none => .error .noValues
  | some (name, values) =>
    let name := Text.trim name
    if name.isEmpty then .error .emptyName
    else (read (Text.trim values)).map fun value => (NamePattern.of name, value)

/-- The entries of a text that are not blank, trimmed. -/
def entryTexts (text : String) : List (List Char) :=
  ((Text.splitOn ';' text.toList).map Text.trim).filter fun e => !e.isEmpty

/-- Read a property; the first faulty entry is the answer's error. -/
def parse (property : Property) (read : List Char → Except EntryFault α) (text : Option String) :
    Outcome (PropertyList α) :=
  match text with
  | none => .ok []
  | some text =>
    (entryTexts text).mapM fun entry =>
      (readEntry read entry).mapError fun fault =>
        .invalidDistribution property (String.ofList entry) fault

/-- The value of the last entry that covers the name. -/
def find? (l : PropertyList α) (name : String) : Option α :=
  (l.reverse.find? fun e => e.1.covers name).map Prod.snd

end PropertyList

/-! ## Values -/

/-- The values between commas, trimmed; blank ones are left out. -/
def splitValues (cs : List Char) : List (List Char) :=
  ((Text.splitOn ',' cs).map Text.trim).filter fun v => !v.isEmpty

/-- A number from zero on. -/
def readNumber (cs : List Char) : Except EntryFault Real64 :=
  match Amount.read cs with
  | .number x => .ok x
  | .notNumber => .error (.notNumber (String.ofList cs))
  | .negative => .error (.negative (String.ofList cs))

/-- `l` without the numbers equal to the one kept before them, `a` at first. -/
def dropRepeatsOf (a : Real64) : List Real64 → List Real64
  | [] => []
  | b :: r => if a.same b then dropRepeatsOf a r else b :: dropRepeatsOf b r

/-- Of equal neighbours the first stays. -/
def dropRepeats : List Real64 → List Real64
  | [] => []
  | a :: r => a :: dropRepeatsOf a r

/-- Ascending, each number once. -/
def sortDistinct (l : List Real64) : List Real64 :=
  dropRepeats (l.mergeSort fun a b => decide (a.sortKey ≤ b.sortKey))

/-- Numbers, ascending, each once. -/
def readNumbers (cs : List Char) : Except EntryFault (List Real64) :=
  ((splitValues cs).mapM readNumber).map sortDistinct

/-- Numbers in `[0, 1]`. -/
def readPercentiles (cs : List Char) : Except EntryFault (List Real64) := do
  let values ← readNumbers cs
  match values.find? fun p => (decimal 1 0).lt p with
  | some p => .error (.percentileOutside p)
  | none => .ok values

/-- A truth value in any case; nothing is false. -/
def readBoolean (cs : List Char) : Except EntryFault Bool :=
  let word := String.ofList ((Text.trim cs).map Char.toLower)
  if word = "true" then .ok true
  else if word = "" ∨ word = "false" then .ok false
  else .error (.notBoolean word)

/-- A duration, in seconds. -/
def readSeconds (cs : List Char) : Except EntryFault Real64 :=
  match Duration.read? cs with
  | some d => .ok d.seconds
  | none => .error (.notDuration (String.ofList (Text.trim cs)))

/-- Durations in seconds, ascending, each once. -/
def readDurations (cs : List Char) : Except EntryFault (List Real64) :=
  ((splitValues cs).mapM readSeconds).map sortDistinct

/-! ## Default buckets -/

/-- The elements up to the first one that satisfies `p`, that one included. -/
def takeThrough (p : Real64 → Bool) : List Real64 → List Real64
  | [] => []
  | x :: r => if p x then [x] else x :: takeThrough p r

/-- The series 1, 2, 5, 10, 20, 50, … over a number of decades. -/
def decades : Nat → Real64 → List Real64
  | 0, _ => []
  | n + 1, magnitude =>
    [(decimal 1 0).mul magnitude, (decimal 2 0).mul magnitude, (decimal 5 0).mul magnitude] ++
      decades n (magnitude.mul (decimal 10 0))

/-- The 1-2-5 series up to the first bound that reaches `max`. After 310 decades the bounds are
infinite. -/
def defaultHistogramBuckets (max : Real64) : List Real64 :=
  takeThrough (fun bound => max.le bound) (decades 310 (decimal 1 0))

/-! ## Settings -/

structure DistributionSettings where
  precision : Nat := defaultPrecision
  percentiles : PropertyList (List Real64) := []
  histogramBuckets : PropertyList (List Real64) := []
  timerBuckets : PropertyList (List Real64) := []
  defaultBuckets : PropertyList Bool := []
  histogramMin : PropertyList Real64 := []
  histogramMax : PropertyList Real64 := []
  timerMin : PropertyList Real64 := []
  timerMax : PropertyList Real64 := []
deriving DecidableEq

namespace DistributionSettings

/-- The most significant digits that can be configured. -/
def maxPrecision : Nat := 5

/-- Read every property. The precision is checked first, then the properties in their order. -/
def ofConfig (c : Config) : Outcome DistributionSettings := do
  if maxPrecision < c.precision then throw (.invalidPrecision c.precision)
  let list {α : Type} (p : Property) (read : List Char → Except EntryFault α) :=
    PropertyList.parse p read (c.property p)
  return {
    precision := c.precision
    percentiles := ← list .percentiles readPercentiles
    histogramBuckets := ← list .histogramBuckets readNumbers
    timerBuckets := ← list .timerBuckets readDurations
    defaultBuckets := ← list .defaultBuckets readBoolean
    histogramMin := ← list .histogramMin readNumber
    histogramMax := ← list .histogramMax readNumber
    timerMin := ← list .timerMin readSeconds
    timerMax := ← list .timerMax readSeconds }

def percentilesFor (s : DistributionSettings) (name : String) : List Real64 :=
  (s.percentiles.find? name).getD defaultPercentiles

/-- Whether default buckets are switched on for a name. -/
def bucketsEnabled (s : DistributionSettings) (name : String) : Bool :=
  (s.defaultBuckets.find? name).getD false

/-- The settings of a histogram. -/
def histogram (s : DistributionSettings) (name : String) : DistributionSpec :=
  let maxValue := s.histogramMax.find? name
  { percentiles := s.percentilesFor name
    buckets := (s.histogramBuckets.find? name).getD
      (if s.bucketsEnabled name then defaultHistogramBuckets (maxValue.getD defaultHistogramMax)
       else [])
    minValue := s.histogramMin.find? name
    maxValue
    precision := s.precision }

/-- The settings of a timer, in seconds. -/
def timer (s : DistributionSettings) (name : String) : DistributionSpec :=
  { percentiles := s.percentilesFor name
    buckets := (s.timerBuckets.find? name).getD
      (if s.bucketsEnabled name then defaultTimerBuckets else [])
    minValue := s.timerMin.find? name
    maxValue := s.timerMax.find? name
    precision := s.precision }

/-- Whether no property has an entry. -/
def isDefault (s : DistributionSettings) : Bool :=
  s.percentiles.isEmpty && s.histogramBuckets.isEmpty && s.timerBuckets.isEmpty &&
    s.defaultBuckets.isEmpty && s.histogramMin.isEmpty && s.histogramMax.isEmpty &&
    s.timerMin.isEmpty && s.timerMax.isEmpty

end DistributionSettings

end Telemetry
