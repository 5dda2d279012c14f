import Telemetry.Binary.Decimal
import Telemetry.Text.Pieces

/-!
# Command line arguments

Each of six options may be given once, its value after `=` or as the next argument (specification,
6.2). `Arguments.read` goes through the arguments from left to right. An option whose value may
still follow is pending; it is settled when the next option, or the end, is reached.
-/

namespace Telemetry

/-- Why command line arguments are refused. -/
inductive ArgumentFault where
  /-- Not an option, or a value that belongs to none. -/
  | unknown
  /-- No value, or one that is not among the possible ones. -/
  | invalidValue
  /-- Not a number in range. -/
  | notInRange
  | repeated
  /-- A value for an option that takes none. -/
  | unexpectedValue
  /-- Help was asked for. -/
  | help
deriving DecidableEq, Repr

inductive ArgumentName where
  | appName
  | tags
  | prometheusEnabled
  | precision
  | percentiles
  | timerBuckets
deriving DecidableEq, Repr

namespace ArgumentName

def all : List ArgumentName :=
  [appName, tags, prometheusEnabled, precision, percentiles, timerBuckets]

/-- The option's name after its two dashes. -/
def text : ArgumentName → String
  | appName => "metrics-app-name"
  | tags => "metrics-tags"
  | prometheusEnabled => "metrics-prometheus-enabled"
  | precision => "metrics-percentile-precision"
  | percentiles => "metrics-percentiles"
  | timerBuckets => "metrics-timer-buckets"

def ofText? (t : String) : Option ArgumentName := all.find? fun n => n.text == t

end ArgumentName

/-- The options' values. -/
structure Arguments where
  appName : Option String := none
  tags : Option String := none
  prometheusEnabled : Option Bool := none
  precision : Option Nat := none
  percentiles : Option String := none
  timerBuckets : Option String := none
deriving DecidableEq

namespace Arguments

def has (a : Arguments) : ArgumentName → Bool
  | .appName => a.appName.isSome
  | .tags => a.tags.isSome
  | .prometheusEnabled => a.prometheusEnabled.isSome
  | .precision => a.precision.isSome
  | .percentiles => a.percentiles.isSome
  | .timerBuckets => a.timerBuckets.isSome

/-- A byte: an optional sign and digits. -/
def byte? (value : String) : Option Nat :=
  let (negative, r) := Decimal.sign value.toList
  let n := digitsValue r
  if r.isEmpty ∨ !r.all Char.isDigit ∨ 255 < n ∨ (negative ∧ n ≠ 0) then none else some n

/-- Settle an option with its value. -/
def commit (a : Arguments) (name : ArgumentName) (value : Option String) :
    Except ArgumentFault Arguments :=
  match value with
  | none => .error .invalidValue
  | some v =>
    if a.has name then .error .repeated
    else
      match name with
      | .appName => .ok { a with appName := some v }
      | .tags => .ok { a with tags := some v }
      | .percentiles => .ok { a with percentiles := some v }
      | .timerBuckets => .ok { a with timerBuckets := some v }
      | .prometheusEnabled =>
        if v = "true" then .ok { a with prometheusEnabled := some true }
        else if v = "false" then .ok { a with prometheusEnabled := some false }
        else .error .invalidValue
      | .precision =>
        match byte? v with
        | some n => .ok { a with precision := some n }
        | none => .error .notInRange

/-- The option whose value may still follow, with the value that did. -/
abbrev Pending := Option (ArgumentName × Option String)

/-- Settle the pending option, if there is one. -/
def settle (a : Arguments) : Pending → Except ArgumentFault Arguments
  | none => .ok a
  | some (name, value) => a.commit name value

/-- What an argument is by its own text. -/
inductive Shape where
  /-- The end of the options. -/
  | dashes
  | option (name : String) (value : Option String)
  /-- One dash and a letter. -/
  | letter (c : Char)
  | plain

def shape (argument : String) : Shape :=
  match argument.toList with
  | ['-', '-'] => .dashes
  | '-' :: '-' :: body =>
    match Text.cut? '=' body with
    | some (name, value) => .option (String.ofList name) (some (String.ofList value))
    | none => .option (String.ofList body) none
  | '-' :: c :: _ => .letter c
  | _ => .plain

/-- Go on reading with the options settled so far and the pending one. -/
def readFrom (a : Arguments) (pending : Pending) : List String → Except ArgumentFault Arguments
  | [] => a.settle pending
  | argument :: rest =>
    match shape argument with
    | .dashes => if rest.isEmpty then a.settle pending else .error .unknown
    | .letter c => if c = 'h' then do let _ ← a.settle pending; .error .help else .error .unknown
    | .plain =>
      match pending with
      | some (name, none) => readFrom a (some (name, some argument)) rest
      | _ => .error .unknown
    | .option text value =>
      match ArgumentName.ofText? text with
      | some name => do
        let a ← a.settle pending
        match value with
        | some v =>
          let a ← a.commit name (some v)
          readFrom a none rest
        | none => readFrom a (some (name, none)) rest
      | none =>
        if text = "help" then
          if value.isSome then .error .unexpectedValue
          else do
            let _ ← a.settle pending
            .error .help
        else .error .unknown

def read (arguments : List String) : Except ArgumentFault Arguments := readFrom {} none arguments

end Arguments

end Telemetry
