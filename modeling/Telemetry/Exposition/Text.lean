import Telemetry.Exposition.Family

/-!
# The exposition text

`encode` writes families in the Prometheus text format: a help line unless the help is empty, a type
line, and a line per sample (specification, 6.1). A summary has a line per quantile and a histogram
one per bucket, with the bucket of all values at the end, and then both have their sum and their
count.
-/

namespace Telemetry

/-- `\` and the line feed, written as two characters each; the quote too where `quotes` asks. -/
def escapeChar (quotes : Bool) (c : Char) : List Char :=
  if c = '\\' then ['\\', '\\']
  else if c = '\n' then ['\\', 'n']
  else if quotes && c == '"' then ['\\', '"']
  else [c]

def escape (quotes : Bool) (text : String) : String :=
  String.ofList (text.toList.flatMap (escapeChar quotes))

/-- The media type of the text. -/
def exposition.contentType : String := "text/plain; version=0.0.4"

/-- A line of a sample: the name, the labels in braces unless there are none, and the value. -/
def sampleLine (name : String) (labels : List (String × String)) (value : Real64) : String :=
  let pair (l : String × String) : String := l.1 ++ "=\"" ++ escape true l.2 ++ "\""
  let shown := if labels.isEmpty then "" else "\x7b" ++ ",".intercalate (labels.map pair) ++ "\x7d"
  name ++ shown ++ " " ++ value.text ++ "\n"

/-- The lines of sum and count. -/
def totalLines (name : String) (labels : List (String × String)) (s : Snapshot) : List String :=
  [sampleLine (name ++ "_sum") labels s.sum,
   sampleLine (name ++ "_count") labels (.ofNat _ s.count)]

/-- The lines of a sample. -/
def Sample.lines (name : String) (s : Sample) : List String :=
  match s.value with
  | .counter value | .gauge value => [sampleLine name s.labels value]
  | .summary snapshot =>
    snapshot.percentiles.map
        (fun p => sampleLine name (s.labels ++ [("quantile", p.percentile.text)]) p.value) ++
      totalLines name s.labels snapshot
  | .histogram snapshot =>
    let bucket (bound : String) (count : Nat) : String :=
      sampleLine (name ++ "_bucket") (s.labels ++ [("le", bound)]) (.ofNat _ count)
    let all :=
      if snapshot.buckets.any fun b => b.bound = .infinite false then []
      else [bucket "+Inf" snapshot.count]
    snapshot.buckets.map (fun b => bucket b.bound.text b.count) ++ all ++
      totalLines name s.labels snapshot

/-- The text of a family. One without a name or without samples cannot be written. -/
def Family.text (f : Family) : Except EncodeFault String :=
  if f.samples.isEmpty then .error .noSamples
  else if f.name = "" then .error .unnamedFamily
  else
    let help :=
      if f.help = "" then "" else "# HELP " ++ f.name ++ " " ++ escape false f.help ++ "\n"
    let type := "# TYPE " ++ f.name ++ " " ++ f.kind.name ++ "\n"
    .ok (help ++ type ++ String.join (f.samples.flatMap (Sample.lines f.name)))

/-- The text of families. -/
def encode (families : List Family) : Outcome String :=
  match families.mapM Family.text with
  | .ok texts => .ok (String.join texts)
  | .error fault => .error (.encode fault)

end Telemetry
