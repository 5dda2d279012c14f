import Telemetry.Source.Yaml.Token

/-!
# Nodes of a YAML document

`Node.ofTokens?` reads tokens as one document: a tree of scalars, sequences, mappings and aliases. A
node with an anchor gets a number: how many names anchors had before it, its own name included if it
was used already. An alias takes the number that its name has at the time, and stands for the node
of the whole document that got this number last. `Node.anchored` lists the numbered nodes.
-/

namespace Telemetry

namespace Yaml

/-- What may be written before a node. -/
structure Properties where
  /-- The number of the anchor's name. -/
  anchor : Option Nat := none
  tag : Option Tag := none

inductive Node where
  /-- The node that an anchor's number stands for. -/
  | aliasOf (number : Nat)
  | scalar (properties : Properties) (plain : Bool) (text : String)
  | sequence (properties : Properties) (items : List Node)
  | mapping (properties : Properties) (pairs : List (Node × Node))

namespace Node

/-- A node of which nothing is written. -/
def empty : Node := scalar {} true ""

mutual

/-- How many nodes there are, sequences and mappings with their ends. -/
def size : Node → Nat
  | aliasOf _ => 1
  | scalar .. => 1
  | sequence _ items => 2 + sizeOfItems items
  | mapping _ pairs => 2 + sizeOfPairs pairs

def sizeOfItems : List Node → Nat
  | [] => 0
  | n :: ns => n.size + sizeOfItems ns

def sizeOfPairs : List (Node × Node) → Nat
  | [] => 0
  | (k, v) :: ps => k.size + v.size + sizeOfPairs ps

end

/-- A node with the number of its anchor, if it has one. -/
def numbered (p : Properties) (n : Node) : List (Nat × Node) :=
  (p.anchor.map fun a => (a, n)).toList

mutual

/-- The nodes with an anchor, in the order in which they begin, with their numbers. -/
def anchored : Node → List (Nat × Node)
  | aliasOf _ => []
  | scalar p plain text => numbered p (scalar p plain text)
  | sequence p items => numbered p (sequence p items) ++ anchoredInItems items
  | mapping p pairs => numbered p (mapping p pairs) ++ anchoredInPairs pairs

def anchoredInItems : List Node → List (Nat × Node)
  | [] => []
  | n :: ns => n.anchored ++ anchoredInItems ns

def anchoredInPairs : List (Node × Node) → List (Nat × Node)
  | [] => []
  | (k, v) :: ps => k.anchored ++ v.anchored ++ anchoredInPairs ps

end

/-! ## Reading -/

/-- The names of anchors so far, each with its number. -/
abbrev AnchorNames := List (List Char × Nat)

/-- The number of a node that is anchored by a name now. -/
def AnchorNames.add (names : AnchorNames) (name : List Char) : Nat × AnchorNames :=
  (names.length, (name, names.length) :: names.filter fun e => e.1 != name)

/-- The tokens left and the names so far. -/
structure Reading where
  tokens : List Token
  names : AnchorNames

/-- The anchor and the tag before a node, in either order, and the tokens after them. -/
def written : List Token → Option (List Char) × Option WrittenTag × List Token
  | .anchor name :: .tag t :: r => (some name, some t, r)
  | .tag t :: .anchor name :: r => (some name, some t, r)
  | .anchor name :: r => (some name, none, r)
  | .tag t :: r => (none, some t, r)
  | r => (none, none, r)

/-- The properties of a node. -/
def properties? (handles : Handles) (s : Reading) : Option (Properties × Reading) := do
  let (name, t, tokens) := written s.tokens
  let tag ←
    match t with
    | none => some none
    | some t => (t.tag? handles).map some
  match name with
  | none => some ({ tag }, { s with tokens })
  | some name =>
    let (number, names) := s.names.add name
    some ({ anchor := some number, tag }, ⟨tokens, names⟩)

/-- A block ends here, or its next key or value comes. -/
def endsEntry : List Token → Bool
  | .key :: _ | .value :: _ | .blockEnd :: _ => true
  | _ => false

/-- The block ends here. -/
def endsBlock : List Token → Bool
  | .blockEnd :: _ => true
  | _ => false

/-- The next element of a sequence comes. -/
def beginsElement : List Token → Bool
  | .dash :: _ => true
  | _ => false

/-- A sequence in brackets ends here or goes on with its next item. -/
def endsItem : List Token → Bool
  | .comma :: _ | .closeBracket :: _ => true
  | _ => false

/-- A mapping in braces ends here or goes on with its next pair. -/
def endsPair : List Token → Bool
  | .comma :: _ | .closeBrace :: _ => true
  | _ => false

def atValue : List Token → Bool
  | .value :: _ => true
  | _ => false

/-- A tag `!` says nothing about a scalar that is written. -/
def withoutMark (p : Properties) : Properties := { p with tag := p.tag.filter (· != ['!']) }

mutual

/-- A node. In block style it may be a block, and below a key a sequence that stands no further in
than the key. Properties alone make an empty scalar. -/
def node? (handles : Handles) :
    Nat → (inBlock belowKey : Bool) → Reading → Option (Node × Reading)
  | 0, _, _, _ => none
  | fuel + 1, inBlock, belowKey, s =>
    match s.tokens with
    | .aliasOf name :: r => (s.names.lookup name).map fun n => (.aliasOf n, { s with tokens := r })
    | _ => do
      let (p, s) ← properties? handles s
      if belowKey && beginsElement s.tokens then
        (dashes? handles fuel s).map fun (ns, s) => (.sequence p ns, s)
      else
        match s.tokens, inBlock with
        | .scalar plain text :: r, _ =>
          some (.scalar (withoutMark p) plain (String.ofList text), { s with tokens := r })
        | .openBracket :: r, _ =>
          (items? handles fuel true { s with tokens := r }).map fun (ns, s) => (.sequence p ns, s)
        | .openBrace :: r, _ =>
          (pairs? handles fuel true { s with tokens := r }).map fun (ps, s) => (.mapping p ps, s)
        | .blockSequence :: r, true =>
          (elements? handles fuel { s with tokens := r }).map fun (ns, s) => (.sequence p ns, s)
        | .blockMapping :: r, true =>
          (entries? handles fuel { s with tokens := r }).map fun (ps, s) => (.mapping p ps, s)
        | _, _ => if p.anchor.isSome ∨ p.tag.isSome then some (.scalar p true "", s) else none

/-- The elements of a block sequence up to its end. -/
def elements? (handles : Handles) : Nat → Reading → Option (List Node × Reading)
  | 0, _ => none
  | fuel + 1, s =>
    match s.tokens with
    | .blockEnd :: r => some ([], { s with tokens := r })
    | .dash :: r => do
      let s := { s with tokens := r }
      let (n, s) ←
        if beginsElement r ∨ endsBlock r then some (.empty, s) else node? handles fuel true false s
      let (ns, s) ← elements? handles fuel s
      some (n :: ns, s)
    | _ => none

/-- The elements of a sequence that stands no further in than the key above it. -/
def dashes? (handles : Handles) : Nat → Reading → Option (List Node × Reading)
  | 0, _ => none
  | fuel + 1, s =>
    match s.tokens with
    | .dash :: r => do
      let s := { s with tokens := r }
      let (n, s) ←
        if beginsElement r ∨ endsEntry r then some (.empty, s) else node? handles fuel true false s
      let (ns, s) ← dashes? handles fuel s
      some (n :: ns, s)
    | _ => some ([], s)

/-- The entries of a block mapping up to its end. -/
def entries? (handles : Handles) : Nat → Reading → Option (List (Node × Node) × Reading)
  | 0, _ => none
  | fuel + 1, s =>
    match s.tokens with
    | .blockEnd :: r => some ([], { s with tokens := r })
    | .key :: r => do
      let s := { s with tokens := r }
      let (k, s) ← if endsEntry r then some (.empty, s) else node? handles fuel true true s
      let (v, s) ←
        match s.tokens with
        | .value :: r =>
          let s := { s with tokens := r }
          if endsEntry r then some (.empty, s) else node? handles fuel true true s
        | _ => some (.empty, s)
      let (ps, s) ← entries? handles fuel s
      some ((k, v) :: ps, s)
    | _ => none

/-- The items of a sequence in brackets up to its end; all but the first follow a comma. An item
with a key is a mapping of one pair; when the key is empty, the token after its mark is left out. -/
def items? (handles : Handles) : Nat → (first : Bool) → Reading → Option (List Node × Reading)
  | 0, _, _ => none
  | fuel + 1, first, s => do
    let tokens ←
      match s.tokens, first with
      | .closeBracket :: r, _ => some (.closeBracket :: r)
      | .comma :: r, false => some r
      | r, true => some r
      | _, false => none
    let s := { s with tokens }
    match tokens with
    | .closeBracket :: r => some ([], { s with tokens := r })
    | .key :: r => do
      let s := { s with tokens := r }
      let (k, s) ←
        if endsItem r ∨ atValue r then some (.empty, { s with tokens := r.tail })
        else node? handles fuel false false s
      let (v, s) ←
        match s.tokens with
        | .value :: r =>
          let s := { s with tokens := r }
          if endsItem r then some (.empty, s) else node? handles fuel false false s
        | _ => some (.empty, s)
      let (ns, s) ← items? handles fuel false s
      some (.mapping {} [(k, v)] :: ns, s)
    | _ => do
      let (n, s) ← node? handles fuel false false s
      let (ns, s) ← items? handles fuel false s
      some (n :: ns, s)

/-- The pairs of a mapping in braces up to its end; all but the first follow a comma. -/
def pairs? (handles : Handles) :
    Nat → (first : Bool) → Reading → Option (List (Node × Node) × Reading)
  | 0, _, _ => none
  | fuel + 1, first, s => do
    let tokens ←
      match s.tokens, first with
      | .closeBrace :: r, _ => some (.closeBrace :: r)
      | .comma :: r, false => some r
      | r, true => some r
      | _, false => none
    let s := { s with tokens }
    match tokens with
    | .closeBrace :: r => some ([], { s with tokens := r })
    | .key :: r => do
      let s := { s with tokens := r }
      let (k, s) ←
        if endsPair r ∨ atValue r then some (.empty, s) else node? handles fuel false false s
      let (v, s) ←
        match s.tokens with
        | .value :: r =>
          let s := { s with tokens := r }
          if endsPair r then some (.empty, s) else node? handles fuel false false s
        | _ => some (.empty, s)
      let (ps, s) ← pairs? handles fuel false s
      some ((k, v) :: ps, s)
    | _ => do
      let (k, s) ← node? handles fuel false false s
      let (ps, s) ← pairs? handles fuel false s
      some ((k, .empty) :: ps, s)

end

/-! ## Documents -/

/-- Add what a directive says. Versions 1.1 and 1.2 are known; neither a version nor a handle may be
given twice. -/
def directives? (versioned : Bool) (handles : Handles) : List Token → Option (Handles × List Token)
  | .directive (.version major minor) :: r =>
    if versioned ∨ major ≠ 1 ∨ (minor ≠ 1 ∧ minor ≠ 2) then none else directives? true handles r
  | .directive (.handle name start) :: r =>
    if (handles.lookup name).isSome then none
      else directives? versioned ((name, start) :: handles) r
  | r => some (handles, r)

/-- Whether a document without content ends here. -/
def endsDocument : List Token → Bool
  | [] | .directive _ :: _ | .documentStart :: _ | .documentEnd :: _ => true
  | _ => false

/-- The node of a document: after directives and its start, or at once. -/
def document? (tokens : List Token) : Option (Node × List Token) := do
  let (handles, r) ← directives? false [] tokens
  let handles := handles ++ Handles.standard
  let fuel := 2 * tokens.length + 2
  let node? (r : List Token) :=
    (node? handles fuel true false ⟨r, []⟩).map fun (n, s) => (n, s.tokens)
  match tokens, r with
  | _, .documentStart :: r => if endsDocument r then some (.empty, r) else node? r
  | .directive _ :: _, _ => none
  | _, _ => node? r

/-- The node of the only document, and nothing after it but its end. Without tokens it is empty. -/
def ofTokens? (tokens : List Token) : Option Node :=
  if tokens.isEmpty then some .empty
  else do
    let (n, r) ← document? tokens
    let isEnd : Token → Bool
      | .documentEnd => true
      | _ => false
    if r.all isEnd then some n else none

end Node

end Yaml

end Telemetry
