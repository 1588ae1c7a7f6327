import Brewin.YamlToken

namespace Brewin

/-- The content of a YAML document. -/
inductive YamlNode
  | scalar (s : YamlScalar)
  | sequence (items : List YamlNode)
  | mapping (pairs : List (YamlNode × YamlNode))
  deriving Repr

/-- What stands where nothing is written. -/
def YamlNode.empty : YamlNode :=
  .scalar (.plain "")

namespace Yaml

mutual

/-- Reads the node that starts at a token. Block collections may not stand in flow collections;
the items of a sequence that is the value of a key may stand in the column of the key. -/
def node? (ts : Tokens) (inBlock inPair : Bool) : Nat → Nat → Option (YamlNode × Nat)
  | 0, _ => none
  | fuel + 1, i =>
    match ts.get? i with
    | some (.scalar x) => some (.scalar x, i + 1)
    | some .item =>
      if inPair then (looseItems? ts fuel i).map fun (items, i) => (.sequence items, i) else none
    | some .sequenceStart =>
      if inBlock then (items? ts fuel (i + 1)).map fun (items, i) => (.sequence items, i) else none
    | some .mappingStart =>
      if inBlock then (pairs? ts fuel (i + 1)).map fun (pairs, i) => (.mapping pairs, i) else none
    | some .flowSequenceStart =>
      (flowItems? ts true fuel (i + 1)).map fun (items, i) => (.sequence items, i)
    | some .flowMappingStart =>
      (flowPairs? ts true fuel (i + 1)).map fun (pairs, i) => (.mapping pairs, i)
    | _ => none
termination_by structural fuel => fuel

/-- Reads a node, unless one of the given tokens comes first and the node is empty. -/
def nodeUnless? (ts : Tokens) (stops : List Token) (inBlock inPair : Bool) :
    Nat → Nat → Option (YamlNode × Nat)
  | 0, _ => none
  | fuel + 1, i =>
    match ts.get? i with
    | none => none
    | some t => if stops.contains t then some (.empty, i) else node? ts inBlock inPair fuel i
termination_by structural fuel => fuel

/-- Reads the items of a block sequence. -/
def items? (ts : Tokens) : Nat → Nat → Option (List YamlNode × Nat)
  | 0, _ => none
  | fuel + 1, i =>
    match ts.get? i with
    | some .item =>
      match nodeUnless? ts [.item, .blockEnd] true false fuel (i + 1) with
      | none => none
      | some (x, i) => (items? ts fuel i).map fun (xs, i) => (x :: xs, i)
    | some .blockEnd => some ([], i + 1)
    | _ => none
termination_by structural fuel => fuel

/-- Reads the items of a block sequence in the column of its key. -/
def looseItems? (ts : Tokens) : Nat → Nat → Option (List YamlNode × Nat)
  | 0, _ => none
  | fuel + 1, i =>
    match ts.get? i with
    | none => none
    | some .item =>
      match nodeUnless? ts [.item, .key, .value, .blockEnd] true false fuel (i + 1) with
      | none => none
      | some (x, i) => (looseItems? ts fuel i).map fun (xs, i) => (x :: xs, i)
    | some _ => some ([], i)
termination_by structural fuel => fuel

/-- Reads what stands behind a colon; without one it is empty. -/
def value? (ts : Tokens) (stops : List Token) (inBlock : Bool) :
    Nat → Nat → Option (YamlNode × Nat)
  | 0, _ => none
  | fuel + 1, i =>
    match ts.get? i with
    | none => none
    | some .value => nodeUnless? ts stops inBlock inBlock fuel (i + 1)
    | some _ => some (.empty, i)
termination_by structural fuel => fuel

/-- Reads the pairs of a block mapping. -/
def pairs? (ts : Tokens) : Nat → Nat → Option (List (YamlNode × YamlNode) × Nat)
  | 0, _ => none
  | fuel + 1, i =>
    match ts.get? i with
    | some .key =>
      match nodeUnless? ts [.key, .value, .blockEnd] true true fuel (i + 1) with
      | none => none
      | some (k, i) =>
        match value? ts [.key, .value, .blockEnd] true fuel i with
        | none => none
        | some (v, i) => (pairs? ts fuel i).map fun (more, i) => ((k, v) :: more, i)
    | some .blockEnd => some ([], i + 1)
    | _ => none
termination_by structural fuel => fuel

/-- Reads the items of a flow sequence. An item with a colon is a mapping of one pair. -/
def flowItems? (ts : Tokens) (first : Bool) : Nat → Nat → Option (List YamlNode × Nat)
  | 0, _ => none
  | fuel + 1, i =>
    let stops : List Token := [.value, .flowItem, .flowSequenceEnd]
    let item? (i : Nat) : Option (YamlNode × Nat) :=
      match ts.get? i with
      | some .key =>
        match ts.get? (i + 1) with
        | none => none
        | some t =>
          let key? :=
            if stops.contains t then some (YamlNode.empty, i + 2)
            else node? ts false false fuel (i + 1)
          match key? with
          | none => none
          | some (k, i) =>
            match value? ts stops.tail false fuel i with
            | none => none
            | some (v, i) => (ts.get? i).map fun _ => (.mapping [(k, v)], i)
      | _ => node? ts false false fuel i
    let more? (i : Nat) : Option (List YamlNode × Nat) :=
      match ts.get? i with
      | some .flowSequenceEnd => some ([], i + 1)
      | _ =>
        match item? i with
        | none => none
        | some (x, i) => (flowItems? ts false fuel i).map fun (xs, i) => (x :: xs, i)
    match ts.get? i with
    | some .flowSequenceEnd => some ([], i + 1)
    | some .flowItem => if first then none else more? (i + 1)
    | _ => if first then more? i else none
termination_by structural fuel => fuel

/-- Reads the pairs of a flow mapping. -/
def flowPairs? (ts : Tokens) (first : Bool) :
    Nat → Nat → Option (List (YamlNode × YamlNode) × Nat)
  | 0, _ => none
  | fuel + 1, i =>
    let stops : List Token := [.value, .flowItem, .flowMappingEnd]
    let pair? (i : Nat) : Option ((YamlNode × YamlNode) × Nat) :=
      match ts.get? i with
      | some .key =>
        match nodeUnless? ts stops false false fuel (i + 1) with
        | none => none
        | some (k, i) => (value? ts stops.tail false fuel i).map fun (v, i) => ((k, v), i)
      | _ =>
        match node? ts false false fuel i with
        | none => none
        | some (k, i) => (ts.get? i).map fun _ => ((k, .empty), i)
    let more? (i : Nat) : Option (List (YamlNode × YamlNode) × Nat) :=
      match ts.get? i with
      | some .flowMappingEnd => some ([], i + 1)
      | _ =>
        match pair? i with
        | none => none
        | some (p, i) => (flowPairs? ts false fuel i).map fun (ps, i) => (p :: ps, i)
    match ts.get? i with
    | some .flowMappingEnd => some ([], i + 1)
    | some .flowItem => if first then none else more? (i + 1)
    | _ => if first then more? i else none
termination_by structural fuel => fuel

end

/-- Reads the content of a document, and looks at the token behind it. -/
def content? (ts : Tokens) (i : Nat) : Option YamlNode :=
  match node? ts true false (4 * ts.found.size + 4) i with
  | none => none
  | some (x, i) => (ts.get? i).map fun _ => x

/-- Reads the first document of a text. It may be missing. -/
def firstDocument? (ts : Tokens) : Option (Option YamlNode) :=
  match ts.get? 0, ts.get? 1 with
  | some _, some .streamEnd => some none
  | some _, some .documentStart =>
    match ts.get? 2 with
    | some .documentStart | some .documentEnd | some .streamEnd => some (some .empty)
    | _ => (content? ts 2).map some
  | some _, _ => (content? ts 1).map some
  | none, _ => none

def document? (text : String) : Option (Option YamlNode) :=
  firstDocument? (.ofText text)

end Yaml

end Brewin
