import YangSchema.Binary64
import YangSchema.Yaml.Token

/-!
# Nodes of YAML

`Node.ofText?` reads the documents of a text; each of them is a node: a value, a sequence of nodes
or a mapping of nodes to nodes.

A plain text is what it looks like: nothing, a switch, an integer of 64 bits, a real number or a
text. A tag of the core namespace says what it has to be, and all other texts are texts. A real
number is kept as it is written.

An anchor names a node, and an alias stands for the node that was last named so. While a node is
being read its name stands for nothing.
-/

namespace YangSchema.Yaml

/-- A node. `invalid` stands for what is not as its tag says. -/
inductive Node where
  | null
  | bool (b : Bool)
  | integer (n : Int)
  | real (written : String)
  | text (s : String)
  | sequence (items : List Node)
  | mapping (entries : List (Node × Node))
  | invalid
  deriving Repr, Inhabited

/-! ## Values -/

namespace Node

/-- Reads an integer of 64 bits in a base; a sign can stand in front. -/
def integerInBase? (base : Nat) (cs : List Char) : Option Int := do
  let (isNegative, digits) := match cs with
    | '-' :: cs => (true, cs)
    | '+' :: cs => (false, cs)
    | cs => (false, cs)
  if digits.isEmpty then none
  let values ← digits.mapM Text.hexValue?
  if values.any (base ≤ ·) then none
  let n : Int := (values.foldl (fun n d => n * base + d) 0 : Nat)
  (some (if isNegative then -n else n)).filter fun n =>
    Text.signedMin 64 ≤ n && n ≤ Text.signedMax 64

/-- Reads an integer of a plain text. -/
def integer? (cs : List Char) : Option Int :=
  let marked := match cs with
    | '0' :: 'x' :: digits => integerInBase? 16 digits
    | '0' :: 'o' :: digits => integerInBase? 8 digits
    | '+' :: cs => integerInBase? 10 cs
    | _ => none
  marked.or (integerInBase? 10 cs)

/-- The words for numbers that are not finite. -/
def realWords : List String := [
  ".inf", ".Inf", ".INF", "+.inf", "+.Inf", "+.INF", "-.inf", "-.Inf", "-.INF", ".nan", "NaN",
  ".NAN"]

/-- Whether a text is a real number. -/
def isReal (s : String) : Bool :=
  s ∈ realWords || (s.toList.any Text.isDigit && (Binary64.ofString? s).isSome)

/-- The value of a plain text. -/
def ofPlain (s : String) : Node :=
  if s ∈ ["", "~", "null"] then .null
  else if s = "true" then .bool true
  else if s = "false" then .bool false
  else
    match integer? s.toList with
    | some n => .integer n
    | none => if isReal s then .real s else .text s

/-- The namespace of the core tags. -/
def coreNamespace : String := "tag:yaml.org,2002:"

/-- The value of a plain text with a core tag. -/
def ofTagged (kind s : String) : Node :=
  if kind = "bool" then
    if s = "true" then .bool true else if s = "false" then .bool false else .invalid
  else if kind = "int" then ((integerInBase? 10 s.toList).map .integer).getD .invalid
  else if kind = "float" then if isReal s then .real s else .invalid
  else if kind = "null" then if s ∈ ["~", "null"] then .null else .invalid
  else .text s

/-- The value of a text with the tag that it has, if any. -/
def ofScalar (isPlain : Bool) (tag : Option (String × String)) (s : String) : Node :=
  if !isPlain then .text s
  else
    match tag with
    | none => ofPlain s
    | some (handle, suffix) => if handle = coreNamespace then ofTagged suffix s else .text s

/-- The entries of a mapping whose keys and values come one after the other. A key that is invalid
does not count, so that what follows it is the key. -/
def entriesOf : List Node → List (Node × Node)
  | [] => []
  | .invalid :: rest => entriesOf rest
  | key :: v :: rest => (key, v) :: entriesOf rest
  | [_] => []

end Node

/-! ## Reading -/

/-- What is known while a document is read: what the handles of tags stand for, and the nodes that
have been named; a name that was given anew hides the earlier one. -/
structure Names where
  handles : List (String × String)
  /-- How many names have been given. -/
  given : Nat
  /-- The names, latest first, each with its number. -/
  anchors : List (String × Nat)
  /-- The nodes that have been read, by the numbers of their names. -/
  nodes : List (Nat × Node)

namespace Names

/-- Gives a name; its number is one above those before. -/
def give (ns : Names) (name : String) : Names :=
  { ns with given := ns.given + 1, anchors := (name, ns.given + 1) :: ns.anchors }

/-- Says which node has the name of a number, if it has one. -/
def define (ns : Names) (anchor : Option Nat) (node : Node) : Names :=
  match anchor with
  | some n => { ns with nodes := (n, node) :: ns.nodes }
  | none => ns

/-- The node of a name; invalid while it is being read. -/
def node? (ns : Names) (name : String) : Option Node :=
  (ns.anchors.lookup name).map fun n => (ns.nodes.lookup n).getD .invalid

/-- The full form of a tag. -/
def resolve? (ns : Names) (handle suffix : String) : Option (String × String) :=
  match ns.handles.lookup handle with
  | some namespaceUri => some (namespaceUri, suffix)
  | none =>
    if handle = "!!" then some (Node.coreNamespace, suffix)
    else if 2 ≤ handle.length ∧ handle.toList.getLast? = some '!' then none
    else some (handle, suffix)

end Names

/-- The tag and the name of a node, as far as it has them. -/
structure Properties where
  tag : Option (String × String)
  anchor : Option Nat

/-- Reads a tag, if there is one. -/
def tagOf? (ns : Names) : List Token → Option (Option (String × String) × List Token)
  | .tag handle suffix :: ts => (ns.resolve? handle suffix).map fun tag => (some tag, ts)
  | ts => some (none, ts)

/-- Reads the tag and the name of a node, in either order. -/
def properties? (ns : Names) : List Token → Option (Properties × Names × List Token)
  | .anchor name :: ts => do
    let ns := ns.give name
    let (tag, ts) ← tagOf? ns ts
    return (⟨tag, some ns.given⟩, ns, ts)
  | ts => do
    let (tag, ts) ← tagOf? ns ts
    match tag, ts with
    | some tag, .anchor name :: ts =>
      let ns := ns.give name
      return (⟨some tag, some ns.given⟩, ns, ts)
    | tag, ts => return (⟨tag, none⟩, ns, ts)

/-- What has been read, with what is known behind it and the tokens that are left. -/
abbrev Behind (α : Type) := α × Names × List Token

/-- Whether a token ends a part of a mapping in a block. -/
def endsBlockPart : List Token → Bool
  | .key :: _ => true
  | .value :: _ => true
  | .blockEnd :: _ => true
  | _ => false

/-- Whether a token ends a part of a sequence in a block. -/
def endsBlockEntry : List Token → Bool
  | .blockEntry :: _ => true
  | .blockEnd :: _ => true
  | _ => false

/-- Whether a token ends the value of an entry in brackets or braces. -/
def endsFlowValue (ending : Token) : List Token → Bool
  | t :: _ => t = .flowEntry ∨ t = ending
  | [] => false

/-- Whether a token ends the key of an entry in brackets or braces. -/
def endsFlowKey (ending : Token) : List Token → Bool
  | .value :: _ => true
  | ts => endsFlowValue ending ts

mutual

/-- Reads a node. `inBlock` says that it can be a collection in a block, `inMapping` that it can be
a sequence that is not indented. -/
def node? (inBlock inMapping : Bool) : (fuel : Nat) → Names → List Token → Option (Behind Node)
  | 0, _, _ => none
  | _ + 1, ns, .alias name :: ts => (ns.node? name).map fun n => (n, ns, ts)
  | fuel + 1, ns, ts => do
    let (properties, ns, ts) ← properties? ns ts
    let (n, ns, ts) ← content? inBlock inMapping properties fuel ns ts
    return (n, ns.define properties.anchor n, ts)

/-- Reads a node behind its tag and its name. -/
def content? (inBlock inMapping : Bool) (properties : Properties) :
    (fuel : Nat) → Names → List Token → Option (Behind Node)
  | 0, _, _ => none
  | fuel + 1, ns, ts =>
    let isNamed := properties.tag.isSome || properties.anchor.isSome
    match ts, inBlock with
    | .scalar isPlain s :: ts, _ => some (.ofScalar isPlain properties.tag s, ns, ts)
    | .flowSequenceStart :: ts, _ => do
      let (items, ns, ts) ← flowItems? true fuel ns ts
      return (.sequence items, ns, ts)
    | .flowMappingStart :: ts, _ => do
      let (parts, ns, ts) ← flowEntries? true fuel ns ts
      return (.mapping (Node.entriesOf parts), ns, ts)
    | .blockSequenceStart :: ts, true => do
      let (items, ns, ts) ← blockItems? fuel ns ts
      return (.sequence items, ns, ts)
    | .blockMappingStart :: ts, true => do
      let (parts, ns, ts) ← blockEntries? fuel ns ts
      return (.mapping (Node.entriesOf parts), ns, ts)
    | .blockEntry :: ts, _ =>
      if inMapping then do
        let (items, ns, ts) ← looseItems? fuel ns (.blockEntry :: ts)
        return (.sequence items, ns, ts)
      else if isNamed then some (.ofScalar true properties.tag "", ns, .blockEntry :: ts)
      else none
    | ts, _ => if isNamed then some (.ofScalar true properties.tag "", ns, ts) else none

/-- Reads the items of a sequence in a block up to its end. -/
def blockItems? : (fuel : Nat) → Names → List Token → Option (Behind (List Node))
  | 0, _, _ => none
  | fuel + 1, ns, ts =>
    match ts with
    | .blockEnd :: ts => some ([], ns, ts)
    | .blockEntry :: ts => do
      let (n, ns, ts) ←
        if endsBlockEntry ts then some (.null, ns, ts) else node? true false fuel ns ts
      let (items, ns, ts) ← blockItems? fuel ns ts
      return (n :: items, ns, ts)
    | _ => none

/-- Reads the items of a sequence that is not indented. -/
def looseItems? : (fuel : Nat) → Names → List Token → Option (Behind (List Node))
  | 0, _, _ => none
  | fuel + 1, ns, ts =>
    match ts with
    | .blockEntry :: ts => do
      let (n, ns, ts) ←
        if endsBlockEntry ts || endsBlockPart ts then some (.null, ns, ts)
        else node? true false fuel ns ts
      let (items, ns, ts) ← looseItems? fuel ns ts
      return (n :: items, ns, ts)
    | ts => some ([], ns, ts)

/-- Reads the keys and values of a mapping in a block up to its end. -/
def blockEntries? : (fuel : Nat) → Names → List Token → Option (Behind (List Node))
  | 0, _, _ => none
  | fuel + 1, ns, ts => do
    match ts with
    | .blockEnd :: ts => return ([], ns, ts)
    | .key :: ts =>
      let (key, ns, ts) ← blockPart? fuel ns ts
      let (v, ns, ts) ← blockValue? fuel ns ts
      let (parts, ns, ts) ← blockEntries? fuel ns ts
      return (key :: v :: parts, ns, ts)
    | .value :: _ =>
      let (v, ns, ts) ← blockValue? fuel ns ts
      let (parts, ns, ts) ← blockEntries? fuel ns ts
      return (.null :: v :: parts, ns, ts)
    | _ => none

/-- Reads a key or a value of a mapping in a block; it can be missing. -/
def blockPart? : (fuel : Nat) → Names → List Token → Option (Behind Node)
  | 0, _, _ => none
  | fuel + 1, ns, ts =>
    if endsBlockPart ts then some (.null, ns, ts) else node? true true fuel ns ts

/-- Reads the value of a mapping in a block behind its sign, if that is there. -/
def blockValue? : (fuel : Nat) → Names → List Token → Option (Behind Node)
  | 0, _, _ => none
  | fuel + 1, ns, ts =>
    match ts with
    | .value :: ts => blockPart? fuel ns ts
    | ts => some (.null, ns, ts)

/-- Reads the items of a sequence in brackets up to the closing one. -/
def flowItems? (isFirst : Bool) : (fuel : Nat) → Names → List Token → Option (Behind (List Node))
  | 0, _, _ => none
  | fuel + 1, ns, ts => do
    if ts.head? = some .flowSequenceEnd then return ([], ns, ts.drop 1)
    if !isFirst && ts.head? != some .flowEntry then none
    let ts := if isFirst then ts else ts.drop 1
    match ts with
    | .flowSequenceEnd :: ts => return ([], ns, ts)
    | .key :: ts =>
      let (n, ns, ts) ← singlePair? fuel ns ts
      let (items, ns, ts) ← flowItems? false fuel ns ts
      return (n :: items, ns, ts)
    | ts =>
      let (n, ns, ts) ← node? false false fuel ns ts
      let (items, ns, ts) ← flowItems? false fuel ns ts
      return (n :: items, ns, ts)

/-- Reads a mapping of one key without braces behind the sign of its key. -/
def singlePair? : (fuel : Nat) → Names → List Token → Option (Behind Node)
  | 0, _, _ => none
  | fuel + 1, ns, ts => do
    let (key, ns, ts) ←
      if endsFlowKey .flowSequenceEnd ts then some (.null, ns, ts.drop 1)
      else node? false false fuel ns ts
    let (v, ns, ts) ← flowValue? .flowSequenceEnd fuel ns ts
    return (.mapping (Node.entriesOf [key, v]), ns, ts)

/-- Reads the value of an entry in brackets or braces behind its sign, if that is there. -/
def flowValue? (ending : Token) : (fuel : Nat) → Names → List Token → Option (Behind Node)
  | 0, _, _ => none
  | fuel + 1, ns, ts =>
    match ts with
    | .value :: ts =>
      if endsFlowValue ending ts then some (.null, ns, ts) else node? false false fuel ns ts
    | ts => some (.null, ns, ts)

/-- Reads the keys and values of a mapping in braces up to the closing one. -/
def flowEntries? (isFirst : Bool) : (fuel : Nat) → Names → List Token → Option (Behind (List Node))
  | 0, _, _ => none
  | fuel + 1, ns, ts => do
    if ts.head? = some .flowMappingEnd then return ([], ns, ts.drop 1)
    if !isFirst && ts.head? != some .flowEntry then none
    let ts := if isFirst then ts else ts.drop 1
    match ts with
    | .flowMappingEnd :: ts => return ([], ns, ts)
    | .key :: ts =>
      let (key, ns, ts) ←
        if endsFlowKey .flowMappingEnd ts then some (.null, ns, ts)
        else node? false false fuel ns ts
      let (v, ns, ts) ← flowValue? .flowMappingEnd fuel ns ts
      let (parts, ns, ts) ← flowEntries? false fuel ns ts
      return (key :: v :: parts, ns, ts)
    | .value :: _ =>
      let (v, ns, ts) ← flowValue? .flowMappingEnd fuel ns ts
      let (parts, ns, ts) ← flowEntries? false fuel ns ts
      return (.null :: v :: parts, ns, ts)
    | ts =>
      let (key, ns, ts) ← node? false false fuel ns ts
      let (parts, ns, ts) ← flowEntries? false fuel ns ts
      return (key :: .null :: parts, ns, ts)

end

/-! ## Documents -/

/-- Reads the directives of a document; what the last of them says about a handle counts. -/
def directives? (hasVersion : Bool) (handles : List (String × String)) :
    List Token → Option (List (String × String) × List Token)
  | .versionDirective :: ts => if hasVersion then none else directives? true [] ts
  | .tagDirective handle namespaceUri :: ts => directives? hasVersion [(handle, namespaceUri)] ts
  | ts => some (handles, ts)

/-- Whether a directive comes next. -/
def startsDirective : List Token → Bool
  | .versionDirective :: _ => true
  | .tagDirective _ _ :: _ => true
  | _ => false

/-- Whether a document has no node here. -/
def endsDocument : List Token → Bool
  | [] => true
  | .documentStart :: _ => true
  | .documentEnd :: _ => true
  | ts => startsDirective ts

/-- Reads the documents of a text; `mayOmit` says that the next one can begin without a sign. -/
def documents? : (fuel : Nat) → (mayOmit : Bool) → List Token → Option (List Node)
  | 0, _, _ => none
  | fuel + 1, mayOmit, ts => do
    let ts := ts.dropWhile (· = .documentEnd)
    if ts.isEmpty then return []
    let (handles, behind) ← directives? false [] ts
    let isMarked := behind.head? = some .documentStart
    if !isMarked && (!mayOmit || endsDocument ts) then none
    let ts := if isMarked then behind.drop 1 else ts
    let names := ⟨handles, 0, [], []⟩
    let (n, _, ts) ←
      if isMarked && endsDocument ts then some (.null, names, ts)
      else node? true false (4 * ts.length + 4) names ts
    let isEnded := ts.head? = some .documentEnd
    if !isEnded && startsDirective ts then none
    return n :: (← documents? fuel isEnded (if isEnded then ts.drop 1 else ts))

/-- The nodes of the documents of a text. -/
def Node.ofText? (text : String) : Option (List Node) := do
  let ts ← tokens? text
  documents? (ts.length + 1) true ts

end YangSchema.Yaml
