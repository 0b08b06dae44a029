import PeerNet.Yaml.Token

/-!
# Nodes

The one document of a YAML text as a tree. A reference to an anchor stays a
reference, so that a node may also refer to one that it is part of. An anchor
gets the number of names that are anchored before it, and a reference means the
last node of its number; so where a name is anchored twice, the second anchor
has a number that the next new name gets as well. A text with a second document
has no tree.
-/

set_option autoImplicit false

namespace PeerNet.Yaml

inductive Node where
  | scalar (text : String) (style : ScalarStyle) (tag : Option Octets)
  | sequence (items : List Node)
  | mapping (entries : List (Node × Node))
  | reference (number : Nat)
  deriving Repr

def Node.empty : Node := .scalar "" .plain none

/-- A document with the nodes that the numbers of its references mean; of two for
one number the first one counts. -/
structure Document where
  root : Node
  anchored : List (Nat × Node) := []

structure NodeReader where
  tokens : List Token
  handles : List (String × Octets) :=
    [("!", .ofText "!"), ("!!", .ofText "tag:yaml.org,2002:")]
  anchors : List (String × Nat) := []
  /-- The numbers that anchors got, the latest first. -/
  numbers : List Nat := []
  anchored : List (Nat × Node) := []

namespace NodeReader

def skipTo (reader : NodeReader) (tokens : List Token) : NodeReader :=
  { reader with tokens }

def resolve? (reader : NodeReader) (tag : WrittenTag) : Option Octets :=
  if tag.handle.isEmpty then some tag.ending.beforeZero
  else
    (reader.handles.lookup tag.handle).map fun start => start.beforeZero ++ tag.ending.beforeZero

/-- Gives an anchor the number of the names that have one already, and tells
how many anchors come before it. -/
def declare (reader : NodeReader) (name : String) : Nat × NodeReader :=
  let number := reader.anchors.length
  (reader.numbers.length,
    { reader with
      anchors := (name, number) :: reader.anchors.filter (·.1 ≠ name)
      numbers := number :: reader.numbers })

/-- The node that each number means, which is the last one to get it. -/
def meanings (reader : NodeReader) : List (Nat × Node) :=
  reader.numbers.zipIdx.filterMap fun (number, later) =>
    (reader.anchored.lookup (reader.numbers.length - 1 - later)).map (number, ·)

/-- The place of the anchor among all, and the tag, in front of a node, in
either order. -/
def properties? (reader : NodeReader) : Option (Option Nat × Option Octets × NodeReader) :=
  match reader.tokens with
  | .anchor name :: .tag tag :: rest | .tag tag :: .anchor name :: rest => do
    let tag ← reader.resolve? tag
    let (place, reader) := (reader.skipTo rest).declare name
    some (some place, some tag, reader)
  | .anchor name :: rest =>
    let (place, reader) := (reader.skipTo rest).declare name
    some (some place, none, reader)
  | .tag tag :: rest => do
    let tag ← reader.resolve? tag
    some (none, some tag, reader.skipTo rest)
  | _ => some (none, none, reader)

/-- True where the next token is one of some. -/
def before (reader : NodeReader) (tokens : List Token) : Bool :=
  reader.tokens.head?.any (· ∈ tokens)

mutual

/-- A node. Collections told by indentation are no nodes between brackets, and
only the values of a mapping may be sequences at the column of their key. -/
def node? (steps : Nat) (block indentless : Bool) (reader : NodeReader) :
    Option (Node × NodeReader) :=
  match steps, reader.tokens with
  | 0, _ => none
  | _ + 1, .reference name :: rest =>
    (reader.anchors.lookup name).map fun number => (.reference number, reader.skipTo rest)
  | steps + 1, _ => do
    let (anchor?, tag?, reader) ← reader.properties?
    let (node, reader) ←
      match reader.tokens with
      | .scalar text style :: rest => some (.scalar text style tag?, reader.skipTo rest)
      | .flowSequenceStart :: rest => (flowItems? steps true (reader.skipTo rest)).map sequenceOf
      | .flowMappingStart :: rest => (flowEntries? steps true (reader.skipTo rest)).map mappingOf
      | .blockSequenceStart :: rest =>
        if block then (blockItems? steps (reader.skipTo rest)).map sequenceOf else none
      | .blockMappingStart :: rest =>
        if block then (blockEntries? steps (reader.skipTo rest)).map mappingOf else none
      | .blockEntry :: _ =>
        if indentless then (indentlessItems? steps reader).map sequenceOf
        else if anchor?.isSome || tag?.isSome then some (.scalar "" .plain tag?, reader)
        else none
      | _ =>
        if anchor?.isSome || tag?.isSome then some (.scalar "" .plain tag?, reader) else none
    let anchored := (anchor?.map (·, node)).toList ++ reader.anchored
    some (node, { reader with anchored })
where
  sequenceOf (read : List Node × NodeReader) : Node × NodeReader :=
    (.sequence read.1, read.2)
  mappingOf (read : List (Node × Node) × NodeReader) : Node × NodeReader :=
    (.mapping read.1, read.2)

/-- A node unless the next token is one of some, and nothing otherwise. -/
def nodeUnless? (steps : Nat) (block indentless : Bool) (ends : List Token)
    (reader : NodeReader) : Option (Node × NodeReader) :=
  match steps with
  | 0 => none
  | steps + 1 =>
    if reader.before ends then some (.empty, reader) else node? steps block indentless reader

def valueUnless? (steps : Nat) (block : Bool) (ends : List Token) (reader : NodeReader) :
    Option (Node × NodeReader) :=
  match steps, reader.tokens with
  | 0, _ => none
  | steps + 1, .value :: rest => nodeUnless? steps block block ends (reader.skipTo rest)
  | _ + 1, _ => some (.empty, reader)

def blockItems? (steps : Nat) (reader : NodeReader) : Option (List Node × NodeReader) :=
  match steps, reader.tokens with
  | steps + 1, .blockEntry :: rest => do
    let (item, reader) ←
      nodeUnless? steps true false [.blockEntry, .blockEnd] (reader.skipTo rest)
    let (items, reader) ← blockItems? steps reader
    some (item :: items, reader)
  | _ + 1, .blockEnd :: rest => some ([], reader.skipTo rest)
  | _, _ => none

def indentlessItems? (steps : Nat) (reader : NodeReader) : Option (List Node × NodeReader) :=
  match steps, reader.tokens with
  | 0, _ => none
  | steps + 1, .blockEntry :: rest => do
    let (item, reader) ←
      nodeUnless? steps true false [.blockEntry, .key, .value, .blockEnd] (reader.skipTo rest)
    let (items, reader) ← indentlessItems? steps reader
    some (item :: items, reader)
  | _ + 1, _ => some ([], reader)

def blockEntries? (steps : Nat) (reader : NodeReader) :
    Option (List (Node × Node) × NodeReader) :=
  match steps, reader.tokens with
  | steps + 1, .key :: rest => do
    let ends := [Token.key, .value, .blockEnd]
    let (key, reader) ← nodeUnless? steps true true ends (reader.skipTo rest)
    let (value, reader) ← valueUnless? steps true ends reader
    let (entries, reader) ← blockEntries? steps reader
    some ((key, value) :: entries, reader)
  | _ + 1, .blockEnd :: rest => some ([], reader.skipTo rest)
  | _, _ => none

/-- The items of a sequence in brackets. A key in it is a mapping of its own. -/
def flowItems? (steps : Nat) (first : Bool) (reader : NodeReader) :
    Option (List Node × NodeReader) :=
  match steps, reader.tokens with
  | 0, _ => none
  | _ + 1, .flowSequenceEnd :: rest => some ([], reader.skipTo rest)
  | steps + 1, tokens => do
    let tokens ←
      match first, tokens with
      | true, tokens => some tokens
      | false, .flowEntry :: rest => some rest
      | false, _ => none
    match tokens with
    | .flowSequenceEnd :: rest => some ([], reader.skipTo rest)
    | .key :: rest =>
      let (item, reader) ← flowPair? steps (reader.skipTo rest)
      let (items, reader) ← flowItems? steps false reader
      some (item :: items, reader)
    | tokens =>
      let (item, reader) ← node? steps false false (reader.skipTo tokens)
      let (items, reader) ← flowItems? steps false reader
      some (item :: items, reader)

/-- A single entry within a sequence in brackets, as a mapping. Where there is
no key, the token that shows so is passed over. -/
def flowPair? (steps : Nat) (reader : NodeReader) : Option (Node × NodeReader) :=
  match steps with
  | 0 => none
  | steps + 1 => do
    let (key, reader) ←
      if reader.before [.value, .flowEntry, .flowSequenceEnd] then
        some (.empty, reader.skipTo reader.tokens.tail)
      else node? steps false false reader
    let (value, reader) ← valueUnless? steps false [.flowEntry, .flowSequenceEnd] reader
    some (.mapping [(key, value)], reader)

def flowEntries? (steps : Nat) (first : Bool) (reader : NodeReader) :
    Option (List (Node × Node) × NodeReader) :=
  match steps, reader.tokens with
  | 0, _ => none
  | _ + 1, .flowMappingEnd :: rest => some ([], reader.skipTo rest)
  | steps + 1, tokens => do
    let tokens ←
      match first, tokens with
      | true, tokens => some tokens
      | false, .flowEntry :: rest => some rest
      | false, _ => none
    match tokens with
    | .flowMappingEnd :: rest => some ([], reader.skipTo rest)
    | .key :: rest =>
      let (key, reader) ←
        nodeUnless? steps false false [.value, .flowEntry, .flowMappingEnd] (reader.skipTo rest)
      let (value, reader) ← valueUnless? steps false [.flowEntry, .flowMappingEnd] reader
      let (entries, reader) ← flowEntries? steps false reader
      some ((key, value) :: entries, reader)
    | tokens =>
      let (key, reader) ← node? steps false false (reader.skipTo tokens)
      let (entries, reader) ← flowEntries? steps false reader
      some ((key, .empty) :: entries, reader)

end

/-- Takes in the directives before a document: one version at most, which is
1.1 or 1.2, and each handle once. -/
def directives? (versioned : Bool) (declared : List String) (reader : NodeReader) :
    List Token → Option NodeReader
  | .directive (.version major minor) :: rest =>
    if versioned || major ≠ 1 || !(minor = 1 || minor = 2) then none
    else reader.directives? true declared rest
  | .directive (.tagStart handle start) :: rest =>
    if handle ∈ declared then none
    else
      { reader with handles := (handle, start) :: reader.handles }.directives? versioned
        (handle :: declared) rest
  | tokens => some (reader.skipTo tokens)

def root? (reader : NodeReader) : Option (Node × NodeReader) := do
  let steps := 4 * reader.tokens.length + 4
  let declared ← reader.directives? false [] reader.tokens
  match declared.tokens with
  | .documentStart :: rest =>
    match rest with
    | [] | .directive _ :: _ | .documentStart :: _ | .documentEnd :: _ =>
      some (.empty, declared.skipTo rest)
    | _ => node? steps true false (declared.skipTo rest)
  | [] => if reader.tokens.isEmpty then some (.empty, reader) else none
  | _ =>
    if declared.tokens.length < reader.tokens.length then none
    else node? steps true false reader

end NodeReader

def Document.ofText? (text : String) : Option Document := do
  let tokens ← tokens? (← Source.ofText? text)
  let (root, reader) ← ({ tokens } : NodeReader).root?
  if reader.tokens.all (· = .documentEnd) then some ⟨root, reader.meanings⟩ else none

end PeerNet.Yaml
