import ShaderAssets.Yaml.Tokens

/-!
# Trees of a YAML text

The tree that a text describes: scalars with their style, sequences and mappings,
each with the tag it was given.  References are replaced by what they refer to.
A text holds at most one document.

The grammar is a recursion over the tokens.  Each call either takes a token or
goes one level down before it takes one, so a bound of a few calls per token is
never reached.
-/

namespace ShaderAssets
namespace Yaml

/-- A node of a tree. -/
inductive Node where
  | scalar (tag : Option String) (style : ScalarStyle) (text : String)
  | sequence (tag : Option String) (items : List Node)
  | mapping (tag : Option String) (entries : List (Node × Node))
  /-- A reference to a node from within that node. -/
  | cyclic
deriving Repr, Inhabited

namespace Node

/-- A node that is left out. -/
def empty : Node := .scalar none .plain ""

end Node

/-- What the grammar knows between two tokens. -/
structure NodeReader where
  rest : List Token
  /-- The nodes that names refer to, the latest first; none while the node is
  being read. -/
  anchors : List (String × Option Node)
  /-- The abbreviations of the document. -/
  handles : List (String × String)
deriving Inhabited

namespace NodeReader

/-- Reading with the tokens, anchors and abbreviations at hand. -/
abbrev Parse := StateT NodeReader Option

/-- The next token, if any is left. -/
def peek : Parse (Option Token) := do
  return (← get).rest.head?

/-- Takes the next token. -/
def advance : Parse Unit :=
  modify fun r => { r with rest := r.rest.drop 1 }

/-- Takes the next token if it is the given one. -/
def accept (t : Token) : Parse Bool := do
  if (← peek) = some t then
    advance
    return true
  else return false

/-- Whether the next token is one of the given ones or the tokens have ended. -/
def nextIsOneOf (ts : List Token) : Parse Bool := do
  match ← peek with
  | none => return true
  | some t => return ts.contains t

/-! ## Properties of a node -/

/-- The tag that a name stands for. -/
def resolveTag (name : TagName) : Parse String := do
  if name.handle = "" then return name.suffix
  let r ← get
  let start ← liftM (r.handles.lookup name.handle)
  return start ++ name.suffix

/-- The anchor and the tag in front of a node, in either order. -/
def properties : Parse (Option String × Option String) := do
  match ← peek with
  | some (.anchor name) =>
      advance
      match ← peek with
      | some (.tag tag) =>
          advance
          return (some name, some (← resolveTag tag))
      | _ => return (some name, none)
  | some (.tag tag) =>
      advance
      match ← peek with
      | some (.anchor name) =>
          advance
          return (some name, some (← resolveTag tag))
      | _ => return (none, some (← resolveTag tag))
  | _ => return (none, none)

/-- Gives a name to a node, which is yet unknown if it is being read. -/
def setAnchor (name : Option String) (node : Option Node) : Parse Unit :=
  match name with
  | none => return
  | some n => modify fun r => { r with anchors := (n, node) :: r.anchors }

/-- The node that a name refers to. -/
def reference (name : String) : Parse Node := do
  let r ← get
  let node ← liftM (r.anchors.lookup name)
  return node.getD .cyclic

/-! ## The grammar -/

mutual

/-- A node; in block context it may be a block collection, and after a key also a
sequence that is not indented further. -/
def node : Nat → (block flush : Bool) → Parse Node
  | 0, _, _ => failure
  | fuel + 1, block, flush => do
      match ← peek with
      | some (.reference name) =>
          advance
          reference name
      | _ =>
          let (anchor, tag) ← properties
          setAnchor anchor none
          let result ← content fuel block flush tag (anchor.isSome || tag.isSome)
          setAnchor anchor (some result)
          return result

/-- What a node with the given tag consists of; with properties it may be
empty. -/
def content : Nat → (block flush : Bool) → Option String → Bool → Parse Node
  | 0, _, _, _, _ => failure
  | fuel + 1, block, flush, tag, optional => do
      match ← peek with
      | some (.scalar style text) =>
          advance
          return .scalar (if tag = some "!" then none else tag) style text
      | some .flowSequenceStart =>
          advance
          return .sequence tag (← flowItems fuel true)
      | some .flowMappingStart =>
          advance
          return .mapping tag (← flowEntries fuel true)
      | some .blockEntry =>
          if flush then return .sequence tag (← flushItems fuel)
          else if optional then return .scalar tag .plain ""
          else failure
      | some .blockSequenceStart =>
          if block then
            advance
            return .sequence tag (← blockItems fuel)
          else if optional then return .scalar tag .plain ""
          else failure
      | some .blockMappingStart =>
          if block then
            advance
            return .mapping tag (← blockEntries fuel)
          else if optional then return .scalar tag .plain ""
          else failure
      | _ => if optional then return .scalar tag .plain "" else failure

/-- A node unless one of the given tokens follows. -/
def nodeUnless : Nat → (block flush : Bool) → List Token → Parse Node
  | 0, _, _, _ => failure
  | fuel + 1, block, flush, ts => do
      if ← nextIsOneOf ts then return .empty
      else node fuel block flush

/-- The items of a block sequence. -/
def blockItems : Nat → Parse (List Node)
  | 0 => failure
  | fuel + 1 => do
      if ← accept .blockEntry then
        let item ← nodeUnless fuel true false [.blockEntry, .blockEnd]
        return item :: (← blockItems fuel)
      else if ← accept .blockEnd then return []
      else failure

/-- The items of a sequence that is indented as far as the mapping around it. -/
def flushItems : Nat → Parse (List Node)
  | 0 => failure
  | fuel + 1 => do
      if ← accept .blockEntry then
        let item ← nodeUnless fuel true false [.blockEntry, .key, .value, .blockEnd]
        return item :: (← flushItems fuel)
      else return []

/-- The entries of a block mapping. -/
def blockEntries : Nat → Parse (List (Node × Node))
  | 0 => failure
  | fuel + 1 => do
      if ← accept .key then
        let key ← nodeUnless fuel true true [.key, .value, .blockEnd]
        let value ←
          if ← accept .value then nodeUnless fuel true true [.key, .value, .blockEnd]
          else pure .empty
        return (key, value) :: (← blockEntries fuel)
      else if ← accept .blockEnd then return []
      else failure

/-- The items of a flow sequence.  An item may be a mapping with one entry. -/
def flowItems : Nat → (first : Bool) → Parse (List Node)
  | 0, _ => failure
  | fuel + 1, first => do
      if ← accept .flowSequenceEnd then return []
      unless first do
        unless ← accept .flowEntry do failure
      if ← accept .key then
        let entry ← singleEntry fuel
        return .mapping none [entry] :: (← flowItems fuel false)
      else if ← accept .flowSequenceEnd then return []
      else
        let item ← node fuel false false
        return item :: (← flowItems fuel false)

/-- The entry of a mapping that is an item of a flow sequence.  If the key is left
out the token after the key indicator does not count. -/
def singleEntry : Nat → Parse (Node × Node)
  | 0 => failure
  | fuel + 1 => do
      let key ←
        if ← nextIsOneOf [.value, .flowEntry, .flowSequenceEnd] then
          advance
          pure .empty
        else node fuel false false
      let value ←
        if ← accept .value then nodeUnless fuel false false [.flowEntry, .flowSequenceEnd]
        else pure .empty
      return (key, value)

/-- The entries of a flow mapping. -/
def flowEntries : Nat → (first : Bool) → Parse (List (Node × Node))
  | 0, _ => failure
  | fuel + 1, first => do
      if ← accept .flowMappingEnd then return []
      unless first do
        unless ← accept .flowEntry do failure
      if ← accept .key then
        let key ← nodeUnless fuel false false [.value, .flowEntry, .flowMappingEnd]
        let value ←
          if ← accept .value then nodeUnless fuel false false [.flowEntry, .flowMappingEnd]
          else pure .empty
        return (key, value) :: (← flowEntries fuel false)
      else if ← accept .flowMappingEnd then return []
      else
        let key ← node fuel false false
        return (key, .empty) :: (← flowEntries fuel false)

end

/-! ## Documents -/

/-- The abbreviations that need no directive. -/
def standardHandles : List (String × String) :=
  [("!", "!"), ("!!", "tag:yaml.org,2002:")]

/-- Whether a version is understood. -/
def isKnownVersion (major minor : Nat) : Bool :=
  major == 1 && (minor == 1 || minor == 2)

/-- The directives of a document: at most one version, each abbreviation once.
They are told apart from the standard abbreviations, which they may replace. -/
def directives (versioned : Bool) (handles : List (String × String)) :
    List Token → Option (List (String × String) × List Token)
  | .versionDirective major minor :: rest =>
      if versioned || !isKnownVersion major minor then none
      else directives true handles rest
  | .tagDirective handle start :: rest =>
      if (handles.lookup handle).isSome then none
      else directives versioned ((handle, start) :: handles) rest
  | rest => some (handles, rest)

/-- Drops the marks of ended documents. -/
def dropEnds (ts : List Token) : List Token :=
  ts.dropWhile (· == .documentEnd)

/-- Whether a token ends the content of a document. -/
def endsContent : List Token → Bool
  | [] => true
  | t :: _ =>
      match t with
      | .versionDirective .. | .tagDirective .. | .documentStart | .documentEnd => true
      | _ => false

/-- The first document among the tokens, and the tokens behind it. -/
def document? (ts : List Token) : Option (Node × List Token) := do
  let (handles, rest) ← directives false [] ts
  let explicit := rest.length < ts.length || rest.head? == some .documentStart
  let body ← if explicit then
      match rest with
      | .documentStart :: body => some body
      | _ => none
    else some rest
  if explicit && endsContent body then return (.empty, body)
  let start : NodeReader := ⟨body, [], handles ++ standardHandles⟩
  let (root, r) ← (node (4 * body.length + 8) true false).run start
  return (root, r.rest)

end NodeReader

/-- A YAML text: nothing, or one tree. -/
abbrev Document := Option Node

namespace Document

/-- The tree of a text.  None is given for a text that is malformed or holds more
than one document. -/
def read? (text : String) : Option Document := do
  let s := text.toList
  if !s.all isAllowed then none
  let ts ← Token.read? (commonBreaks s)
  if ts.isEmpty then return none
  let (root, rest) ← NodeReader.document? ts
  if (NodeReader.dropEnds rest).isEmpty then return some root else none

end Document

end Yaml
end ShaderAssets
