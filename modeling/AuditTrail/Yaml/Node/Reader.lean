import AuditTrail.Yaml.Node
import AuditTrail.Yaml.Token.Lexer

/-!
# Reading nodes

The grammar over tokens.  A node may be left out wherever a sign says that one is due, and an empty
scalar takes its place.  An anchor must come before its aliases.
-/

namespace AuditTrail.Yaml.Node

structure Reading where
  tokens : List Token
  names : List (String × Nat)
  /-- The nodes with an anchor that are complete, each anchor's last one first. -/
  anchored : List Anchored
  /-- What the handles of tags stand for. -/
  handles : List (String × Tag)

abbrev Reader (α : Type) := StateT Reading (Except YamlFault) α

namespace Reader

def fail {α : Type} (problem : String) : Reader α := throw (.malformed problem)

def peek : Reader (Option Token) := return (← get).tokens.head?

def skip : Reader Unit := modify fun r => { r with tokens := r.tokens.drop 1 }

def isNext (tokens : List Token) : Reader Bool := return (← peek).any tokens.contains

def take (t : Token) : Reader Bool := do
  if ← isNext [t] then
    skip
    return true
  else return false

/-- Reads a node unless one of these tokens says that it is left out. -/
def orEmpty (ends : List Token) (node : Reader Node) : Reader Node := do
  if ← isNext ends then return empty else node

/-- Items of a block, each after a dash.  The number bounds how many there are. -/
def blockItems (node : Reader Node) : Nat → Reader (List Node)
  | 0 => fail "too many items"
  | fuel + 1 => do
    if ← take .item then
      let item ← orEmpty [.item, .blockEnd] node
      return item :: (← blockItems node fuel)
    else if ← take .blockEnd then return []
    else fail "an item without its dash"

/-- Items at the column of the key before them.  Nothing but the next key marks their end. -/
def keyItems (node : Reader Node) : Nat → Reader (List Node)
  | 0 => fail "too many items"
  | fuel + 1 => do
    if ← take .item then
      let item ← orEmpty [.item, .key, .value, .blockEnd] node
      return item :: (← keyItems node fuel)
    else return []

def pair (keyEnds valueEnds : List Token) (node : Reader Node) : Reader (Node × Node) := do
  let key ← orEmpty keyEnds node
  if ← take .value then return (key, ← orEmpty valueEnds node) else return (key, empty)

def blockPair (node : Reader Node) : Reader (Node × Node) :=
  pair [.key, .value, .blockEnd] [.key, .value, .blockEnd] node

def flowPair (closing : Token) (node : Reader Node) : Reader (Node × Node) :=
  pair [.value, .comma, closing] [.comma, closing] node

/-- Pairs of a block.  The number bounds how many there are. -/
def blockPairs (node : Reader Node) : Nat → Reader (List (Node × Node))
  | 0 => fail "too many pairs"
  | fuel + 1 => do
    if ← take .key then
      let p ← blockPair node
      return p :: (← blockPairs node fuel)
    else if ← take .blockEnd then return []
    else fail "a pair without its key"

/-- Members of a flow collection up to its end.  There may be a comma after the last of them. -/
def flowMembers {α : Type} (closing : Token) (member : Reader α) :
    (first : Bool) → Nat → Reader (List α)
  | _, 0 => fail "too many members"
  | first, fuel + 1 => do
    if ← take closing then return []
    if !first then
      if !(← take .comma) then fail "a member without a comma before it"
      if ← take closing then return []
    let m ← member
    return m :: (← flowMembers closing member false fuel)

/-- An item of a flow sequence.  A pair in its place is a mapping of its own. -/
def flowItem (node : Reader Node) : Reader Node := do
  if ← take .key then return .mapping [← flowPair .flowSequenceEnd node] else node

/-- A pair of a flow mapping.  A node alone is a key. -/
def flowKeyed (node : Reader Node) : Reader (Node × Node) := do
  if ← take .key then flowPair .flowMappingEnd node else return (← node, empty)

structure Properties where
  anchor : Option String
  tag : Option (String × Tag)

def anchor? : Reader (Option String) := do
  match ← peek with
  | some (.anchor name) =>
    skip
    return some name
  | _ => return none

def tag? : Reader (Option (String × Tag)) := do
  match ← peek with
  | some (.tag handle rest) =>
    skip
    return some (handle, rest)
  | _ => return none

def properties : Reader Properties := do
  match ← anchor? with
  | some name => return ⟨some name, ← tag?⟩
  | none =>
    match ← tag? with
    | some tag => return ⟨← anchor?, some tag⟩
    | none => return ⟨none, none⟩

/-- The full name of a tag.  A tag without a handle is one already. -/
def resolveTag (tag : String × Tag) : Reader Tag := do
  if tag.1.isEmpty then return tag.2
  else
    match (← get).handles.lookup tag.1 with
    | some expansion => return expansion ++ tag.2
    | none => fail "an unknown handle of a tag"

def left : Reader Nat := return (← get).tokens.length

/-- Gives a name to the node that is read next, and says how to keep it.  Anchors are numbered by
how many names there are, so that a name which is given again may share its number with the next
new name. -/
def beginAnchored (name : String) : Reader (Node → Anchored) := do
  let anchor := (← get).names.length
  modify fun r => { r with names := (name, anchor) :: r.names.filter (·.1 ≠ name) }
  return Anchored.mk anchor (← left)

/-- Keeps a node that has been read.  Of the nodes with one anchor the last to begin counts. -/
def keepAnchored (a : Anchored) : Reader Unit :=
  modify fun r =>
    if r.anchored.any fun b => b.anchor = a.anchor && b.left < a.left then r
    else { r with anchored := a :: r.anchored }

/-- Where a node stands, which decides how it may be written. -/
inductive Position where
  | inFlow
  | inBlock
  | inPair
deriving DecidableEq, Repr

/-- Reads a node in which collections are nested at most as deep as the number says. -/
def node : Nat → Position → Reader Node
  | 0, _ => fail "too many collections within each other"
  | depth + 1, position => do
    if let some (.alias name) ← peek then
      skip
      match (← get).names.lookup name with
      | some anchor => return .alias anchor
      | none => throw (.unknownAnchor name)
    else
      let props ← properties
      let tag ← props.tag.mapM resolveTag
      let keep ← props.anchor.mapM beginAnchored
      let n ← match ← peek, position with
        | some (.scalar text style), _ =>
          skip
          pure (scalar ⟨text, style, tag⟩)
        | some .flowSequenceStart, _ =>
          skip
          let item := flowItem (node depth .inFlow)
          sequence <$> flowMembers .flowSequenceEnd item true ((← left) + 1)
        | some .flowMappingStart, _ =>
          skip
          let pair := flowKeyed (node depth .inFlow)
          mapping <$> flowMembers .flowMappingEnd pair true ((← left) + 1)
        | some .item, .inPair => sequence <$> keyItems (node depth .inBlock) ((← left) + 1)
        | some .sequenceStart, .inBlock | some .sequenceStart, .inPair =>
          skip
          sequence <$> blockItems (node depth .inBlock) ((← left) + 1)
        | some .mappingStart, .inBlock | some .mappingStart, .inPair =>
          skip
          mapping <$> blockPairs (node depth .inPair) ((← left) + 1)
        | _, _ =>
          if keep.isSome || tag.isSome then pure (scalar ⟨"", .plain, tag⟩)
          else fail "a node is missing"
      if let some keep := keep then keepAnchored (keep n)
      return n

/-- Collections are nested at most so deep. -/
def maxDepth : Nat := 128

def isDirective : Token → Bool
  | .version _ _ | .handle _ _ => true
  | _ => false

def isKnownVersion (major minor : Nat) : Bool := major = 1 && (minor = 1 || minor = 2)

/-- The directives before a document.  Each may be given once, and the number bounds how many there
are. -/
def directives : Nat → (versioned : Bool) → (handles : List (String × Tag)) →
    Reader (List (String × Tag))
  | 0, _, _ => fail "too many directives"
  | fuel + 1, versioned, handles => do
    match ← peek with
    | some (.version major minor) =>
      if versioned || !isKnownVersion major minor then fail "a bad version"
      skip
      directives fuel true handles
    | some (.handle name expansion) =>
      if (handles.lookup name).isSome then fail "a handle of tags that is there already"
      skip
      directives fuel versioned ((name, expansion) :: handles)
    | _ => return handles

/-- The handles that every document has, unless it gives them another meaning. -/
def usualHandles : List (String × Tag) :=
  [("!", .ofString "!"), ("!!", .ofString "tag:yaml.org,2002:")]

/-- The beginning of a document, with all that may stand before its only node. -/
def opening : Reader Bool := do
  let announced := (← peek).any isDirective
  let given ← directives ((← left) + 1) false []
  modify fun r => { r with handles := given ++ usualHandles }
  if ← take .documentStart then return true
  else if announced then fail "directives without a document"
  else return false

def closing : Reader Unit :=
  modify fun r => { r with tokens := r.tokens.dropWhile (· == .documentEnd) }

/-- Reads the only document.  Where there is none, nothing is written. -/
def document : Reader Node := do
  let marked ← opening
  let bare : Bool := match ← peek with
    | none => true
    | some t => marked && (isDirective t || t == .documentStart || t == .documentEnd)
  let n ← if bare then pure empty else node maxDepth .inBlock
  closing
  if (← peek).isSome then throw .manyDocuments else return n

end Reader

end AuditTrail.Yaml.Node

namespace AuditTrail.Yaml.Document

def ofTokens (tokens : List Token) : Except YamlFault Document := do
  let (root, r) ← Node.Reader.document.run ⟨tokens, [], [], []⟩
  return ⟨root, r.anchored⟩

def parse (text : List Char) : Except YamlFault Document := do
  ofTokens (← Token.ofSource (← Source.ofChars text))

end AuditTrail.Yaml.Document
