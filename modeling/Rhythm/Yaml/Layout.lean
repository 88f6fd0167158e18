import Rhythm.Yaml.Block
import Rhythm.Yaml.Scalar
import Rhythm.Yaml.Token

/-
This file lays a YAML text out as tokens. A key is known by the colon behind it, so its token is
inserted when the colon is found. The layout keeps in mind where a key may have started.
-/

namespace Rhythm.Yaml

/-- A place in a text, counted from zero. -/
structure Place where
  line : Nat
  column : Nat
  /-- The number of bytes before it, in the encoding UTF-8. -/
  index : Nat

namespace Place

def next (place : Place) (character : Char) : Place :=
  let index := place.index + character.utf8Size
  if isBreak character then ⟨place.line + 1, 0, index⟩
  else ⟨place.line, place.column + 1, index⟩

end Place

/-- A node that is a key if a colon follows. -/
structure KeyStart where
  /-- The number of tokens before it. -/
  count : Nat
  place : Place
  /-- Whether nothing but a key can stand there. -/
  required : Bool

/-- A key and the colon behind it are on one line and not farther apart than this. -/
def longestKey : Nat := 1024

/-- Whether a colon comes too late for a key. -/
def KeyStart.isOver (start : KeyStart) (place : Place) : Bool :=
  start.place.line < place.line || start.place.index + longestKey < place.index

/-- The state of the layout. -/
structure Layout where
  /-- The text that is left. -/
  rest : List Char
  place : Place
  /-- The tokens so far, the last one first. -/
  tokens : List Token
  count : Nat
  /-- The columns of the open block collections, the innermost first. -/
  indents : List Nat
  /-- The node that may be a key in the innermost open flow collection, or outside of all. -/
  key : Option KeyStart
  /-- Such nodes of what is around that collection. -/
  outer : List (Option KeyStart)
  /-- Whether a key may start. -/
  keyAllowed : Bool

/-- Gaps, comments and empty lines are skipped. A key may start on a new line of a block. No tab
may stand where a key of a block may start. A byte order mark may start a line, and takes a
column. -/
def skipFrom (flow : Bool) : Bool → Bool → Place → List Char → Bool × Place × List Char
  | keyAllowed, _, place, [] => (keyAllowed, place, [])
  | keyAllowed, comment, place, character :: rest =>
      let next := place.next character
      if isBreak character then skipFrom flow (keyAllowed || !flow) false next rest
      else if comment || character == '#' then skipFrom flow keyAllowed true next rest
      else if character == ' ' || (character == '\t' && (flow || !keyAllowed)) ||
          (character == '\ufeff' && place.column == 0) then
        skipFrom flow keyAllowed false next rest
      else (keyAllowed, place, character :: rest)

namespace Layout

def start (text : List Char) : Layout :=
  ⟨text, ⟨0, 0, 0⟩, [], 0, [], none, [], true⟩

def inFlow (layout : Layout) : Bool :=
  !layout.outer.isEmpty

/-- The layout goes on to what is left of its text. -/
def goTo (layout : Layout) (rest : List Char) : Layout :=
  let passed := layout.rest.take (layout.rest.length - rest.length)
  { layout with rest, place := passed.foldl Place.next layout.place }

def pass (layout : Layout) : Layout :=
  match layout.rest with
  | [] => layout
  | character :: rest => { layout with rest, place := layout.place.next character }

/-- Everything up to the next token is skipped. -/
def skipSpace (layout : Layout) : Layout :=
  let (keyAllowed, place, rest) :=
    skipFrom layout.inFlow layout.keyAllowed false layout.place layout.rest
  { layout with keyAllowed, place, rest }

/-- A token is put after the others. -/
def emit (token : Token) (layout : Layout) : Layout :=
  { layout with tokens := token :: layout.tokens, count := layout.count + 1 }

/-- A token is put after the first ones of the others. -/
def insert (count : Nat) (token : Token) (layout : Layout) : Layout :=
  let later := layout.count - count
  { layout with
    tokens := layout.tokens.take later ++ token :: layout.tokens.drop later
    count := layout.count + 1 }

def allowKey (allowed : Bool) (layout : Layout) : Layout :=
  { layout with keyAllowed := allowed }

/-- A block collection opens at a column if none is open at it or to the right of it. Its token is
put after the first ones of the others. -/
def openBlock (count column : Nat) (token : Token) (layout : Layout) : Layout :=
  if layout.inFlow || layout.indents.head?.any (column ≤ ·) then layout
  else { layout.insert count token with indents := column :: layout.indents }

/-- The block collections close whose columns satisfy a condition. -/
def closeBlocks (closes : Nat → Bool) (layout : Layout) : Layout :=
  if layout.inFlow then layout
  else
    let closed := layout.indents.takeWhile closes
    { closed.foldl (fun state _ => state.emit .blockEnd) layout with
      indents := layout.indents.dropWhile closes }

/-- The last node is no key. -/
def dropKey (layout : Layout) : Option Layout :=
  if layout.key.any KeyStart.required then none else some { layout with key := none }

/-- The last node is no key if it is too far away. -/
def expireKey (layout : Layout) : Option Layout :=
  if layout.key.any (·.isOver layout.place) then layout.dropKey else some layout

/-- The next node may be a key. It is one if it starts where an open block collection does. -/
def saveKey (layout : Layout) : Option Layout :=
  if layout.keyAllowed then do
    let required := !layout.inFlow && layout.indents.head? == some layout.place.column
    return { ← layout.dropKey with key := some ⟨layout.count, layout.place, required⟩ }
  else some layout

/-- The mark of a document ends all blocks. -/
def documentMark (token : Token) (layout : Layout) : Option Layout := do
  let closed ← (layout.closeBlocks fun _ => true).dropKey
  return (closed.allowKey false).goTo (layout.rest.drop 3) |>.emit token

/-- A flow collection opens, which may be a key as a whole. -/
def openFlow (token : Token) (layout : Layout) : Option Layout := do
  let saved ← layout.saveKey
  let inner := { saved with key := none, outer := saved.key :: saved.outer }
  return (inner.allowKey true).pass.emit token

def closeFlow (token : Token) (layout : Layout) : Option Layout := do
  let ended ← layout.dropKey
  let around := { ended with key := ended.outer.head?.join, outer := ended.outer.tail }
  return (around.allowKey false).pass.emit token

/-- The next entry of a flow collection follows a comma. -/
def comma (layout : Layout) : Option Layout := do
  return ((← layout.dropKey).allowKey true).pass.emit .comma

/-- A mark of a block stands only where a key may start. -/
def openMarked (token : Token) (layout : Layout) : Option Layout :=
  if layout.inFlow then some layout
  else if layout.keyAllowed then
    some (layout.openBlock layout.count layout.place.column token)
  else none

/-- An item of a block sequence follows a hyphen. -/
def item (layout : Layout) : Option Layout := do
  let opened ← layout.openMarked .blockSequence
  return ((← opened.dropKey).allowKey true).pass.emit .item

/-- A key that is no single node on its line follows a question mark. -/
def markedKey (layout : Layout) : Option Layout := do
  let opened ← layout.openMarked .blockMapping
  return ((← opened.dropKey).allowKey (!layout.inFlow)).pass.emit .key

/-- A value follows a colon, before which a key has started. -/
def value (layout : Layout) : Option Layout :=
  match layout.key with
  | some start =>
      let keyed := layout.insert start.count .key
      let opened := keyed.openBlock start.count start.place.column .blockMapping
      some (({ opened with key := none }.allowKey false).pass.emit .value)
  | none => do
      let opened ← layout.openMarked .blockMapping
      return (opened.allowKey (!layout.inFlow)).pass.emit .value

/-- A directive ends all blocks. -/
def directive (layout : Layout) : Option Layout := do
  let closed ← (layout.closeBlocks fun _ => true).dropKey
  let (token, rest) ← readDirective (layout.rest.drop 1)
  return (closed.allowKey false).goTo rest |>.emit token

/-- A node that may be a key is read after its mark, and its token follows the others. -/
def node (read : List Char → TokenScanned) (layout : Layout) : Option Layout := do
  let saved ← layout.saveKey
  let (token, rest) ← read (layout.rest.drop 1)
  return (saved.allowKey false).goTo rest |>.emit token

def name (token : List Char → Token) (layout : Layout) : Option Layout :=
  layout.node fun text => (readName text).map (Prod.map token id)

def quoted (read : List Char → Scanned) (layout : Layout) : Option Layout :=
  layout.node fun text => (read text).map (Prod.map (.scalar · .other) id)

/-- A tag ends at a gap, or at a comma of a flow collection. -/
def tag (layout : Layout) : Option Layout := do
  let tagged ← layout.node readTag
  if gapNext tagged.rest || (layout.inFlow && tagged.rest.head? == some ',') then some tagged
  else none

/-- A plain scalar follows. A key may start after it if it ends before a line. -/
def plain (layout : Layout) : Option Layout := do
  let saved ← layout.saveKey
  let indent := (layout.indents.head?.map (· + 1)).getD 0
  let found ← readPlain layout.inFlow indent .empty 0 layout.rest
  return (saved.allowKey found.broken).goTo found.rest |>.emit (.scalar found.text .plain)

/-- A block scalar follows. It is no key, and a key may start after it. -/
def block (folded : Bool) (layout : Layout) : Option Layout := do
  let ended ← layout.dropKey
  let (text, rest) ← readBlock folded layout.indents.head? (layout.rest.drop 1)
  let form : Form := if folded then .other else .literal
  return (ended.allowKey true).goTo rest |>.emit (.scalar text form)

/-- The first character tells the kind of the next token. Marks of documents and directives stand
at the start of a line. -/
def step (layout : Layout) : Option Layout :=
  let follows := layout.inFlow || gapNext (layout.rest.drop 1)
  if layout.place.column = 0 ∧ startsMark layout.rest then
    layout.documentMark (if layout.rest.head? = some '-' then .documentStart else .documentEnd)
  else if layout.place.column = 0 ∧ layout.rest.head? = some '%' then layout.directive
  else
    match layout.rest.head? with
    | none => none
    | some '[' => layout.openFlow .flowSequence
    | some '{' => layout.openFlow .flowMapping
    | some ']' => layout.closeFlow .flowSequenceEnd
    | some '}' => layout.closeFlow .flowMappingEnd
    | some ',' => layout.comma
    | some '-' => if gapNext (layout.rest.drop 1) then layout.item else layout.plain
    | some '?' => if follows then layout.markedKey else layout.plain
    | some ':' => if follows then layout.value else layout.plain
    | some '*' => layout.name .reference
    | some '&' => layout.name .anchor
    | some '!' => layout.tag
    | some '|' => if layout.inFlow then none else layout.block false
    | some '>' => if layout.inFlow then none else layout.block true
    | some '\'' => layout.quoted (readSingle .empty)
    | some '"' => layout.quoted (readDouble .direct .empty)
    | some character =>
        if ['#', '%', '@', '\x60', '\t'].contains character then none else layout.plain

/-- At the end of the text all blocks close. -/
def finish (layout : Layout) : Option (List Token) := do
  return (← (layout.closeBlocks fun _ => true).dropKey).tokens.reverse

/-- The tokens are laid out one after the other. Each of them takes at least one character. -/
def run : Nat → Layout → Option (List Token)
  | 0, _ => none
  | fuel + 1, layout => do
      let next ← layout.skipSpace.expireKey
      if next.rest.isEmpty then next.finish
      else
        let ready := next.closeBlocks (next.place.column < ·)
        run fuel (← ready.step)

end Layout

def tokensOf? (text : List Char) : Option (List Token) :=
  Layout.run (text.length + 1) (Layout.start text)

end Rhythm.Yaml
