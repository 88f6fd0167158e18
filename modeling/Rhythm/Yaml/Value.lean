import Rhythm.Yaml.Token

/-
This file builds the values of a YAML document from its tokens. The tokens follow a grammar, and a
document that leaves it has no value.
-/

namespace Rhythm.Yaml

/-- The beginning of the tags that the format itself names. -/
def standardTags : List Char := "tag:yaml.org,2002:".toList

/-- A value is a scalar with its text, a collection, or another value that has a number. -/
inductive Value where
  | scalar (text : List Char) (form : Form) (tag : Option (List Char))
  | sequence (items : List Value)
  | mapping (entries : List (Value × Value))
  | reference (number : Nat)

namespace Value

def absent : Value := .scalar [] .plain none

def scalarText? : Value → Option (List Char)
  | scalar text _ _ => some text
  | _ => none

end Value

/-- What is there while values are read. -/
structure Supply where
  /-- The tokens that are left. -/
  tokens : List Token
  /-- The texts that the handles of tags stand for. -/
  handles : List (List Char × List Char)
  /-- The names of values, with their numbers. -/
  names : List (List Char × Nat)
  /-- The values that have numbers, the last one first. -/
  numbered : List (Nat × Value)

/-- Values are read from the front of the tokens. -/
abbrev Parsing (A : Type) := StateT Supply Option A

def nextToken? : Parsing (Option Token) := do
  return (← get).tokens.head?

/-- The next token is taken. -/
def dropToken : Parsing Unit :=
  modify fun supply => { supply with tokens := supply.tokens.tail }

/-- A token is taken if it is the next one. -/
def takes (token : Token) : Parsing Bool := do
  if (← nextToken?) = some token then
    dropToken
    return true
  else return false

/-- A token must be the next one. -/
def mustTake (token : Token) : Parsing Unit := do
  if ← takes token then pure () else failure

/-- A value may be left out before certain tokens. -/
def unlessNext (tokens : List Token) (read : Parsing Value) : Parsing Value := do
  if (← nextToken?).any tokens.contains then return .absent else read

/-- The properties of a node. -/
structure Properties where
  anchor : Option (List Char)
  tag : Option (List Char)

/-- The name of a node is read if it has one. -/
def takeAnchor : Parsing (Option (List Char)) := do
  match ← nextToken? with
  | some (.anchor name) => dropToken; return some name
  | _ => return none

/-- A tag is put together from its handle, if it has one, and its text. -/
def fullTag (handle text : List Char) : Parsing (List Char) := do
  if handle.isEmpty then return text
  match (← get).handles.lookup handle with
  | some long => return long ++ text
  | none => failure

/-- The tag of a node is read if it has one. -/
def takeTag : Parsing (Option (List Char)) := do
  match ← nextToken? with
  | some (.tag handle text) => dropToken; return some (← fullTag handle text)
  | _ => return none

/-- The name and the tag of a node come in either order. -/
def takeProperties : Parsing Properties := do
  let before ← takeAnchor
  let tag ← takeTag
  match before with
  | some name => return ⟨some name, tag⟩
  | none => return ⟨← if tag.isSome then takeAnchor else pure none, tag⟩

/-- The number of a name counts the names before it. The last value that gets a number keeps it. -/
def Supply.remember (name : List Char) (value : Value) (supply : Supply) : Supply :=
  let number := supply.names.length
  { supply with
    names := (name, number) :: supply.names.filter (·.1 != name)
    numbered := (number, value) :: supply.numbered }

/-- The value of a node is remembered if it has a name. -/
def remember (anchor : Option (List Char)) (value : Value) : Parsing Unit :=
  match anchor with
  | some name => modify (Supply.remember name value)
  | none => pure ()

/-- A scalar node, which may be left out after properties. -/
def scalarNode (properties : Properties) : Parsing Value := do
  let value : Value ← match ← nextToken? with
    | some (.scalar text form) => dropToken; pure (.scalar text form properties.tag)
    | _ =>
        if properties.anchor.isSome || properties.tag.isSome then
          pure (.scalar [] .plain properties.tag)
        else failure
  remember properties.anchor value
  return value

/-- The value with a name must stand before. -/
def valueNamed (name : List Char) : Parsing Value := do
  match (← get).names.lookup name with
  | some number => return .reference number
  | none => failure

mutual

/-- A node. A block collection is one only inside of blocks. The items of a block sequence may stand
right below the key of a mapping, without any token around them. -/
def parseNode (block loose : Bool) : Nat → Parsing Value
  | 0 => failure
  | fuel + 1 => do
      if let some (.reference name) ← nextToken? then
        dropToken
        return ← valueNamed name
      let properties ← takeProperties
      match ← nextToken? with
      | some .item =>
          if loose then
            remember properties.anchor (.sequence [])
            return .sequence (← parseLooseItems fuel)
          else scalarNode properties
      | some .flowSequence =>
          dropToken
          remember properties.anchor (.sequence [])
          return .sequence (← parseFlowItems true fuel)
      | some .flowMapping =>
          dropToken
          remember properties.anchor (.mapping [])
          return .mapping (← parseFlowEntries true fuel)
      | some .blockSequence =>
          if block then
            dropToken
            remember properties.anchor (.sequence [])
            return .sequence (← parseBlockItems fuel)
          else scalarNode properties
      | some .blockMapping =>
          if block then
            dropToken
            remember properties.anchor (.mapping [])
            return .mapping (← parseBlockEntries fuel)
          else scalarNode properties
      | _ => scalarNode properties

/-- The items of a block sequence, up to its end. -/
def parseBlockItems : Nat → Parsing (List Value)
  | 0 => failure
  | fuel + 1 => do
      if ← takes .blockEnd then return []
      mustTake .item
      let value ← unlessNext [.item, .blockEnd] (parseNode true false fuel)
      return value :: (← parseBlockItems fuel)

/-- The items of a block sequence that has no end of its own. -/
def parseLooseItems : Nat → Parsing (List Value)
  | 0 => failure
  | fuel + 1 => do
      if ← takes .item then
        let value ← unlessNext [.item, .key, .value, .blockEnd] (parseNode true false fuel)
        return value :: (← parseLooseItems fuel)
      else return []

/-- The entries of a block mapping, up to its end. -/
def parseBlockEntries : Nat → Parsing (List (Value × Value))
  | 0 => failure
  | fuel + 1 => do
      if ← takes .blockEnd then return []
      mustTake .key
      let key ← unlessNext [.key, .value, .blockEnd] (parseNode true true fuel)
      let value ←
        if ← takes .value then
          unlessNext [.key, .value, .blockEnd] (parseNode true true fuel)
        else pure .absent
      return (key, value) :: (← parseBlockEntries fuel)

/-- The items of a flow sequence, up to its end. An item with a key is a mapping of one entry. A
key that is left out takes the next token with it. -/
def parseFlowItems (first : Bool) : Nat → Parsing (List Value)
  | 0 => failure
  | fuel + 1 => do
      if ← takes .flowSequenceEnd then return []
      unless first do mustTake .comma
      if ← takes .flowSequenceEnd then return []
      if ← takes .key then
        let stops : List Token := [.value, .comma, .flowSequenceEnd]
        let bare := (← nextToken?).any stops.contains
        if bare then dropToken
        let key ← if bare then pure .absent else parseNode false false fuel
        let value ←
          if ← takes .value then
            unlessNext [.comma, .flowSequenceEnd] (parseNode false false fuel)
          else pure .absent
        return .mapping [(key, value)] :: (← parseFlowItems false fuel)
      else
        let value ← parseNode false false fuel
        return value :: (← parseFlowItems false fuel)

/-- The entries of a flow mapping, up to its end. Without a colon only the key is there. -/
def parseFlowEntries (first : Bool) : Nat → Parsing (List (Value × Value))
  | 0 => failure
  | fuel + 1 => do
      if ← takes .flowMappingEnd then return []
      unless first do mustTake .comma
      if ← takes .flowMappingEnd then return []
      if ← takes .key then
        let key ← unlessNext [.value, .comma, .flowMappingEnd] (parseNode false false fuel)
        let value ←
          if ← takes .value then
            unlessNext [.comma, .flowMappingEnd] (parseNode false false fuel)
          else pure .absent
        return (key, value) :: (← parseFlowEntries false fuel)
      else
        let key ← parseNode false false fuel
        return (key, .absent) :: (← parseFlowEntries false fuel)

end

/-- The value of a document, which has none if it is empty. Its start may be marked. -/
def parseRoot (fuel : Nat) : Parsing (Option Value) := do
  if (← nextToken?).isNone then return none
  if ← takes .documentStart then
    if (← nextToken?).isNone then return some .absent
    return ← unlessNext [.documentStart, .documentEnd] (parseNode true false fuel)
  return ← parseNode true false fuel

/-- The texts that the handles of tags stand for. A document names its version once at most, and
gives each handle once at most. Two handles are always there. -/
def handlesOf? (directives : List Token) : Option (List (List Char × List Char)) :=
  let given := directives.filterMap fun
    | .handle short long => some (short, long)
    | _ => none
  if directives.count .version ≤ 1 ∧ (given.map Prod.fst).Nodup then
    some (given ++ [(['!', '!'], standardTags), (['!'], ['!'])])
  else none

/-- A document has a value, and some of its values have numbers. -/
structure Document where
  root : Option Value
  numbered : List (Nat × Value)

namespace Document

/-- The tokens of a single document are read. Directives need a marked start after them. Every token
is taken at most two steps after another one. -/
def ofTokens? (tokens : List Token) : Option Document := do
  let (directives, others) := tokens.span Token.isDirective
  if directives ≠ [] ∧ others.head? ≠ some .documentStart then failure
  let supply : Supply := ⟨others, ← handlesOf? directives, [], []⟩
  let (root, left) ← (parseRoot (2 * tokens.length + 2)).run supply
  if left.tokens.all (· == .documentEnd) then some ⟨root, left.numbered⟩ else none

/-- A value is looked up if it is given by its number. -/
def resolve? (document : Document) : Value → Option Value
  | .reference number => document.numbered.lookup number
  | value => some value

end Document

end Rhythm.Yaml
