import Rhythm.Decimal.Literal
import Rhythm.Text.Numeral
import Rhythm.Yaml.Document

/-
This file reads numbers and texts from the values of a YAML mapping. Plain scalars are numbers, and
literal ones are if their tag says so.
-/

namespace Rhythm.Yaml

open Rhythm.Text

/-- Plain scalars with these texts stand for no value, and so does an empty one. -/
def nullTexts : List (List Char) :=
  ["~".toList, "null".toList, "Null".toList, "NULL".toList]

def infinityTexts : List (List Char) :=
  [".inf".toList, ".Inf".toList, ".INF".toList]

def undefinedTexts : List (List Char) :=
  [".nan".toList, ".NaN".toList, ".NAN".toList]

def startsSigned (text : List Char) : Bool :=
  text.head? == some '+' || text.head? == some '-'

/-- A binary64 number in digits is finite. Words stand for infinity and for no number. -/
def readFloat? (text : List Char) : Option Float :=
  let unsigned := Numeral.dropPlus text
  if unsigned ≠ text ∧ startsSigned unsigned then none
  else if infinityTexts.contains unsigned then some (1 / 0)
  else if infinityTexts.contains (text.drop 1) ∧ text.head? = some '-' then some (-(1 / 0))
  else if undefinedTexts.contains text then some (0 / 0)
  else (Decimal.readFloat? unsigned).filter Float.isFinite

/-- The value of digits in a base, all of which must be digits of that base. -/
def readBase? (base : Nat) (digits : List Char) : Option Nat :=
  if digits.isEmpty then none
  else
    digits.foldl (fun value? character => do
      let value ← value?
      let digit ← hexDigit? character
      if digit < base then some (base * value + digit) else none) (some 0)

/-- Two characters announce a number in another base than ten. -/
def otherBase? : List Char → Option (Nat × List Char)
  | '0' :: 'x' :: rest => some (16, rest)
  | '0' :: 'o' :: rest => some (8, rest)
  | '0' :: 'b' :: rest => some (2, rest)
  | _ => none

/-- Decimal digits with a zero before them are a text. -/
def hasLeadingZero (digits : List Char) : Bool :=
  digits.head? == some '0' && 1 < digits.length

/-- A natural number is written in decimal digits or in another base, with an optional plus sign. -/
def readNat? (text : List Char) : Option Nat :=
  let unsigned := Numeral.dropPlus text
  match (otherBase? unsigned).bind fun found => readBase? found.1 found.2 with
  | some number => some number
  | none => if hasLeadingZero unsigned then none else Numeral.read? unsigned

namespace Value

/-- The text of a scalar that may be a number of the kind with a tag. -/
def numeral? (kind : String) : Value → Option (List Char)
  | scalar text .plain _ => some text
  | scalar text .literal (some tag) =>
      if tag = standardTags ++ kind.toList then some text else none
  | _ => none

def float? (value : Value) : Option Float :=
  (value.numeral? "float").bind Yaml.readFloat?

/-- A natural number below `2 ^ 32`. -/
def word? (value : Value) : Option UInt32 := do
  let number ← readNat? (← value.numeral? "int")
  if number < UInt32.size then some (UInt32.ofNat number) else none

/-- Any scalar is a text. -/
def text? (value : Value) : Option String :=
  value.scalarText?.map String.ofList

/-- A value is read unless it stands for none. A tag other than that of no value makes every plain
scalar a value, and the tag of no value refuses all other plain scalars. -/
def optional? {A : Type} (read? : Value → Option A) (value : Value) : Option (Option A) :=
  match value with
  | scalar text .plain (some tag) =>
      if tag ≠ standardTags ++ "null".toList then (read? value).map some
      else if nullTexts.contains text then some none
      else none
  | scalar text .plain none =>
      if text.isEmpty || nullTexts.contains text then some none else (read? value).map some
  | _ => (read? value).map some

end Value

/-- No one of the given keys stands in a mapping more than once. -/
def unrepeated (keys : List (List Char)) (mapping : Mapping) : Bool :=
  keys.all fun key => (mapping.countP fun entry => entry.1 == key) ≤ 1

/-- The value of a key is read if the key is there and its value stands for something. -/
def readOptional? {A : Type} (mapping : Mapping) (key : String) (read? : Value → Option A) :
    Option (Option A) :=
  match mapping.lookup key.toList with
  | none => some none
  | some value => value.optional? read?

end Rhythm.Yaml
