import Rhythm.Decimal.Layout

/-
This file lays out YAML documents in block style, as lists of lines.
-/

namespace Rhythm.Yaml

/-- Numbers between a hundred thousandth and ten quadrillion are written around a point, with at
least one digit after it. -/
def number : Decimal.Style where
  tie := .even
  positional point := -5 < point && point ≤ 16
  wholeEnd := ".0".toList
  infinite := ".inf".toList
  undefined := ".nan".toList

def entry (key scalar : String) : String :=
  key ++ ": " ++ scalar

def float (value : Float) : String :=
  String.ofList (Decimal.writeFloat number value)

def optionalNat : Option Nat → String
  | some value => toString value
  | none => "null"

/-- The lines below a key are indented by two spaces. -/
def nested (key : String) (lines : List String) : List String :=
  (key ++ ":") :: lines.map ("  " ++ ·)

/-- The first line of an item follows a hyphen, and the others are indented by two spaces. -/
def item : List String → List String
  | [] => []
  | first :: rest => ("- " ++ first) :: rest.map ("  " ++ ·)

/-- The items of a sequence follow one another. An empty sequence is written in brackets. -/
def items (all : List (List String)) : List String :=
  if all.isEmpty then ["[]"] else all.flatMap item

/-- Every line of a document ends in a line feed. -/
def document (lines : List String) : String :=
  String.join (lines.map (· ++ "\n"))

end Rhythm.Yaml
