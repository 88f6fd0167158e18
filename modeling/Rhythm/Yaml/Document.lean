import Rhythm.Yaml.Layout
import Rhythm.Yaml.Value

/-
This file reads a YAML document that holds one mapping with scalars as keys. Any other document is
refused.
-/

namespace Rhythm.Yaml

/-- A mapping lists its keys with their values. -/
abbrev Mapping := List (List Char × Value)

/-- The keys of a mapping must be scalars. -/
def Document.mapping? (document : Document) (entries : List (Value × Value)) : Option Mapping :=
  entries.mapM fun entry => do
    let key ← document.resolve? entry.1
    return (← key.scalarText?, ← document.resolve? entry.2)

/-- The mapping of a whole document. An empty document is an empty mapping. -/
def readMapping? (text : List Char) : Option Mapping := do
  let whole := plainLineEnds text
  if whole.all isPrintable then
    let document ← Document.ofTokens? (← tokensOf? whole)
    match document.root with
    | none => some []
    | some (.mapping entries) => document.mapping? entries
    | some (.scalar [] .plain _) => some []
    | some _ => none
  else none

end Rhythm.Yaml
