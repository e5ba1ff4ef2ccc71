import Placement.Settings
import Placement.Settings.Yaml.Document

/-!
Settings written as YAML.

A text is read as tokens, and those as the value of its only document. A text without a document has no
settings, which is to say an empty object.
-/

namespace Placement.Yaml

def ofText? (text : String) : Option Json := do
  let tokens ← Token.list? text
  return (← Reading.only? tokens).getD (.object [])

end Placement.Yaml
