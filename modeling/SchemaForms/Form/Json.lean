import SchemaForms.Form.Tree
import SchemaForms.Text.Json

/-!
# Forms as JSON

A form is an object of its tag, value, options and children.
-/

namespace SchemaForms

open Text (Json)

def Scalar.toJson : Scalar → Json
  | .null => .null
  | .bool value => .bool value
  | .int value => .int value
  | .str value => .str value

def optionsToJson (options : Options) : Json :=
  .object (options.entries.map fun (key, value) => (key, value.toJson))

def valueToJson : Option String → Json
  | some value => .str value
  | none => .null

namespace Form

mutual
def toJson : Form → Json
  | .node label children =>
      .object [("tag", .str label.tag), ("value", valueToJson label.value),
        ("options", optionsToJson label.options), ("children", .array (toJsonAll children))]

def toJsonAll : List Form → List Json
  | [] => []
  | form :: rest => toJson form :: toJsonAll rest
end

end Form

end SchemaForms
