import SchemaForms.Compile.Request
import SchemaForms.Form.Json
import SchemaForms.Form.Written
import SchemaForms.Xml.Reader

/-!
# From texts to forms

The text of a schema, and that of an instance if there is one, are read and
compiled to the form of one global element.
-/

namespace SchemaForms

inductive DocumentRole where
  | schema
  | existing
  deriving DecidableEq, Repr

def DocumentRole.label : DocumentRole → String
  | .schema => "schema"
  | .existing => "instance"

inductive CompileError where
  | malformed (role : DocumentRole) (reason : Xml.Malformed)
  | failed (failure : Failure)
  deriving Repr

structure Sources where
  schema : String
  instanceText : Option String
  element : Option String
  settings : Settings
  allowDoctype : Bool
  deriving DecidableEq, Repr

namespace Sources

def read (sources : Sources) (role : DocumentRole) (text : String) :
    Except CompileError Xml.Document :=
  match Xml.Document.read sources.allowDoctype text with
  | .ok document => .ok document
  | .error reason => .error (.malformed role reason)

def readInstance (sources : Sources) : Except CompileError (Option Xml.Document) :=
  match sources.instanceText with
  | none => .ok none
  | some text => (sources.read .existing text).map some

/-- The forms that the sources describe. The schema is read before the instance. -/
def compile (sources : Sources) : Except CompileError RootForms := do
  let schemaDocument ← sources.read .schema sources.schema
  let instanceDocument ← sources.readInstance
  match Schema.ofDocument schemaDocument with
  | .error fault => .error (.failed ⟨.ofFault fault, []⟩)
  | .ok schema =>
      match compileForm schema sources.settings sources.element instanceDocument with
      | .error failure => .error (.failed failure)
      | .ok forms => .ok forms

end Sources

end SchemaForms
