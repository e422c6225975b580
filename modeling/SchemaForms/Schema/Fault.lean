import SchemaForms.Schema.ExpandedName
import SchemaForms.Text.Quoted

/-!
# Errors of schemas

A fault of a schema ends its compilation. The error tells the fault and, if it
is known, the path of the particle where it was found. A path that is attached
later does not replace the first one.
-/

namespace SchemaForms

inductive ReferenceKind where
  | element
  | group
  | attributeUse
  | attributeGroup
  | typeName
  deriving DecidableEq, Repr

def ReferenceKind.label : ReferenceKind → String
  | .element => "element"
  | .group => "group"
  | .attributeUse => "attribute"
  | .attributeGroup => "attributeGroup"
  | .typeName => "type"

inductive SchemaFault where
  | unboundPrefix (namePrefix : String)
  | malformedValue (value expected : String)
  | emptyRange (min max : Nat)
  | lackingAttribute (tag name : String)
  | danglingReference (kind : ReferenceKind) (name : ExpandedName)
  | unsupported (tag : String)
  | circularDefinition (definition : String)
  | tooDeep (limit : Nat)
  | notSchema (root : String)
  | noGlobals
  | unknownGlobal (name : String)
  deriving DecidableEq, Repr

open Text in
def SchemaFault.message : SchemaFault → String
  | .unboundPrefix namePrefix =>
      "failed to resolve prefix " ++ quoted namePrefix ++ " to a namespace URI"
  | .malformedValue value expected =>
      "invalid value " ++ quoted value ++ ", expected " ++ expected
  | .emptyRange min max =>
      "maxOccurs (" ++ toString max ++ ") is lower than minOccurs (" ++ toString min ++ ")"
  | .lackingAttribute tag name =>
      "<" ++ tag ++ "> is missing the required " ++ quoted name ++ " attribute"
  | .danglingReference kind name => "unresolved " ++ kind.label ++ " reference " ++ name.toText
  | .unsupported tag => "unsupported schema construct <" ++ tag ++ ">"
  | .circularDefinition definition => definition ++ " is defined in terms of itself"
  | .tooDeep limit => "nesting depth exceeds the limit of " ++ toString limit
  | .notSchema root => "the document root is <" ++ root ++ ">, expected <schema>"
  | .noGlobals => "the schema declares no global element"
  | .unknownGlobal name => "the schema declares no global element named " ++ quoted name

structure Diagnostic where
  fault : SchemaFault
  path : Option String
  deriving DecidableEq, Repr

namespace Diagnostic

def ofFault (fault : SchemaFault) : Diagnostic := ⟨fault, none⟩

/-- Attaches a path to an error that has none. -/
def located (error : Diagnostic) (path : String) : Diagnostic :=
  { error with path := error.path.or (some path) }

def message (error : Diagnostic) : String :=
  match error.path with
  | some path => path ++ ": " ++ error.fault.message
  | none => error.fault.message

@[simp] theorem fault_located (error : Diagnostic) (path : String) :
    (error.located path).fault = error.fault := rfl

theorem path_located (error : Diagnostic) (path : String) :
    (error.located path).path = some (error.path.getD path) := by
  cases h : error.path <;> simp [Diagnostic.located, h]

end Diagnostic

/-- The value of an attribute that the schema language requires. -/
def demandAttribute (element : Xml.Element) (name : String) : Except SchemaFault String :=
  match element.attribute? name with
  | some value => .ok value
  | none => .error (.lackingAttribute element.name name)

end SchemaForms
