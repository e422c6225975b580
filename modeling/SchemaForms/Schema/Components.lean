import SchemaForms.Schema.Fault
import SchemaForms.Text.Blank

/-!
# Components of a schema

The top-level declarations and definitions of a schema, found by their expanded
names. All of them are in the target namespace of the schema. Of two components
of one kind and name, references find the later one.
-/

namespace SchemaForms

def schemaNamespace : String := "http://www.w3.org/2001/XMLSchema"

/-- The types that need no definition. Their values are texts. -/
def builtinNames : List String := [
  "anyType", "anySimpleType", "anyAtomicType",
  "string", "boolean", "decimal", "float", "double", "duration", "dateTime", "time", "date",
  "gYearMonth", "gYear", "gMonthDay", "gDay", "gMonth", "hexBinary", "base64Binary", "anyURI",
  "QName", "NOTATION",
  "normalizedString", "token", "language", "NMTOKEN", "NMTOKENS", "Name", "NCName", "ID",
  "IDREF", "IDREFS", "ENTITY", "ENTITIES", "integer", "nonPositiveInteger", "negativeInteger",
  "long", "int", "short", "byte", "nonNegativeInteger", "unsignedLong", "unsignedInt",
  "unsignedShort", "unsignedByte", "positiveInteger", "yearMonthDuration", "dayTimeDuration",
  "dateTimeStamp"]

def isBuiltin (name : ExpandedName) : Bool :=
  name.space == some schemaNamespace && builtinNames.contains name.localName

inductive ComponentKind where
  | element
  | simpleType
  | complexType
  | group
  | attributeUse
  | attributeGroup
  deriving DecidableEq, Repr

def ComponentKind.ofTag? : String → Option ComponentKind
  | "element" => some .element
  | "simpleType" => some .simpleType
  | "complexType" => some .complexType
  | "group" => some .group
  | "attribute" => some .attributeUse
  | "attributeGroup" => some .attributeGroup
  | _ => none

structure Component where
  kind : ComponentKind
  name : String
  element : Xml.Element
  deriving Repr

inductive TypeDefinition where
  | builtin
  | simple (definition : Xml.Element)
  | complex (definition : Xml.Element)
  deriving Repr

structure Schema where
  document : Xml.Document
  root : Xml.Element
  components : List Component
  deriving Repr

namespace Schema

def components? : List Xml.Element → Except SchemaFault (List Component)
  | [] => .ok []
  | element :: rest =>
      match ComponentKind.ofTag? element.name with
      | none => components? rest
      | some kind => do
          let name ← demandAttribute element "name"
          return ⟨kind, name, element⟩ :: (← components? rest)

/-- The schema with that element of a document as its root. -/
def ofElement (document : Xml.Document) (root : Xml.Element) : Except SchemaFault Schema := do
  if root.name = "schema" then return ⟨document, root, ← components? root.elements⟩
  else .error (.notSchema root.name)

def ofDocument (document : Xml.Document) : Except SchemaFault Schema :=
  ofElement document document.root

def targetNamespace (schema : Schema) : Option String := schema.root.attribute? "targetNamespace"

/-- The global elements in document order. -/
def globals (schema : Schema) : List Xml.Element :=
  (schema.components.filter (·.kind == .element)).map (·.element)

/-- The global element with that name, or the first one. -/
def selectGlobal (schema : Schema) : Option String → Except SchemaFault Xml.Element
  | some name =>
      match schema.globals.find? (·.attribute? "name" == some name) with
      | some element => .ok element
      | none => .error (.unknownGlobal name)
  | none =>
      match schema.globals with
      | element :: _ => .ok element
      | [] => .error .noGlobals

/-! ## References -/

def component? (schema : Schema) (kind : ComponentKind) (name : ExpandedName) :
    Option Xml.Element :=
  if name.space = schema.targetNamespace then
    (schema.components.reverse.find? fun component =>
      component.kind == kind && component.name == name.localName).map (·.element)
  else none

def lookup (schema : Schema) (kind : ComponentKind) (reference : ReferenceKind)
    (name : ExpandedName) : Except SchemaFault Xml.Element :=
  match schema.component? kind name with
  | some element => .ok element
  | none => .error (.danglingReference reference name)

def element (schema : Schema) : ExpandedName → Except SchemaFault Xml.Element :=
  schema.lookup .element .element

def group (schema : Schema) : ExpandedName → Except SchemaFault Xml.Element :=
  schema.lookup .group .group

def attributeUse (schema : Schema) : ExpandedName → Except SchemaFault Xml.Element :=
  schema.lookup .attributeUse .attributeUse

def attributeGroup (schema : Schema) : ExpandedName → Except SchemaFault Xml.Element :=
  schema.lookup .attributeGroup .attributeGroup

/-- A complex type hides a simple type of the same name. -/
def typeDefinition (schema : Schema) (name : ExpandedName) : Except SchemaFault TypeDefinition :=
  if isBuiltin name then .ok .builtin
  else
    match schema.component? .complexType name with
    | some definition => .ok (.complex definition)
    | none => (schema.lookup .simpleType .typeName name).map .simple

/-- The name written at an element, with white space around it cut off. -/
def referredName (source : String) (context : Xml.Element) : Except SchemaFault ExpandedName :=
  match ExpandedName.resolve (Text.trim source) context with
  | .ok name => .ok name
  | .error namePrefix => .error (.unboundPrefix namePrefix)

/-- The component that the `ref` attribute names, or the element itself without one. -/
def followReference (find : ExpandedName → Except SchemaFault Xml.Element) (element : Xml.Element) :
    Except SchemaFault Xml.Element :=
  match element.attribute? "ref" with
  | some source => do find (← referredName source element)
  | none => .ok element

/-! ## Namespaces of declared elements -/

/-- Global declarations are qualified; local ones by their form or the default of the schema. -/
def isQualified (schema : Schema) (declaration : Xml.Element) : Bool :=
  declaration.tag.parent == some schema.root.number ||
    (declaration.attribute? "form").or (schema.root.attribute? "elementFormDefault") ==
      some "qualified"

def instanceNamespace (schema : Schema) (declaration : Xml.Element) : Option String :=
  if schema.isQualified declaration then schema.targetNamespace else none

/-! ## Descriptions -/

/-- How a message names a type, a group or a compositor. -/
def describe (schema : Schema) (definition : Xml.Element) : String :=
  match definition.attribute? "name" with
  | some name => definition.name ++ " " ++ Text.quoted name
  | none =>
      match schema.document.parent? definition with
      | none => "anonymous " ++ definition.name
      | some parent =>
          let name := (parent.attribute? "name").getD ""
          if parent.name = "group" then "group " ++ Text.quoted name
          else if parent.name = "element" then
            "anonymous " ++ definition.name ++ " of element " ++ Text.quoted name
          else "anonymous " ++ definition.name

end Schema

end SchemaForms
