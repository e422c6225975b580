import SchemaForms.Compile.Attributes

/-!
# Element declarations

What the declaration of an element says, with its reference followed: a name, a
type of content, the key of the module that edits it, and a value to start with.
-/

namespace SchemaForms

inductive ContentType where
  | simple
  | complex (definition : Xml.Element)
  deriving Repr

structure Declaration where
  element : Xml.Element
  name : String
  content : ContentType
  typeName : Option String
  module : Option String
  value : Option String
  space : Option String
  deriving Repr

namespace Declaration

/-- A type given in place comes before one that is referred to; an element with
neither holds text. -/
def contentType (schema : Schema) (declaration : Xml.Element) :
    Except SchemaFault ContentType :=
  match declaration.child? "complexType" with
  | some definition => .ok (.complex definition)
  | none =>
      if (declaration.child? "simpleType").isSome then .ok .simple
      else
        match declaration.attribute? "type" with
        | none => .ok .simple
        | some source => do
            match ← schema.typeDefinition (← Schema.referredName source declaration) with
            | .complex definition => return .complex definition
            | .builtin => return .simple
            | .simple _ => return .simple

/-- The text in the first element of that name among the application
information of a declaration, with white space around it cut off. -/
def widgetKey (moduleTag : String) (declaration : Xml.Element) : Option String :=
  let notes := (declaration.elementsNamed "annotation").flatMap (·.elementsNamed "appinfo")
  match (notes.flatMap (·.elements)).find? (·.name == moduleTag) with
  | none => none
  | some element =>
      let key := Text.trim (String.join (element.children.filterMap Xml.Node.content?))
      if key.isEmpty then none else some key

/-- The declaration of an element particle. -/
def ofParticle (schema : Schema) (settings : Settings) (particle : Xml.Element) :
    Except SchemaFault Declaration := do
  let declaration ← Schema.followReference schema.element particle
  let name ← demandAttribute declaration "name"
  let content ← contentType schema declaration
  return {
    element := declaration
    name := name
    content := content
    typeName := declaration.attribute? "type"
    module := widgetKey settings.moduleTag declaration
    value := constrainedValue declaration
    space := schema.instanceNamespace declaration }

end Declaration

def withOption (options : Options) (key : String) : Option String → Options
  | some value => options.insert key (.str value)
  | none => options

def boundsOptions (bounds : Bounds) : Options :=
  (Text.Dictionary.empty.insert OptionKey.min (.ofNat bounds.min)).insert OptionKey.max
    (.ofMaxOccurs bounds.max)

def Declaration.options (declaration : Declaration) (bounds : Bounds) : Options :=
  withOption (withOption (boundsOptions bounds) OptionKey.type declaration.typeName)
    OptionKey.module declaration.module

end SchemaForms
