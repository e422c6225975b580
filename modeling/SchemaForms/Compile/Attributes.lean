import SchemaForms.Compile.Level

/-!
# Attributes

Every use of an attribute becomes a node, except for prohibited uses. A
reference to an attribute group stands for the uses in the group.
-/

namespace SchemaForms

/-- The value that a use or its declaration gives if there is no instance. -/
def constrainedValue (element : Xml.Element) : Option String :=
  (element.attribute? "default").or (element.attribute? "fixed")

def useOf (use : Xml.Element) : String := (use.attribute? "use").getD "optional"

def attributeValue (use declaration : Xml.Element) (name : String) :
    Option Xml.Element → Option String
  | some occurrence => occurrence.attribute? name
  | none => (constrainedValue use).or (constrainedValue declaration)

def attributeOptions (use declaration : Xml.Element) : Options :=
  let options := Text.Dictionary.empty.insert OptionKey.use (.str (useOf use))
  match declaration.attribute? "type" with
  | some typeName => options.insert OptionKey.type (.str typeName)
  | none => options

def attributeForm (use declaration : Xml.Element) (name path : String)
    (occurrence : Option Xml.Element) : Form :=
  .node
    { kind := .attributeUse
      tag := name
      value := attributeValue use declaration name occurrence
      options := attributeOptions use declaration
      path := path ++ "/@" ++ name
      space := none
      origin := use
      source := none } []

/-- The declaration of an attribute use and its name. -/
def declaredAttribute (schema : Schema) (use : Xml.Element) :
    Except SchemaFault (Xml.Element × String) := do
  let declaration ← Schema.followReference schema.attributeUse use
  return (declaration, ← demandAttribute declaration "name")

def buildAttribute (context : Context) (use : Xml.Element) (path : String)
    (occurrence : Option Xml.Element) : Build :=
  if useOf use = "prohibited" then .nothing
  else
    .ofFault (declaredAttribute context.schema use) fun (declaration, name) =>
      .emit (attributeForm use declaration name path occurrence)

/-- Compiles an attribute use or a reference to an attribute group. -/
def buildAttributeEntry (deeper : Option Level) (context : Context) (item : Xml.Element)
    (path : String) (occurrence : Option Xml.Element) : Build :=
  match item.name with
  | "attribute" => buildAttribute context item path occurrence
  | "attributeGroup" =>
      .ofFault (Schema.followReference context.schema.attributeGroup item) fun definition =>
        .ofFault (context.enter deeper definition false) fun (context, level) =>
          .all (definition.elements.map fun child =>
            level.attributeEntry context child path occurrence)
  | _ => .nothing

end SchemaForms
