import SchemaForms.Schema.Bounds
import SchemaForms.Schema.Components

/-!
# Particles

What the members of a content model are. A reference to a named group stands
for the compositor of the group, with the bounds of the reference.
-/

namespace SchemaForms

inductive Compositor where
  | sequence
  | choice
  deriving DecidableEq, Repr

def Compositor.label : Compositor → String
  | .sequence => "sequence"
  | .choice => "choice"

inductive Particle where
  | element (node : Xml.Element) (bounds : Bounds)
  | group (compositor : Compositor) (node : Xml.Element) (bounds : Bounds)
  | attributeUse (node : Xml.Element)
  deriving Repr

namespace Particle

def node : Particle → Xml.Element
  | .element node _ => node
  | .group _ node _ => node
  | .attributeUse node => node

def bounds : Particle → Bounds
  | .element _ bounds => bounds
  | .group _ _ bounds => bounds
  | .attributeUse _ => .single

/-- The compositor of a named group: its first element that is no annotation. -/
def compositorOf (definition : Xml.Element) (bounds : Bounds) : Except SchemaFault Particle :=
  match definition.elements.find? (·.name != "annotation") with
  | none => .error (.unsupported "group")
  | some node =>
      match node.name with
      | "choice" => .ok (.group .choice node bounds)
      | "sequence" => .ok (.group .sequence node bounds)
      | tag => .error (.unsupported tag)

def ofGroupReference (schema : Schema) (reference : Xml.Element) :
    Except SchemaFault Particle := do
  let _ ← demandAttribute reference "ref"
  let bounds ← Bounds.resolve reference
  let definition ← Schema.followReference schema.group reference
  compositorOf definition bounds

/-- The particle that an element of the schema stands for, if it is one. -/
def ofElement? (schema : Schema) (node : Xml.Element) : Except SchemaFault (Option Particle) :=
  match node.name with
  | "element" => do return some (.element node (← Bounds.resolve node))
  | "choice" => do return some (.group .choice node (← Bounds.resolve node))
  | "sequence" => do return some (.group .sequence node (← Bounds.resolve node))
  | "attribute" => .ok (some (.attributeUse node))
  | "group" => do return some (← ofGroupReference schema node)
  | "all" => .error (.unsupported "all")
  | "any" => .error (.unsupported "any")
  | "complexContent" => .error (.unsupported "complexContent")
  | _ => .ok none

def membersOf (schema : Schema) : List Xml.Element → Except SchemaFault (List Particle)
  | [] => .ok []
  | node :: rest => do
      let member ← ofElement? schema node
      let members ← membersOf schema rest
      return member.toList ++ members

/-- The particles among the children of a compositor, in document order. -/
def members (schema : Schema) (compositor : Xml.Element) : Except SchemaFault (List Particle) :=
  membersOf schema compositor.elements

end Particle

end SchemaForms
