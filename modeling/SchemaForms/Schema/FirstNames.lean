import SchemaForms.Schema.Particle
import SchemaForms.Text.Dictionary

/-!
# First names

The names of the elements a particle can take directly, without entering the
content of an element. A group that is reached again while it is being searched
has no first names: its definition never ends.
-/

namespace SchemaForms

open Text

def declaredName (schema : Schema) (node : Xml.Element) : Except SchemaFault String := do
  let declaration ← Schema.followReference schema.element node
  demandAttribute declaration "name"

/-- Adds the first names of particles one after the other. -/
def collectAll (collect : Particle → List String → Except SchemaFault (List String)) :
    List Particle → List String → Except SchemaFault (List String)
  | [], tags => .ok tags
  | particle :: rest, tags => do
      let tags ← collect particle tags
      collectAll collect rest tags

/-- Adds the first names of a particle inside of the groups `visiting`. As many
groups as the fuel tells can be entered. -/
def collectFirstNames (schema : Schema) :
    Nat → List Nat → Particle → List String → Except SchemaFault (List String)
  | _, _, .element node _, tags => do
      return insertText (← declaredName schema node) tags
  | _, _, .attributeUse _, tags => .ok tags
  | 0, _, .group _ node _, _ => .error (.circularDefinition (schema.describe node))
  | fuel + 1, visiting, .group _ node _, tags => do
      if visiting.contains node.number then
        .error (.circularDefinition (schema.describe node))
      else
        let members ← Particle.members schema node
        collectAll (collectFirstNames schema fuel (node.number :: visiting)) members tags

/-- The first names of a particle, in ascending order. The groups on a path of the
search are different elements of the schema, so there are no more of them. -/
def firstNames (schema : Schema) (particle : Particle) : Except SchemaFault (List String) :=
  collectFirstNames schema (schema.document.elements.length + 1) [] particle []

end SchemaForms
