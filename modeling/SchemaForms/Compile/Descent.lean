import SchemaForms.Compile.Groups

/-!
# Descending into definitions

The level with a given number of definitions left to enter compiles particles
with the level below it.
-/

namespace SchemaForms

/-- Compiles a particle; an element becomes `atLeast` nodes or more. -/
def buildParticle (deeper : Option Level) (context : Context) (atLeast : Nat)
    (particle : Particle) (path : String) : Build := fun state =>
  match particle with
  | .element node bounds => buildElement deeper context node bounds atLeast path state
  | .group compositor node bounds => buildGroup deeper context compositor node bounds path state
  | .attributeUse node =>
      buildAttribute context node path (state.cursor.map Cursor.parent) state

def levelBelow : Nat → Option Level
  | 0 => none
  | depth + 1 =>
      some
        { particle := fun context atLeast particle path state =>
            buildParticle (levelBelow depth) context atLeast particle path state
          attributeEntry := fun context item path occurrence state =>
            buildAttributeEntry (levelBelow depth) context item path occurrence state }

@[simp] theorem levelBelow_zero : levelBelow 0 = none := rfl

theorem levelBelow_succ (depth : Nat) :
    levelBelow (depth + 1) =
      some ⟨buildParticle (levelBelow depth), buildAttributeEntry (levelBelow depth)⟩ := rfl

end SchemaForms
