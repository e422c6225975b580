import SchemaForms.Compile.Build

/-!
# Levels of definitions

Complex types, groups and attribute groups are entered one inside the other. A
level holds what can be compiled inside of one more definition; there is none
when the depth limit has been reached.
-/

namespace SchemaForms

/-- What a compilation depends on at one place: the schema, the settings, the
numbers of the definitions it is inside of, and whether a repeatable group
around it works on the same children of the instance. -/
structure Context where
  schema : Schema
  settings : Settings
  enclosing : List Nat
  repeated : Bool
  deriving Repr

namespace Context

def start (schema : Schema) (settings : Settings) : Context := ⟨schema, settings, [], false⟩

def encloses (context : Context) (definition : Xml.Element) : Bool :=
  context.enclosing.contains definition.number

def inside (context : Context) (definition : Xml.Element) : Context :=
  { context with enclosing := definition.number :: context.enclosing }

end Context

structure Level where
  particle : Context → Nat → Particle → String → Build
  attributeEntry : Context → Xml.Element → String → Option Xml.Element → Build

/-- Enters a definition. Without an instance, a definition must not be entered
again inside of itself; with one, the instance ends before the recursion does. -/
def Context.enter (context : Context) (deeper : Option Level) (definition : Xml.Element)
    (editing : Bool) : Except SchemaFault (Context × Level) :=
  if !editing && context.encloses definition then
    .error (.circularDefinition (context.schema.describe definition))
  else
    match deeper with
    | none => .error (.tooDeep context.settings.maxDepth)
    | some level => .ok (context.inside definition, level)

end SchemaForms
