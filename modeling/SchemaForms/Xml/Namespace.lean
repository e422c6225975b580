import SchemaForms.Xml.Document
import SchemaForms.Xml.Scan

/-!
# Namespaces

An attribute named xmlns, or with that prefix, declares a namespace for its
element and for what the element holds. Other attributes and the element itself
take the namespace of their prefix; an attribute without a prefix has none.
What is written in a tag is gathered until a tag ends.
-/

namespace SchemaForms.Xml

def xmlNamespace : String := "http://www.w3.org/XML/1998/namespace"

def xmlnsNamespace : String := "http://www.w3.org/2000/xmlns/"

structure NamedValue where
  name : QualifiedName
  value : String
  deriving DecidableEq, Repr

/-- Adds the declaration that an attribute makes, if it is one, to those made before it. -/
def declare (declared : Scope) (written : NamedValue) : Except Malformed Scope :=
  let ⟨⟨namePrefix, localName⟩, value⟩ := written
  if namePrefix = "xmlns" then
    if value = xmlnsNamespace then .error .invalidNamespace
    else if localName = "xml" then
      if value = xmlNamespace then .ok declared else .error .invalidNamespace
    else if value = xmlNamespace then .error .invalidNamespace
    else if declared.any (·.1 == some localName) then .error (.duplicateAttribute localName)
    else .ok (declared ++ [(some localName, value)])
  else if localName = "xmlns" then
    if value = xmlNamespace || value = xmlnsNamespace then .error .invalidNamespace
    else .ok (declared ++ [(none, value)])
  else .ok declared

def isDeclaration (written : NamedValue) : Bool :=
  written.name.namePrefix == "xmlns" || written.name.localName == "xmlns"

/-- The declarations in scope of an element: its own, then those it inherits and does not replace. -/
def Scope.extend (inherited declared : Scope) : Scope :=
  declared ++ inherited.filter fun (namePrefix, _) => !declared.any (·.1 == namePrefix)

def Scope.resolve (scope : Scope) (namePrefix : String) : Except Malformed (Option String) :=
  if namePrefix.isEmpty then .ok ((scope.find? (·.1 == none)).map (·.2))
  else
    match scope.find? (·.1 == some namePrefix) with
    | some (_, space) => .ok (some space)
    | none => .error (.unknownPrefix namePrefix)

def resolveAttribute (scope : Scope) (written : NamedValue) : Except Malformed Attribute := do
  let space ←
    if written.name.namePrefix = "xml" then pure (some xmlNamespace)
    else if written.name.namePrefix.isEmpty then pure none
    else scope.resolve written.name.namePrefix
  return ⟨space, written.name.localName, written.value⟩

/-- Resolves attributes that go together, of which no two may have the same name. -/
def resolveAttributes (scope : Scope) :
    List NamedValue → List Attribute → Except Malformed (List Attribute)
  | [], resolved => .ok resolved
  | written :: rest, resolved => do
      let next ← resolveAttribute scope written
      if resolved.any fun other => other.space == next.space && other.name == next.name then
        .error (.duplicateAttribute next.name)
      else resolveAttributes scope rest (resolved ++ [next])

/-- The declarations and the other attributes written since a tag ended last. -/
structure Gathered where
  declared : Scope
  attributes : List NamedValue
  deriving DecidableEq, Repr

namespace Gathered

def nothing : Gathered := ⟨[], []⟩

/-- Gathers what is written in a tag, as a declaration or as an attribute. -/
def add (gathered : Gathered) (written : NamedValue) : Except Malformed Gathered :=
  if isDeclaration written then
    (declare gathered.declared written).map ({ gathered with declared := · })
  else .ok { gathered with attributes := gathered.attributes ++ [written] }

/-- The scope and the attributes of a tag that ends below elements with the scope `inherited`. -/
def resolve (gathered : Gathered) (inherited : Scope) :
    Except Malformed (Scope × List Attribute) := do
  let scope := inherited.extend gathered.declared
  return (scope, ← resolveAttributes scope gathered.attributes [])

@[simp] theorem resolve_nothing (inherited : Scope) :
    nothing.resolve inherited = .ok (inherited, []) := by
  simp [nothing, resolve, Scope.extend, resolveAttributes, pure, Except.pure, bind, Except.bind]

end Gathered

end SchemaForms.Xml
