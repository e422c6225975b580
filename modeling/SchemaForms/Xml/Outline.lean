import SchemaForms.Xml.Namespace

/-!
# Outlines of unfinished documents

While a document is read, the open elements form a stack, each with the nodes
it holds so far, the last one first. Text that follows text extends it.

The value of an entity may break off inside of a tag. Such a tag makes no
element, but what it has gathered is taken by the next tag that ends, which may
be an end tag, and it sets the text after it apart from the text before it.
-/

namespace SchemaForms.Xml

structure OpenElement where
  namePrefix : String
  tag : Tag
  nodes : List Node
  deriving Repr

structure Outline where
  opened : List OpenElement
  nodes : List Node
  gathered : Gathered
  apart : Bool
  deriving Repr

namespace Outline

def empty : Outline := ⟨[], [], .nothing, false⟩

def scope (outline : Outline) : Scope :=
  match outline.opened with
  | [] => []
  | current :: _ => current.tag.scope

/-- Changes the nodes of the innermost open element, or those outside of all elements. -/
def update (outline : Outline) (change : List Node → List Node) : Outline :=
  match outline.opened with
  | [] => { outline with nodes := change outline.nodes }
  | current :: outer =>
      { outline with opened := { current with nodes := change current.nodes } :: outer }

def add (outline : Outline) (node : Node) : Outline := outline.update (node :: ·)

def joinText (text : String) : List Node → List Node
  | .text before :: nodes => .text (before ++ text) :: nodes
  | nodes => .text text :: nodes

def addText (outline : Outline) (text : String) : Outline :=
  if outline.apart then { outline with apart := false }.add (.text text)
  else outline.update (joinText text)

/-! ## Tags -/

/-- Gathers what is written in a tag that has not ended. -/
def gather (outline : Outline) (written : List NamedValue) : Except Malformed Outline := do
  return { outline with gathered := ← written.foldlM Gathered.add outline.gathered }

/-- Leaves a tag that has broken off. -/
def breakOff (outline : Outline) : Outline := { outline with apart := true }

/-- Finishes a tag: its scope and its attributes are those of all that was gathered. -/
def finishTag (outline : Outline) : Except Malformed ((Scope × List Attribute) × Outline) := do
  return (← outline.gathered.resolve outline.scope, { outline with gathered := .nothing })

/-- Opens an element at the end of its tag. -/
def begin (outline : Outline) (name : QualifiedName) : Except Malformed Outline := do
  let ((scope, attributes), outline) ← outline.finishTag
  let _ ← scope.resolve name.namePrefix
  let tag : Tag := ⟨0, none, name.localName, attributes, scope⟩
  return { outline with opened := ⟨name.namePrefix, tag, []⟩ :: outline.opened }

/-- Closes the innermost open element, which must have that name as written. -/
def close (outline : Outline) (name : QualifiedName) : Except Malformed Outline := do
  let (_, outline) ← outline.finishTag
  match outline.opened with
  | [] => .error (.unmatchedClose name.localName)
  | current :: outer =>
      if current.namePrefix = name.namePrefix && current.tag.name = name.localName then
        return { outline with opened := outer }.add (.element current.tag current.nodes.reverse)
      else .error (.unmatchedClose name.localName)

/-- The document of an outline without open elements. -/
def document (outline : Outline) : Except Malformed Document :=
  match outline.nodes.reverse.filterMap Node.element?, outline.opened with
  | [], [] => .error .noRoot
  | root :: others, [] => .ok (Document.ofRoots root others)
  | _, _ :: _ => .error .unclosedElement

end Outline

end SchemaForms.Xml
