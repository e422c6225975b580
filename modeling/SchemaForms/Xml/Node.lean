/-!
# Nodes of documents

A document is a tree of nodes. Every element carries its number, which counts
the elements of the document in document order from 0 on, the number of its
parent, its local name, its attributes, and the namespace declarations in scope,
the nearest first.
-/

namespace SchemaForms.Xml

structure Attribute where
  space : Option String
  name : String
  value : String
  deriving DecidableEq, Repr

/-- Namespace declarations; the default one has no prefix. -/
abbrev Scope := List (Option String × String)

structure Tag where
  number : Nat
  parent : Option Nat
  name : String
  attributes : List Attribute
  scope : Scope
  deriving DecidableEq, Repr

inductive Node where
  | element (tag : Tag) (children : List Node)
  | text (value : String)
  | comment (value : String)
  | instruction
  deriving Repr

structure Element where
  tag : Tag
  children : List Node
  deriving Repr

mutual
def Node.decideEq : (first second : Node) → Decidable (first = second)
  | .element tag children, .element other others =>
      match (inferInstance : Decidable (tag = other)), decideEqAll children others with
      | .isTrue sameTag, .isTrue same => .isTrue (by rw [sameTag, same])
      | .isFalse different, _ => .isFalse fun h => different (Node.element.inj h).1
      | _, .isFalse different => .isFalse fun h => different (Node.element.inj h).2
  | .text value, .text other =>
      match (inferInstance : Decidable (value = other)) with
      | .isTrue same => .isTrue (by rw [same])
      | .isFalse different => .isFalse fun h => different (Node.text.inj h)
  | .comment value, .comment other =>
      match (inferInstance : Decidable (value = other)) with
      | .isTrue same => .isTrue (by rw [same])
      | .isFalse different => .isFalse fun h => different (Node.comment.inj h)
  | .instruction, .instruction => .isTrue rfl
  | .element _ _, .text _ => .isFalse nofun
  | .element _ _, .comment _ => .isFalse nofun
  | .element _ _, .instruction => .isFalse nofun
  | .text _, .element _ _ => .isFalse nofun
  | .text _, .comment _ => .isFalse nofun
  | .text _, .instruction => .isFalse nofun
  | .comment _, .element _ _ => .isFalse nofun
  | .comment _, .text _ => .isFalse nofun
  | .comment _, .instruction => .isFalse nofun
  | .instruction, .element _ _ => .isFalse nofun
  | .instruction, .text _ => .isFalse nofun
  | .instruction, .comment _ => .isFalse nofun

def decideEqAll : (first second : List Node) → Decidable (first = second)
  | [], [] => .isTrue rfl
  | [], _ :: _ => .isFalse nofun
  | _ :: _, [] => .isFalse nofun
  | node :: rest, other :: others =>
      match node.decideEq other, decideEqAll rest others with
      | .isTrue same, .isTrue sameRest => .isTrue (by rw [same, sameRest])
      | .isFalse different, _ => .isFalse fun h => different (List.cons.inj h).1
      | _, .isFalse different => .isFalse fun h => different (List.cons.inj h).2
end

instance : DecidableEq Node := Node.decideEq

deriving instance DecidableEq for Element

namespace Node

def element? : Node → Option Element
  | .element tag children => some ⟨tag, children⟩
  | _ => none

def text? : Node → Option String
  | .text value => some value
  | _ => none

/-- The text of an element is that of its first child, if that child is text. -/
def content? : Node → Option String
  | .element _ (.text value :: _) => some value
  | .element _ _ => none
  | .text value => some value
  | .comment value => some value
  | .instruction => none

end Node

namespace Element

def number (element : Element) : Nat := element.tag.number

def name (element : Element) : String := element.tag.name

def node (element : Element) : Node := .element element.tag element.children

@[simp] theorem element?_node (element : Element) : element.node.element? = some element := rfl

def elements (element : Element) : List Element := element.children.filterMap Node.element?

def elementsNamed (element : Element) (name : String) : List Element :=
  element.elements.filter (·.name == name)

def child? (element : Element) (name : String) : Option Element :=
  element.elements.find? (·.name == name)

/-- The value of the attribute with that name and no namespace. -/
def attribute? (element : Element) (name : String) : Option String :=
  (element.tag.attributes.find? fun a => a.space.isNone && a.name == name).map (·.value)

/-- The namespace a prefix stands for; without a prefix, the default namespace. -/
def namespace? (element : Element) (namePrefix : Option String) : Option String :=
  (element.tag.scope.find? (·.1 == namePrefix)).map (·.2)

def text (element : Element) : String :=
  String.join (element.children.filterMap Node.text?)

end Element

end SchemaForms.Xml
