import SchemaForms.Xml.Node

/-!
# Documents

A document is its root element, and the top-level elements after the root where
an entity has closed it early. They are numbered in document order: an element
comes before the elements it holds, and these before the ones that follow it.
-/

namespace SchemaForms.Xml

/-! ## Document order -/

mutual
def Node.descendants : Node → List Element
  | .element tag children => ⟨tag, children⟩ :: descendantsOf children
  | _ => []

def descendantsOf : List Node → List Element
  | [] => []
  | node :: rest => node.descendants ++ descendantsOf rest
end

mutual
/-- Numbers the elements of a node from `next` on, and gives the number that follows. -/
def Node.numbered (parent : Option Nat) (next : Nat) : Node → Node × Nat
  | .element tag children =>
      let (children, after) := numberedAll (some next) (next + 1) children
      (.element { tag with number := next, parent := parent } children, after)
  | node => (node, next)

def numberedAll (parent : Option Nat) (next : Nat) : List Node → List Node × Nat
  | [] => ([], next)
  | node :: rest =>
      let (node, next) := node.numbered parent next
      let (rest, next) := numberedAll parent next rest
      (node :: rest, next)
end

mutual
theorem Node.numbered_numbered (parent : Option Nat) (next : Nat) (node : Node) :
    (node.numbered parent next).1.numbered parent next = node.numbered parent next := by
  cases node with
  | element tag children =>
      simp only [Node.numbered, numberedAll_numberedAll (some next) (next + 1) children]
  | text value => rfl
  | comment value => rfl
  | instruction => rfl

theorem numberedAll_numberedAll (parent : Option Nat) (next : Nat) (nodes : List Node) :
    numberedAll parent next (numberedAll parent next nodes).1 =
      numberedAll parent next nodes := by
  cases nodes with
  | nil => rfl
  | cons node rest =>
      simp only [numberedAll, Node.numbered_numbered parent next node,
        numberedAll_numberedAll parent _ rest]
end

/-- Numbers a top-level element and those below it, and gives the number that follows. -/
def Element.numbered (next : Nat) (element : Element) : Element × Nat :=
  let (children, after) := numberedAll (some next) (next + 1) element.children
  (⟨{ element.tag with number := next, parent := none }, children⟩, after)

theorem Element.numbered_numbered (next : Nat) (element : Element) :
    (element.numbered next).1.numbered next = element.numbered next := by
  simp only [numbered, numberedAll_numberedAll]

def numberedRoots (next : Nat) : List Element → List Element
  | [] => []
  | element :: rest => (element.numbered next).1 :: numberedRoots (element.numbered next).2 rest

theorem numberedRoots_numberedRoots (next : Nat) (elements : List Element) :
    numberedRoots next (numberedRoots next elements) = numberedRoots next elements := by
  induction elements generalizing next with
  | nil => rfl
  | cons element rest ih => simp only [numberedRoots, Element.numbered_numbered, ih]

structure Document where
  root : Element
  others : List Element
  areNumbered : numberedRoots 0 (root :: others) = root :: others
  deriving DecidableEq, Repr

namespace Document

def ofRoots (root : Element) (others : List Element) : Document :=
  ⟨(root.numbered 0).1, numberedRoots (root.numbered 0).2 others,
    numberedRoots_numberedRoots 0 (root :: others)⟩

/-- The top-level elements. -/
def roots (document : Document) : List Element := document.root :: document.others

def elements (document : Document) : List Element :=
  descendantsOf (document.roots.map Element.node)

def element? (document : Document) (number : Nat) : Option Element :=
  document.elements.find? (·.number == number)

def parent? (document : Document) (element : Element) : Option Element :=
  element.tag.parent.bind document.element?

/-- An element without a name that holds the top-level elements as its children. -/
def holder (document : Document) : Element :=
  ⟨⟨0, none, "", [], []⟩, document.roots.map Element.node⟩

@[simp] theorem holder_elements (document : Document) :
    document.holder.elements = document.roots := by
  simp [holder, Element.elements, Function.comp_def]

end Document

end SchemaForms.Xml
