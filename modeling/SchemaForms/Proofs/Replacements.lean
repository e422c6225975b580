import Mathlib.Data.List.Forall2
import SchemaForms.Instance.Cursor
import SchemaForms.Proofs.Documents

/-!
# Documents that differ inside one element

What an element of a document holds, its attributes and its children, can be
replaced. Its name and all that stands outside of it are kept. Only the numbers of
the elements behind it change, if it then holds more or fewer elements.
-/

namespace SchemaForms.Xml

structure Inside where
  attributes : List Attribute
  scope : Scope
  children : List Node
  deriving Repr

/-! ## Replacing what an element holds -/

mutual
def Node.replaced (number : Nat) (inside : Inside) : Node → Node
  | .element tag children =>
      if tag.number = number then
        .element { tag with attributes := inside.attributes, scope := inside.scope }
          inside.children
      else .element tag (replacedAll number inside children)
  | node => node

def replacedAll (number : Nat) (inside : Inside) : List Node → List Node
  | [] => []
  | node :: rest => node.replaced number inside :: replacedAll number inside rest
end

def Element.replaced (number : Nat) (inside : Inside) (element : Element) : Element :=
  if element.number = number then
    ⟨{ element.tag with attributes := inside.attributes, scope := inside.scope }, inside.children⟩
  else ⟨element.tag, replacedAll number inside element.children⟩

/-- The document in which the element of that number holds something else. -/
def Document.replaced (document : Document) (number : Nat) (inside : Inside) : Document :=
  .ofRoots (document.root.replaced number inside)
    (document.others.map (·.replaced number inside))

theorem Element.node_replaced (number : Nat) (inside : Inside) (element : Element) :
    (element.replaced number inside).node = element.node.replaced number inside := by
  by_cases h : element.tag.number = number <;>
    simp [replaced, node, Node.replaced, Element.number, h]

theorem map_node_replaced (number : Nat) (inside : Inside) (elements : List Element) :
    (elements.map (·.replaced number inside)).map Element.node =
      replacedAll number inside (elements.map Element.node) := by
  induction elements with
  | nil => rfl
  | cons element rest ih =>
      rw [List.map_cons, List.map_cons, List.map_cons, replacedAll, ih, Element.node_replaced]

theorem map_node_numberedRoots (next : Nat) (elements : List Element) :
    (numberedRoots next elements).map Element.node =
      (numberedAll none next (elements.map Element.node)).1 := by
  induction elements generalizing next with
  | nil => rfl
  | cons element rest ih =>
      rw [numberedRoots, List.map_cons, ih]
      rfl

/-! ## The same outside -/

/-- The nodes differ at most inside the element of that number, and in other numbers. -/
inductive Node.SameOutside (number : Nat) : Node → Node → Prop
  | replaced {tag other : Tag} {children others : List Node} :
      tag.number = number → other.number = number → tag.name = other.name →
      SameOutside number (.element tag children) (.element other others)
  | kept {tag other : Tag} {children others : List Node} :
      tag.number ≠ number → other.number ≠ number → tag.name = other.name →
      tag.attributes = other.attributes → List.Forall₂ (SameOutside number) children others →
      SameOutside number (.element tag children) (.element other others)
  | text (value : String) : SameOutside number (.text value) (.text value)
  | comment (value : String) : SameOutside number (.comment value) (.comment value)
  | instruction : SameOutside number .instruction .instruction

def Element.SameOutside (number : Nat) (element other : Element) : Prop :=
  element.node.SameOutside number other.node

def Aligned (number next other : Nat) : Prop :=
  (next = other ∧ next ≤ number) ∨ (number < next ∧ number < other)

theorem numberedAll_le (parent : Option Nat) (next : Nat) (nodes : List Node) :
    next ≤ (numberedAll parent next nodes).2 := by
  rw [(numberedAll_spec parent next nodes).1]
  exact Nat.le_add_right _ _

section

variable {number : Nat} (inside : Inside)

mutual
theorem Node.sameOutside_numbered {next other : Nat} (h : Aligned number next other)
    (parent second : Option Nat) (node : Node) :
    (node.numbered parent next).1.SameOutside number
        (((node.numbered parent next).1.replaced number inside).numbered second other).1 ∧
      Aligned number (node.numbered parent next).2
        (((node.numbered parent next).1.replaced number inside).numbered second other).2 := by
  cases node with
  | element tag children =>
      by_cases hnumber : next = number
      · obtain ⟨rfl, -⟩ : next = other ∧ next ≤ number := h.resolve_right (by omega)
        simp only [Node.numbered, Node.replaced, hnumber, if_true]
        have hafter := numberedAll_le (some number) (number + 1) children
        have hinside := numberedAll_le (some number) (number + 1) inside.children
        exact ⟨.replaced rfl rfl rfl, .inr ⟨by omega, by omega⟩⟩
      · have hother : other ≠ number := by
          rcases h with ⟨rfl, -⟩ | ⟨-, h⟩ <;> omega
        have hbelow : Aligned number (next + 1) (other + 1) := by
          rcases h with ⟨rfl, h⟩ | h
          · exact .inl ⟨rfl, by omega⟩
          · exact .inr (by omega)
        obtain ⟨hchildren, hafter⟩ :=
          sameOutside_numberedAll hbelow (some next) (some other) children
        simp only [Node.numbered, Node.replaced, hnumber, if_false]
        exact ⟨.kept hnumber hother rfl rfl hchildren, hafter⟩
  | text value => exact ⟨.text value, h⟩
  | comment value => exact ⟨.comment value, h⟩
  | instruction => exact ⟨.instruction, h⟩

theorem sameOutside_numberedAll {next other : Nat} (h : Aligned number next other)
    (parent second : Option Nat) (nodes : List Node) :
    List.Forall₂ (Node.SameOutside number) (numberedAll parent next nodes).1
        (numberedAll second other (replacedAll number inside
          (numberedAll parent next nodes).1)).1 ∧
      Aligned number (numberedAll parent next nodes).2
        (numberedAll second other (replacedAll number inside
          (numberedAll parent next nodes).1)).2 := by
  cases nodes with
  | nil => exact ⟨.nil, h⟩
  | cons node rest =>
      obtain ⟨hnode, hnext⟩ := Node.sameOutside_numbered h parent second node
      obtain ⟨hrest, hafter⟩ := sameOutside_numberedAll hnext parent second rest
      exact ⟨.cons hnode hrest, hafter⟩
end

theorem Document.sameOutside_replaced (document : Document) (number : Nat) :
    List.Forall₂ (Element.SameOutside number) document.roots
      (document.replaced number inside).roots := by
  have hroots : document.roots.map Element.node =
      (numberedAll none 0 (document.roots.map Element.node)).1 := by
    rw [← map_node_numberedRoots]
    exact congrArg (List.map Element.node) document.areNumbered.symm
  have hreplaced : (document.replaced number inside).roots.map Element.node =
      (numberedAll none 0 (replacedAll number inside (document.roots.map Element.node))).1 := by
    rw [← map_node_replaced, ← map_node_numberedRoots]
    rfl
  have haligned : Aligned number 0 0 := .inl ⟨rfl, Nat.zero_le _⟩
  have hsame := (sameOutside_numberedAll inside haligned none none
    (document.roots.map Element.node)).1
  rw [← hroots, ← hreplaced, List.forall₂_map_left_iff, List.forall₂_map_right_iff] at hsame
  exact hsame

end

/-! ## What is the same -/

section

variable {number : Nat} {nodes others : List Node} {element other : Element}

theorem forall₂_elements (h : List.Forall₂ (Node.SameOutside number) nodes others) :
    List.Forall₂ (Element.SameOutside number) (nodes.filterMap Node.element?)
      (others.filterMap Node.element?) := by
  induction h with
  | nil => exact .nil
  | cons hnode _ ih =>
      cases hnode with
      | replaced hnumber hother hname => exact .cons (.replaced hnumber hother hname) ih
      | kept hnumber hother hname hattributes hchildren =>
          exact .cons (.kept hnumber hother hname hattributes hchildren) ih
      | text value => exact ih
      | comment value => exact ih
      | instruction => exact ih

theorem filterMap_text?_eq (h : List.Forall₂ (Node.SameOutside number) nodes others) :
    nodes.filterMap Node.text? = others.filterMap Node.text? := by
  induction h with
  | nil => rfl
  | cons hnode _ ih =>
      cases hnode with
      | text value => exact congrArg (value :: ·) ih
      | replaced | kept | comment | instruction => exact ih

/-- Two elements that are in the same place: the one that was replaced, or another, whose
attributes, children and text are those of its counterpart outside of the one. -/
theorem Element.SameOutside.cases (h : element.SameOutside number other) :
    (element.number = number ∧ other.number = number) ∨
      (element.number ≠ number ∧ other.number ≠ number ∧
        element.tag.attributes = other.tag.attributes ∧ element.text = other.text ∧
        List.Forall₂ (Element.SameOutside number) element.elements other.elements) := by
  obtain ⟨tag, children⟩ := element
  obtain ⟨tag', children'⟩ := other
  cases h with
  | replaced hnumber hother _ => exact .inl ⟨hnumber, hother⟩
  | kept hnumber hother _ hattributes hchildren =>
      refine .inr ⟨hnumber, hother, hattributes, ?_, forall₂_elements hchildren⟩
      exact congrArg String.join (filterMap_text?_eq hchildren)

theorem Element.SameOutside.name_eq (h : element.SameOutside number other) :
    element.name = other.name := by
  obtain ⟨tag, children⟩ := element
  obtain ⟨tag', children'⟩ := other
  cases h with
  | replaced _ _ hname => exact hname
  | kept _ _ hname _ _ => exact hname

theorem head?_map_name_eq {elements found : List Element}
    (h : List.Forall₂ (Element.SameOutside number) elements found) :
    elements.head?.map Element.name = found.head?.map Element.name := by
  cases h with
  | nil => rfl
  | cons hhead _ => exact congrArg some hhead.name_eq

end

end SchemaForms.Xml
