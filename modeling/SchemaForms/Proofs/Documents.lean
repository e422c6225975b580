import Mathlib.Data.List.Nodup
import SchemaForms.Schema.Particle

/-!
# Elements of documents

The elements of a document are numbered in document order, so an element is
known by its number. Whatever a schema refers to is an element of its document.
-/

namespace SchemaForms

namespace Xml

def Element.plain (name : String) (attributes : List (String × String))
    (children : List Element) : Element :=
  ⟨⟨0, none, name, attributes.map fun (name, value) => ⟨none, name, value⟩, []⟩,
    children.map Element.node⟩

def Element.leaf (name text : String) : Element :=
  ⟨⟨0, none, name, [], []⟩, [.text text]⟩

theorem descendantsOf_eq_flatMap (nodes : List Node) :
    descendantsOf nodes = nodes.flatMap Node.descendants := by
  induction nodes with
  | nil => rfl
  | cons node rest ih => simp [descendantsOf, ih]

/-! ## Numbers -/

mutual
theorem Node.numbered_spec (parent : Option Nat) (next : Nat) (node : Node) :
    (node.numbered parent next).2 = next + (node.numbered parent next).1.descendants.length ∧
      (node.numbered parent next).1.descendants.map Element.number =
        List.range' next (node.numbered parent next).1.descendants.length := by
  cases node with
  | element tag children =>
      obtain ⟨hafter, hnumbers⟩ := numberedAll_spec (some next) (next + 1) children
      simp only [Node.numbered, Node.descendants, List.length_cons, List.map_cons,
        List.range'_succ, hafter, hnumbers]
      exact ⟨by omega, rfl⟩
  | text value => simp [Node.numbered, Node.descendants]
  | comment value => simp [Node.numbered, Node.descendants]
  | instruction => simp [Node.numbered, Node.descendants]

theorem numberedAll_spec (parent : Option Nat) (next : Nat) (nodes : List Node) :
    (numberedAll parent next nodes).2 =
        next + (descendantsOf (numberedAll parent next nodes).1).length ∧
      (descendantsOf (numberedAll parent next nodes).1).map Element.number =
        List.range' next (descendantsOf (numberedAll parent next nodes).1).length := by
  cases nodes with
  | nil => simp [numberedAll, descendantsOf]
  | cons node rest =>
      obtain ⟨hfirst, hfirstNumbers⟩ := Node.numbered_spec parent next node
      obtain ⟨hrest, hrestNumbers⟩ :=
        numberedAll_spec parent (node.numbered parent next).2 rest
      simp only [numberedAll, descendantsOf, List.length_append, List.map_append,
        hfirstNumbers, hrestNumbers]
      refine ⟨by omega, ?_⟩
      rw [hfirst, List.range'_append_1]
end

theorem numberedRoots_spec (next : Nat) (elements : List Element) :
    (descendantsOf ((numberedRoots next elements).map Element.node)).map Element.number =
      List.range' next
        (descendantsOf ((numberedRoots next elements).map Element.node)).length := by
  induction elements generalizing next with
  | nil => rfl
  | cons element rest ih =>
      obtain ⟨hafter, hnumbers⟩ :=
        numberedAll_spec (some next) (next + 1) element.children
      have hnext : (element.numbered next).2 =
          next + ((element.numbered next).1.node.descendants).length := by
        simp only [Element.numbered, Element.node, Node.descendants, List.length_cons, hafter]
        omega
      have hown : (element.numbered next).1.node.descendants.map Element.number =
          List.range' next (element.numbered next).1.node.descendants.length := by
        simp only [Element.numbered, Element.node, Node.descendants, List.map_cons,
          List.length_cons, List.range'_succ, hnumbers]
        rfl
      simp only [numberedRoots, List.map_cons, descendantsOf, List.map_append,
        List.length_append, hown, ih]
      rw [hnext, List.range'_append_1]

namespace Document

theorem numbers_eq_range (document : Document) :
    document.elements.map Element.number = List.range document.elements.length := by
  have hspec := numberedRoots_spec 0 document.roots
  rw [show numberedRoots 0 document.roots = document.roots from document.areNumbered] at hspec
  rw [List.range_eq_range']
  exact hspec

theorem eq_of_number_eq {document : Document} {first second : Element}
    (hfirst : first ∈ document.elements) (hsecond : second ∈ document.elements)
    (hnumber : first.number = second.number) : first = second := by
  have hnodup : (document.elements.map Element.number).Nodup := by
    rw [numbers_eq_range]
    exact List.nodup_range
  exact List.inj_on_of_nodup_map hnodup hfirst hsecond hnumber

end Document

def Document.node (document : Document) (number : Nat) : Element :=
  (document.element? number).getD (.plain "" [] [])

/-! ## Children -/

mutual
theorem Node.mem_descendants_trans {node : Node} {parent child : Element}
    (hparent : parent ∈ node.descendants) (hchild : child ∈ parent.elements) :
    child ∈ node.descendants := by
  cases node with
  | element tag children =>
      rw [Node.descendants, List.mem_cons] at hparent ⊢
      rcases hparent with rfl | hparent
      · exact .inr (mem_descendantsOf_of_mem_elements hchild)
      · exact .inr (mem_descendantsOf_trans hparent hchild)
  | text value => cases hparent
  | comment value => cases hparent
  | instruction => cases hparent

theorem mem_descendantsOf_trans {nodes : List Node} {parent child : Element}
    (hparent : parent ∈ descendantsOf nodes) (hchild : child ∈ parent.elements) :
    child ∈ descendantsOf nodes := by
  cases nodes with
  | nil => cases hparent
  | cons node rest =>
      rw [descendantsOf, List.mem_append] at hparent ⊢
      rcases hparent with hparent | hparent
      · exact .inl (Node.mem_descendants_trans hparent hchild)
      · exact .inr (mem_descendantsOf_trans hparent hchild)

theorem mem_descendantsOf_of_mem_elements {nodes : List Node} {child : Element}
    (hchild : child ∈ nodes.filterMap Node.element?) : child ∈ descendantsOf nodes := by
  obtain ⟨node, hnode, helement⟩ := List.mem_filterMap.mp hchild
  rw [descendantsOf_eq_flatMap, List.mem_flatMap]
  refine ⟨node, hnode, ?_⟩
  cases node with
  | element tag children =>
      cases helement
      exact List.mem_cons_self
  | text value => cases helement
  | comment value => cases helement
  | instruction => cases helement
end

end Xml

end SchemaForms
