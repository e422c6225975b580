import SchemaForms.Form.Tree
import SchemaForms.Xml.Markup

/-!
# The instance that a form describes

Sequences and choices are transparent, and of a choice only the selected
alternatives are written. Attributes are written if they have a value. The
namespace of an element is declared where it differs from the one around it.
-/

namespace SchemaForms

open Xml (Markup)

namespace Form

def isSelected (form : Form) : Bool := form.label.options.selected? == some true

mutual
/-- The elements that a node gives to the content it stands in. -/
def surface : Form → List Form
  | .node label children =>
      match label.kind with
      | .element => [.node label children]
      | .attributeUse => []
      | .sequence => surfaceAll children
      | .choice => surfaceSelected children

def surfaceAll : List Form → List Form
  | [] => []
  | form :: rest => surface form ++ surfaceAll rest

def surfaceSelected : List Form → List Form
  | [] => []
  | form :: rest =>
      (if form.isSelected then surface form else []) ++ surfaceSelected rest
end

/-- The element nodes in the content of a node. -/
def content (form : Form) : List Form := surfaceAll form.children

def writtenAttribute? (form : Form) : Option (String × String) :=
  if form.label.kind = .attributeUse then form.label.value.map fun value => (form.label.tag, value)
  else none

def writtenAttributes (form : Form) : List (String × String) :=
  form.children.filterMap writtenAttribute?

/-- The declaration of a namespace below elements in the namespace `around`. -/
def namespaceDeclaration (around own : Option String) : List (String × String) :=
  if own = around then [] else [("xmlns", own.getD "")]

mutual
theorem size_surface_le (form : Form) :
    sizeAll (surface form) ≤ size form := by
  cases form with
  | node label children =>
      simp only [surface, size]
      have inAll := size_surfaceAll_le children
      have inSelected := size_surfaceSelected_le children
      split <;> simp [sizeAll, size] <;> omega

theorem size_surfaceAll_le (forms : List Form) :
    sizeAll (surfaceAll forms) ≤ sizeAll forms := by
  cases forms with
  | nil => simp [surfaceAll]
  | cons form rest =>
      have first := size_surface_le form
      have others := size_surfaceAll_le rest
      simp only [surfaceAll, sizeAll, sizeAll_append]
      omega

theorem size_surfaceSelected_le (forms : List Form) :
    sizeAll (surfaceSelected forms) ≤ sizeAll forms := by
  cases forms with
  | nil => simp [surfaceSelected]
  | cons form rest =>
      have first := size_surface_le form
      have others := size_surfaceSelected_le rest
      simp only [surfaceSelected, sizeAll, sizeAll_append]
      split <;> simp [sizeAll] <;> omega
end

/-- The elements to write for a node that has at most that many levels. -/
def markupWithin : Nat → Option String → Form → Markup
  | 0, _, form => .element form.label.tag [] none []
  | levels + 1, around, form =>
      .element form.label.tag
        (namespaceDeclaration around form.label.space ++ form.writtenAttributes)
        form.label.value
        (form.content.map (markupWithin levels form.label.space))

/-- What is written for a node, whatever its kind. -/
def markup (form : Form) : Markup := markupWithin form.size none form

def toXml (form : Form) : String := Markup.document form.markup

end Form

end SchemaForms
