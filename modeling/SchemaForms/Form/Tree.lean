import SchemaForms.Form.Option

/-!
# Forms

A form is a tree of nodes. A node stands for an element, an attribute, or one
instantiation of a sequence or a choice. Its path tells its place in the content
of the elements around it; only elements have a namespace. A node also knows
where it comes from: its origin is the declaration, the attribute use or the
compositor in the schema, and its source the element of an instance that it was
compiled from, if there is one.
-/

namespace SchemaForms

inductive FormKind where
  | element
  | attributeUse
  | sequence
  | choice
  deriving DecidableEq, Repr

structure FormLabel where
  kind : FormKind
  tag : String
  value : Option String
  options : Options
  path : String
  space : Option String
  origin : Xml.Element
  source : Option Xml.Element
  deriving DecidableEq, Repr

inductive Form where
  | node (label : FormLabel) (children : List Form)
  deriving Repr

mutual
def Form.decideEq : (first second : Form) → Decidable (first = second)
  | .node label children, .node other others =>
      match (inferInstance : Decidable (label = other)), decideEqForms children others with
      | .isTrue sameLabel, .isTrue same => .isTrue (by rw [sameLabel, same])
      | .isFalse different, _ => .isFalse fun h => different (Form.node.inj h).1
      | _, .isFalse different => .isFalse fun h => different (Form.node.inj h).2

def decideEqForms : (first second : List Form) → Decidable (first = second)
  | [], [] => .isTrue rfl
  | [], _ :: _ => .isFalse nofun
  | _ :: _, [] => .isFalse nofun
  | form :: rest, other :: others =>
      match form.decideEq other, decideEqForms rest others with
      | .isTrue same, .isTrue sameRest => .isTrue (by rw [same, sameRest])
      | .isFalse different, _ => .isFalse fun h => different (List.cons.inj h).1
      | _, .isFalse different => .isFalse fun h => different (List.cons.inj h).2
end

instance : DecidableEq Form := Form.decideEq

namespace Form

def label : Form → FormLabel
  | .node label _ => label

def children : Form → List Form
  | .node _ children => children

def mapLabel (change : FormLabel → FormLabel) : Form → Form
  | .node label children => .node (change label) children

def mapOptions (change : Options → Options) (form : Form) : Form :=
  form.mapLabel fun label => { label with options := change label.options }

def insertOption (form : Form) (key : String) (value : Scalar) : Form :=
  form.mapOptions (·.insert key value)

def remark (form : Form) (message : String) : Form := form.mapOptions (·.remark message)

mutual
/-- The number of nodes of a form. -/
def size : Form → Nat
  | .node _ children => sizeAll children + 1

def sizeAll : List Form → Nat
  | [] => 0
  | form :: rest => size form + sizeAll rest
end

@[simp] theorem sizeAll_append (first second : List Form) :
    sizeAll (first ++ second) = sizeAll first + sizeAll second := by
  induction first with
  | nil => simp [sizeAll]
  | cons form rest ih => simp [sizeAll, ih, Nat.add_assoc]

mutual
/-- The labels of a form, each before those of its children. -/
def labels : Form → List FormLabel
  | .node label children => label :: labelsOf children

def labelsOf : List Form → List FormLabel
  | [] => []
  | form :: rest => labels form ++ labelsOf rest
end

end Form

end SchemaForms
