import SchemaForms.Compile.Elements
import SchemaForms.Proofs.Advance

/-!
# Erasures of instances

What a compilation looks at in an instance: the names of the elements, their attributes
without a namespace, the elements in them, and the text of those that hold no elements.
Comments, instructions, the text between elements, and the prefixes and namespaces of names
are erased, and so is how a text is split.
-/

namespace SchemaForms.Xml

inductive Erasure where
  | element (name : String) (attributes : String → Option String) (elements : List Erasure)
      (text : Option String)

def Erasure.name : Erasure → String
  | .element name _ _ _ => name

mutual
def Node.erasure? : Node → Option Erasure
  | .element tag children =>
      some (.element tag.name (Element.attribute? ⟨tag, children⟩) (erasuresOf children)
        (if (Element.elements ⟨tag, children⟩).isEmpty then some (Element.text ⟨tag, children⟩)
          else none))
  | _ => none

def erasuresOf : List Node → List Erasure
  | [] => []
  | node :: rest => node.erasure?.toList ++ erasuresOf rest
end

/-- The text is kept if there are no elements beside it. -/
def Element.erasure (element : Element) : Erasure :=
  .element element.name element.attribute? (erasuresOf element.children)
    (if element.elements.isEmpty then some element.text else none)

def Document.erasure (document : Document) : List Erasure := document.roots.map Element.erasure

theorem Node.erasure?_eq (node : Node) : node.erasure? = node.element?.map Element.erasure := by
  cases node <;> rfl

theorem erasuresOf_eq (nodes : List Node) :
    erasuresOf nodes = (nodes.filterMap Node.element?).map Element.erasure := by
  induction nodes with
  | nil => rfl
  | cons node rest ih =>
      rw [erasuresOf, ih, Node.erasure?_eq, List.filterMap_cons]
      cases node.element? <;> rfl

/-- Elements have the same erasure if they have the same name, the same attributes, elements
with the same erasures in them, and, without elements, the same text. -/
theorem Element.erasure_eq_iff {first second : Element} :
    first.erasure = second.erasure ↔ first.name = second.name ∧
      (∀ name, first.attribute? name = second.attribute? name) ∧
      first.elements.map Element.erasure = second.elements.map Element.erasure ∧
      (first.elements = [] → first.text = second.text) := by
  rw [erasure, erasure, erasuresOf_eq, erasuresOf_eq, Erasure.element.injEq]
  change _ ∧ _ ∧ first.elements.map erasure = second.elements.map erasure ∧ _ ↔ _
  refine and_congr_right fun _ => and_congr funext_iff (and_congr_right fun helements => ?_)
  cases hfirst : first.elements with
  | nil =>
      rw [hfirst, List.map_nil, eq_comm, List.map_eq_nil_iff] at helements
      simp [helements]
  | cons element rest =>
      have hsecond : second.elements ≠ [] := by
        rintro hnil
        rw [hfirst, hnil] at helements
        cases helements
      simp [hsecond]

section

variable {first second : Element} (h : first.erasure = second.erasure)
include h

theorem Element.name_eq_of_erasure : first.name = second.name := (erasure_eq_iff.mp h).1

theorem Element.attribute?_eq_of_erasure (name : String) :
    first.attribute? name = second.attribute? name :=
  (erasure_eq_iff.mp h).2.1 name

theorem Element.elements_of_erasure :
    first.elements.map Element.erasure = second.elements.map Element.erasure :=
  (erasure_eq_iff.mp h).2.2.1

end

theorem map_name_eq_of_erasure {elements others : List Element}
    (h : elements.map Element.erasure = others.map Element.erasure) :
    elements.map Element.name = others.map Element.name := by
  have hnames := congrArg (List.map Erasure.name) h
  rwa [List.map_map, List.map_map] at hnames

theorem Document.holder_erasure {first second : Document} (h : first.erasure = second.erasure) :
    first.holder.erasure = second.holder.erasure := by
  refine Element.erasure_eq_iff.mpr ⟨rfl, fun _ => rfl, ?_, fun hnone => ?_⟩
  · rwa [holder_elements, holder_elements]
  · rw [holder_elements] at hnone
    cases hnone

end SchemaForms.Xml

namespace SchemaForms

theorem simpleText_eq_of_erasure {first second : Xml.Element}
    (h : first.erasure = second.erasure) : simpleText first = simpleText second := by
  obtain ⟨hname, -, helements, htext⟩ := Xml.Element.erasure_eq_iff.mp h
  have hempty := congrArg List.isEmpty helements
  rw [List.isEmpty_map, List.isEmpty_map] at hempty
  rw [simpleText, simpleText, ← hempty, ← hname]
  cases helement : first.elements with
  | nil => rw [htext helement]
  | cons element rest => rfl

structure BuildState.SameErasure (state other : BuildState) : Prop where
  steps : state.steps = other.steps
  parents : state.cursor.map (·.parent.erasure) = other.cursor.map (·.parent.erasure)
  ahead : state.ahead.map Xml.Element.erasure = other.ahead.map Xml.Element.erasure

namespace BuildState.SameErasure

variable {state other : BuildState}

theorem refl (state : BuildState) : state.SameErasure state := ⟨rfl, rfl, rfl⟩

theorem start {occurrence also : Option Xml.Element}
    (h : occurrence.map Xml.Element.erasure = also.map Xml.Element.erasure) :
    (BuildState.start occurrence).SameErasure (.start also) := by
  cases occurrence <;> cases also
  · exact refl _
  · cases h
  · cases h
  · have hsame := Option.some.inj h
    exact ⟨rfl, h, Xml.Element.elements_of_erasure hsame⟩

theorem cursors (h : state.SameErasure other) :
    (state.cursor = none ∧ other.cursor = none) ∨
      ∃ cursor also, state.cursor = some cursor ∧ other.cursor = some also ∧
        cursor.ahead.map Xml.Element.erasure = also.ahead.map Xml.Element.erasure := by
  have hparents := h.parents
  have hahead := h.ahead
  cases hcursor : state.cursor <;> cases hother : other.cursor <;>
    simp only [BuildState.ahead, hcursor, hother, Option.map_none, Option.map_some]
      at hparents hahead
  · exact .inl ⟨rfl, rfl⟩
  · cases hparents
  · cases hparents
  · exact .inr ⟨_, _, rfl, rfl, hahead⟩

theorem isSome_eq (h : state.SameErasure other) :
    state.cursor.isSome = other.cursor.isSome := by
  rw [← Option.isSome_map, h.parents, Option.isSome_map]

theorem nextPlace_eq (h : state.SameErasure other) (name : String) :
    state.nextPlace name = other.nextPlace name := by
  rw [nextPlace, nextPlace, h.steps]

theorem givePlace (h : state.SameErasure other) (name : String) :
    (state.givePlace name).SameErasure (other.givePlace name) :=
  ⟨congrArg (name :: ·) h.steps, h.parents, h.ahead⟩

theorem map_next?_eq (h : state.SameErasure other) :
    state.next?.map Xml.Element.name = other.next?.map Xml.Element.name := by
  rw [next?_eq_head?, next?_eq_head?, ← List.head?_map, ← List.head?_map,
    Xml.map_name_eq_of_erasure h.ahead]

theorem length_eq (h : state.SameErasure other) : state.ahead.length = other.ahead.length := by
  rw [← List.length_map, h.ahead, List.length_map]

end BuildState.SameErasure

theorem contentValue_eq_of_erasure (definition : Xml.Element) {after later : BuildState}
    (hahead : after.SameErasure later) {occurrence other : Option Xml.Element}
    (h : occurrence.map Xml.Element.erasure = other.map Xml.Element.erasure) :
    contentValue definition after occurrence = contentValue definition later other := by
  cases occurrence <;> cases other
  · rfl
  · cases h
  · cases h
  have hsame := Option.some.inj h
  have hnames := Xml.map_name_eq_of_erasure hahead.ahead
  simp only [contentValue, simpleText_eq_of_erasure hsame, Xml.Element.name_eq_of_erasure hsame]
  cases hafter : after.ahead <;> cases hlater : later.ahead <;>
    simp only [hafter, hlater, List.map_nil, List.map_cons, List.cons.injEq, reduceCtorEq] at hnames
  · rfl
  · simp only [hnames.1]

theorem Cursor.run_of_erasure {cursor other : Cursor}
    (h : cursor.ahead.map Xml.Element.erasure = other.ahead.map Xml.Element.erasure)
    (name : String) (limit : MaxOccurs) :
    (cursor.run name limit).map Xml.Element.erasure =
      (other.run name limit).map Xml.Element.erasure := by
  have hnamed : ∀ elements : List Xml.Element,
      (elements.takeWhile (·.name == name)).map Xml.Element.erasure =
        (elements.map Xml.Element.erasure).takeWhile (·.name == name) := by
    intro elements
    rw [List.takeWhile_map]
    rfl
  have hlength := congrArg List.length
    ((hnamed cursor.ahead).trans (h ▸ (hnamed other.ahead).symm))
  rw [List.length_map, List.length_map] at hlength
  rw [run, run, List.map_take, List.map_take, hnamed, hnamed, h, hlength]

end SchemaForms
