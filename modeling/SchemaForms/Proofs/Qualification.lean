import SchemaForms.Proofs.References
import SchemaForms.Proofs.Replacements

/-!
# Qualified declarations

The elements of a document carry the numbers of the elements that they stand in. So a
declaration that a schema owns is global if it stands in the root itself, and the namespace
that it is given is the target namespace if it is global or qualified, and none otherwise.
-/

namespace SchemaForms

namespace Xml

/-! ## Parents -/

mutual
theorem Node.exists_outer {node : Node} {element : Element} (h : element ∈ node.descendants) :
    node.element? = some element ∨ ∃ outer ∈ node.descendants, element ∈ outer.elements := by
  cases node with
  | element tag children =>
      rw [Node.descendants, List.mem_cons] at h
      rcases h with rfl | h
      · exact .inl rfl
      rcases exists_outer_of_mem_descendantsOf h with h | ⟨outer, houter, h⟩
      · exact .inr ⟨⟨tag, children⟩, List.mem_cons_self, h⟩
      · exact .inr ⟨outer, List.mem_cons_of_mem _ houter, h⟩
  | text value => cases h
  | comment value => cases h
  | instruction => cases h

theorem exists_outer_of_mem_descendantsOf {nodes : List Node} {element : Element}
    (h : element ∈ descendantsOf nodes) :
    element ∈ nodes.filterMap Node.element? ∨
      ∃ outer ∈ descendantsOf nodes, element ∈ outer.elements := by
  cases nodes with
  | nil => cases h
  | cons node rest =>
      rw [descendantsOf, List.mem_append] at h
      simp only [descendantsOf, List.mem_append]
      rcases h with h | h
      · rcases Node.exists_outer h with h | ⟨outer, houter, h⟩
        · exact .inl (List.mem_filterMap.mpr ⟨node, List.mem_cons_self, h⟩)
        · exact .inr ⟨outer, .inl houter, h⟩
      · rcases exists_outer_of_mem_descendantsOf h with h | ⟨outer, houter, h⟩
        · obtain ⟨found, hfound, h⟩ := List.mem_filterMap.mp h
          exact .inl (List.mem_filterMap.mpr ⟨found, List.mem_cons_of_mem _ hfound, h⟩)
        · exact .inr ⟨outer, .inr houter, h⟩
end

theorem parent_of_mem_numberedAll {parent : Option Nat} {next : Nat} {nodes : List Node}
    {element : Element}
    (h : element ∈ (numberedAll parent next nodes).1.filterMap Node.element?) :
    element.tag.parent = parent := by
  induction nodes generalizing next with
  | nil => cases h
  | cons node rest ih =>
      cases node with
      | element tag children =>
          rcases List.mem_cons.mp h with rfl | h
          · rfl
          · exact ih h
      | text value => exact ih h
      | comment value => exact ih h
      | instruction => exact ih h

mutual
theorem Node.parent_numbered {parent : Option Nat} {next : Nat} {node : Node}
    {outer element : Element} (houter : outer ∈ (node.numbered parent next).1.descendants)
    (h : element ∈ outer.elements) : element.tag.parent = some outer.number := by
  cases node with
  | element tag children =>
      rcases List.mem_cons.mp houter with rfl | houter
      · exact parent_of_mem_numberedAll h
      · exact parent_numberedAll houter h
  | text value => cases houter
  | comment value => cases houter
  | instruction => cases houter

theorem parent_numberedAll {parent : Option Nat} {next : Nat} {nodes : List Node}
    {outer element : Element} (houter : outer ∈ descendantsOf (numberedAll parent next nodes).1)
    (h : element ∈ outer.elements) : element.tag.parent = some outer.number := by
  cases nodes with
  | nil => cases houter
  | cons node rest =>
      rcases List.mem_append.mp houter with houter | houter
      · exact Node.parent_numbered houter h
      · exact parent_numberedAll houter h
end

theorem Document.numberedAll_roots (document : Document) :
    (numberedAll none 0 (document.roots.map Element.node)).1 =
      document.roots.map Element.node := by
  rw [← map_node_numberedRoots]
  exact congrArg (List.map Element.node) document.areNumbered

theorem Document.parent_eq_some {document : Document} {outer element : Element}
    (houter : outer ∈ document.elements) (helement : element ∈ document.elements) :
    element.tag.parent = some outer.number ↔ element ∈ outer.elements := by
  have hparent : ∀ {above below : Element}, above ∈ document.elements →
      below ∈ above.elements → below.tag.parent = some above.number := by
    intro above below habove hbelow
    rw [elements, ← numberedAll_roots] at habove
    exact parent_numberedAll habove hbelow
  refine ⟨fun h => ?_, hparent houter⟩
  rcases exists_outer_of_mem_descendantsOf helement with htop | ⟨other, hother, hin⟩
  · rw [← numberedAll_roots] at htop
    rw [parent_of_mem_numberedAll htop] at h
    cases h
  · have hnumber := Option.some.inj (h.symm.trans (hparent hother hin))
    rwa [eq_of_number_eq houter hother hnumber]

end Xml

/-! ## Namespaces of declarations -/

def Schema.Qualifies (schema : Schema) (declaration : Xml.Element) : Prop :=
  declaration ∈ schema.root.elements ∨
    (declaration.attribute? "form").or (schema.root.attribute? "elementFormDefault") =
      some "qualified"

instance (schema : Schema) (declaration : Xml.Element) :
    Decidable (schema.Qualifies declaration) :=
  inferInstanceAs (Decidable (_ ∨ _))

def Schema.elementNamespace (schema : Schema) (declaration : Xml.Element) : String :=
  if schema.Qualifies declaration then schema.targetNamespace.getD "" else ""

theorem Schema.isQualified_eq_true {document : Xml.Document} {schema : Schema}
    (h : Schema.ofDocument document = .ok schema) {declaration : Xml.Element}
    (howns : schema.Owns declaration) :
    schema.isQualified declaration = true ↔ schema.Qualifies declaration := by
  rw [isQualified, Bool.or_eq_true, beq_iff_eq, beq_iff_eq,
    Xml.Document.parent_eq_some (owns_root h) howns, Qualifies]

theorem Schema.mem_root_of_reference {document : Xml.Document} {schema : Schema}
    (h : Schema.ofDocument document = .ok schema) {particle declaration : Xml.Element}
    (hreference : (particle.attribute? "ref").isSome = true)
    (hfollow : Schema.followReference schema.element particle = .ok declaration) :
    declaration ∈ schema.root.elements := by
  obtain ⟨-, hroot, hcomponents⟩ := Schema.ofDocument_eq_ok h
  obtain ⟨source, hsource⟩ := Option.isSome_iff_exists.mp hreference
  rw [followReference, hsource] at hfollow
  obtain ⟨name, -, hfound⟩ := bind_eq_ok.mp hfollow
  rw [element, lookup] at hfound
  split at hfound
  case h_2 => cases hfound
  case h_1 hcomponent =>
    cases hfound
    obtain ⟨component, hin, rfl, -⟩ := mem_components_of_component? hcomponent
    rw [hroot]
    exact (Schema.components?_eq_ok hcomponents component hin).1

theorem Schema.instanceNamespace_getD {document : Xml.Document} {schema : Schema}
    (h : Schema.ofDocument document = .ok schema) {declaration : Xml.Element}
    (howns : schema.Owns declaration) :
    (schema.instanceNamespace declaration).getD "" = schema.elementNamespace declaration := by
  simp only [instanceNamespace, elementNamespace, isQualified_eq_true h howns]
  split <;> rfl

end SchemaForms
