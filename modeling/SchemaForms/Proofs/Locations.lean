import Mathlib.Data.List.Basic
import SchemaForms.Proofs.Paths
import SchemaForms.Proofs.Qualification

/-!
# Locations in a document

An element of a document is located by steps, one for each element that it stands in and
one for itself: its name and its number among the elements of this name that it stands
beside. Each element has one location, and its path tells the numbers.
-/

namespace SchemaForms

namespace Xml

/-! ## Locations -/

def ordinal (name : String) (before : List Element) : Nat := before.countP (·.name == name) + 1

/-- The steps that lead to an element of the document, the innermost one first. -/
inductive Document.Locates (document : Document) : Element → List (String × Nat) → Prop
  | root {before after : List Element} {element : Element} :
      document.roots = before ++ element :: after →
      Locates document element [(element.name, ordinal element.name before)]
  | child {parent element : Element} {outer : List (String × Nat)}
      {before after : List Element} :
      Locates document parent outer → parent.elements = before ++ element :: after →
      Locates document element ((element.name, ordinal element.name before) :: outer)

theorem elements_sublist_descendantsOf (nodes : List Node) :
    (nodes.filterMap Node.element?).Sublist (descendantsOf nodes) := by
  induction nodes with
  | nil => exact .slnil
  | cons node rest ih =>
      cases node with
      | element tag children => exact .cons_cons _ (ih.trans (List.sublist_append_right _ _))
      | text value => exact ih
      | comment value => exact ih
      | instruction => exact ih

mutual
theorem Node.descendants_sublist {node : Node} {element : Element}
    (h : element ∈ node.descendants) :
    (descendantsOf element.children).Sublist node.descendants := by
  cases node with
  | element tag children =>
      rcases List.mem_cons.mp h with rfl | h
      · exact List.sublist_cons_self _ _
      · exact (descendantsOf_sublist h).trans (List.sublist_cons_self _ _)
  | text value => cases h
  | comment value => cases h
  | instruction => cases h

theorem descendantsOf_sublist {nodes : List Node} {element : Element}
    (h : element ∈ descendantsOf nodes) :
    (descendantsOf element.children).Sublist (descendantsOf nodes) := by
  cases nodes with
  | nil => cases h
  | cons node rest =>
      rcases List.mem_append.mp h with h | h
      · exact (Node.descendants_sublist h).trans (List.sublist_append_left _ _)
      · exact (descendantsOf_sublist h).trans (List.sublist_append_right _ _)
end

namespace Document

variable {document : Document}

theorem nodup_elements (document : Document) : document.elements.Nodup := by
  refine List.Nodup.of_map Element.number ?_
  rw [numbers_eq_range]
  exact List.nodup_range

theorem nodup_roots (document : Document) : document.roots.Nodup := by
  rw [← document.holder_elements]
  exact (elements_sublist_descendantsOf _).nodup document.nodup_elements

theorem nodup_children {parent : Element} (hparent : parent ∈ document.elements) :
    parent.elements.Nodup :=
  ((elements_sublist_descendantsOf _).trans (descendantsOf_sublist hparent)).nodup
    document.nodup_elements

theorem mem_elements_of_mem_roots {element : Element} (h : element ∈ document.roots) :
    element ∈ document.elements := by
  rw [← document.holder_elements] at h
  exact (elements_sublist_descendantsOf _).subset h

theorem notMem_elements_of_mem_roots {element parent : Element} (h : element ∈ document.roots)
    (hparent : parent ∈ document.elements) : element ∉ parent.elements := by
  intro hin
  have hnumber := (parent_eq_some hparent (mem_elements_of_mem_roots h)).mpr hin
  rw [← document.holder_elements, Element.elements,
    show document.holder.children = document.roots.map Element.node from rfl,
    ← numberedAll_roots] at h
  rw [parent_of_mem_numberedAll h] at hnumber
  cases hnumber

theorem Locates.mem {element : Element} {steps : List (String × Nat)}
    (h : document.Locates element steps) : element ∈ document.elements := by
  induction h with
  | root hroots => exact mem_elements_of_mem_roots (List.mem_iff_append.mpr ⟨_, _, hroots⟩)
  | child _ hchildren ih =>
      exact mem_descendantsOf_trans ih (List.mem_iff_append.mpr ⟨_, _, hchildren⟩)

end Document

theorem eq_of_append_cons_eq {before after before' after' : List Element} {element : Element}
    (hnodup : (before ++ element :: after).Nodup)
    (h : before ++ element :: after = before' ++ element :: after') : before = before' := by
  obtain ⟨-, hrest, hapart⟩ := List.nodup_append.mp hnodup
  have hbefore : element ∉ before := fun hin => hapart element hin element List.mem_cons_self rfl
  have hafter : element ∉ after := (List.nodup_cons.mp hrest).1
  exact ((List.append_cons_inj_of_notMem hbefore hafter).mp h).1

/-- An element has one location. -/
theorem Document.Locates.unique {document : Document} {element : Element}
    {steps others : List (String × Nat)} (h : document.Locates element steps)
    (hother : document.Locates element others) : steps = others := by
  induction h generalizing others with
  | root hroots =>
      have hroot := List.mem_iff_append.mpr ⟨_, _, hroots⟩
      cases hother with
      | root hothers =>
          rw [eq_of_append_cons_eq (hroots ▸ document.nodup_roots) (hroots.symm.trans hothers)]
      | child hparent hchildren =>
          exact absurd (List.mem_iff_append.mpr ⟨_, _, hchildren⟩)
            (notMem_elements_of_mem_roots hroot hparent.mem)
  | child hparent hchildren ih =>
      have hchild := List.mem_iff_append.mpr ⟨_, _, hchildren⟩
      cases hother with
      | root hroots =>
          exact absurd hchild (notMem_elements_of_mem_roots
            (List.mem_iff_append.mpr ⟨_, _, hroots⟩) hparent.mem)
      | child houter hothers =>
          have helement := mem_descendantsOf_trans hparent.mem hchild
          have hnumber := (parent_eq_some hparent.mem helement).mpr hchild
          rw [(parent_eq_some houter.mem helement).mpr (List.mem_iff_append.mpr ⟨_, _, hothers⟩),
            Option.some.injEq] at hnumber
          obtain rfl := eq_of_number_eq houter.mem hparent.mem hnumber
          rw [ih houter, eq_of_append_cons_eq (hchildren ▸ nodup_children hparent.mem)
            (hchildren.symm.trans hothers)]

end Xml

/-! ## Paths of locations -/

def locationPath : List (String × Nat) → String
  | [] => ""
  | (name, place) :: outer => placePath (locationPath outer) name place

/-- The steps with each number moved on by its count. -/
def movedOn (steps : List (String × Nat)) (counts : List Nat) : List (String × Nat) :=
  List.zipWith (fun step count => (step.1, step.2 + count)) steps counts

theorem placePath_eq_iff {path other name : String} {place number : Nat} :
    placePath path name place = placePath other name number ↔ path = other ∧ place = number := by
  constructor
  · intro h
    have hlist := congrArg (fun text => text.toList.reverse) h
    simp only [toList_placePath, List.reverse_append, List.reverse_cons, List.append_assoc,
      List.reverse_nil, List.nil_append, List.cons_append, List.cons.injEq, true_and] at hlist
    obtain ⟨hplace, hrest⟩ := append_mark_inj
      (by simpa using not_mem_toString place (by decide))
      (by simpa using not_mem_toString number (by decide)) hlist
    rw [List.append_cancel_left_eq, List.cons.injEq, List.reverse_inj] at hrest
    exact ⟨String.toList_inj.mp hrest.2, toString_inj (List.reverse_inj.mp hplace)⟩
  · rintro ⟨rfl, rfl⟩
    rfl

theorem locationPath_movedOn_eq_iff {steps : List (String × Nat)} {counts : List Nat}
    (h : counts.length = steps.length) :
    locationPath (movedOn steps counts) = locationPath steps ↔ ∀ count ∈ counts, count = 0 := by
  induction steps generalizing counts with
  | nil =>
      obtain rfl := List.length_eq_zero_iff.mp h
      simp [movedOn]
  | cons step outer ih =>
      cases counts with
      | nil => cases h
      | cons count counts =>
          have hlength : counts.length = outer.length := Nat.succ.inj h
          have hmoved : movedOn (step :: outer) (count :: counts) =
              (step.1, step.2 + count) :: movedOn outer counts := rfl
          rw [hmoved, locationPath, locationPath, placePath_eq_iff, ih hlength,
            List.forall_mem_cons, and_comm, Nat.add_eq_left]

end SchemaForms
