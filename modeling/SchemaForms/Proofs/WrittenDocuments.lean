import Mathlib.Data.List.Forall2
import Mathlib.Data.List.Nodup
import SchemaForms.Form.Json
import SchemaForms.Proofs.Forms

/-!
# Written documents

The elements that are written for the nodes of a form, and forms without the elements
that they were compiled from.
-/

namespace SchemaForms

namespace Form

/-! ## Written elements -/

/-- The element has the name, the attributes, the text and the elements that are
written for the node. Text around elements does not matter. -/
inductive WrittenAs : Form → Xml.Element → Prop
  | intro {form : Form} {element : Xml.Element} :
      element.name = form.label.tag →
      (∀ name value, element.attribute? name = some value ↔
        (name, value) ∈ form.writtenAttributes) →
      (form.content = [] → element.text = form.label.value.getD "") →
      List.Forall₂ WrittenAs form.content element.elements → WrittenAs form element

theorem WrittenAs.name {form : Form} {element : Xml.Element} (h : form.WrittenAs element) :
    element.name = form.label.tag := by
  cases h with
  | intro hname => exact hname

theorem WrittenAs.of_mapOptions {form : Form} {change : Options → Options}
    {element : Xml.Element} (h : (form.mapOptions change).WrittenAs element) :
    form.WrittenAs element := by
  obtain ⟨label, children⟩ := form
  cases h with
  | intro hname hattributes htext hcontent => exact .intro hname hattributes htext hcontent

theorem writtenAs_of_map_mapOptions {forms : List Form} {change : Options → Options}
    {written : List Xml.Element}
    (h : List.Forall₂ WrittenAs (surfaceAll (forms.map (·.mapOptions change))) written) :
    List.Forall₂ WrittenAs (surfaceAll forms) written := by
  have hchanged := surfaceAll_map_mapOptions change forms
  generalize surfaceAll forms = shown at hchanged ⊢
  generalize surfaceAll (forms.map (·.mapOptions change)) = others at hchanged h
  induction hchanged generalizing written with
  | nil =>
      cases h
      exact .nil
  | cons hsame _ ih =>
      obtain ⟨changes, rfl⟩ := hsame
      cases h with
      | cons hfirst hrest => exact .cons hfirst.of_mapOptions (ih hrest)

theorem names_of_writtenAs {forms : List Form} {written : List Xml.Element}
    (h : List.Forall₂ WrittenAs forms written) :
    written.map Xml.Element.name = forms.map (·.label.tag) := by
  induction h with
  | nil => rfl
  | cons hfirst _ ih => rw [List.map_cons, List.map_cons, hfirst.name, ih]

def isWrittenAs : Nat → Form → Xml.Element → Bool
  | 0, _, _ => false
  | levels + 1, form, element =>
      element.name == form.label.tag &&
        element.tag.attributes.all (·.space.isNone) &&
        element.tag.attributes.map (fun given => (given.name, given.value)) ==
          form.writtenAttributes &&
        decide (element.tag.attributes.map (·.name)).Nodup &&
        (!form.content.isEmpty || element.text == form.label.value.getD "") &&
        form.content.length == element.elements.length &&
        (form.content.zip element.elements).all fun pair =>
          isWrittenAs levels pair.1 pair.2

theorem attribute?_eq_some {element : Xml.Element}
    (hplain : ∀ given ∈ element.tag.attributes, given.space.isNone = true)
    (hnodup : (element.tag.attributes.map (·.name)).Nodup) {name value : String} :
    element.attribute? name = some value ↔
      (name, value) ∈ element.tag.attributes.map fun given => (given.name, given.value) := by
  rw [Xml.Element.attribute?, Option.map_eq_some_iff, List.mem_map]
  constructor
  · rintro ⟨given, hfound, rfl⟩
    have hname := List.find?_some hfound
    simp only [Bool.and_eq_true, beq_iff_eq] at hname
    exact ⟨given, List.mem_of_find?_eq_some hfound, by rw [hname.2]⟩
  · rintro ⟨given, hgiven, hsame⟩
    cases hsame
    cases hfound : element.tag.attributes.find? fun a => a.space.isNone && a.name == given.name with
    | none =>
        have hnot := List.find?_eq_none.mp hfound given hgiven
        simp [hplain given hgiven] at hnot
    | some other =>
        have hname := List.find?_some hfound
        simp only [Bool.and_eq_true, beq_iff_eq] at hname
        exact ⟨other, rfl, by
          rw [List.inj_on_of_nodup_map hnodup (List.mem_of_find?_eq_some hfound) hgiven hname.2]⟩

theorem writtenAs_of_isWrittenAs {levels : Nat} {form : Form} {element : Xml.Element}
    (h : isWrittenAs levels form element = true) : form.WrittenAs element := by
  induction levels generalizing form element with
  | zero => cases h
  | succ levels ih =>
      simp only [isWrittenAs, Bool.and_eq_true, beq_iff_eq, decide_eq_true_eq, List.all_eq_true,
        Bool.or_eq_true, Bool.not_eq_true', List.isEmpty_eq_false_iff] at h
      obtain ⟨⟨⟨⟨⟨⟨hname, hplain⟩, hattributes⟩, hnodup⟩, htext⟩, hlength⟩, hcontent⟩ := h
      refine .intro hname (fun name value => ?_) (fun hnone => htext.resolve_left (· hnone))
        (List.forall₂_iff_zip.mpr ⟨hlength, fun hpair => ih (hcontent _ hpair)⟩)
      rw [attribute?_eq_some hplain hnodup, hattributes]

/-! ## Forms without their sources -/

mutual
def unsourced : Form → Form
  | .node label children => .node { label with source := none } (unsourcedAll children)

def unsourcedAll : List Form → List Form
  | [] => []
  | form :: rest => unsourced form :: unsourcedAll rest
end

mutual
theorem toJson_unsourced (form : Form) : form.unsourced.toJson = form.toJson := by
  cases form with
  | node label children => rw [unsourced, toJson, toJson, toJsonAll_unsourcedAll children]

theorem toJsonAll_unsourcedAll (forms : List Form) :
    toJsonAll (unsourcedAll forms) = toJsonAll forms := by
  cases forms with
  | nil => rfl
  | cons form rest =>
      rw [unsourcedAll, toJsonAll, toJsonAll, toJson_unsourced form, toJsonAll_unsourcedAll rest]
end

mutual
theorem remarksIn_unsourced (kind : String → Prop) (form : Form) :
    form.unsourced.RemarksIn kind ↔ form.RemarksIn kind := by
  cases form with
  | node label children =>
      rw [unsourced, remarksIn_node, remarksIn_node]
      exact and_congr_right fun _ => remarksIn_unsourcedAll kind children

theorem remarksIn_unsourcedAll (kind : String → Prop) (forms : List Form) :
    (∀ form ∈ unsourcedAll forms, form.RemarksIn kind) ↔ ∀ form ∈ forms, form.RemarksIn kind := by
  cases forms with
  | nil => rfl
  | cons form rest =>
      rw [unsourcedAll, List.forall_mem_cons, List.forall_mem_cons,
        remarksIn_unsourced kind form, remarksIn_unsourcedAll kind rest]
end

end Form

end SchemaForms
