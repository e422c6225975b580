import Mathlib.Data.List.Forall2
import SchemaForms.Compile.Groups
import SchemaForms.Form.Written

/-!
# Forms and the messages in them

The elements that a form shows, and the messages about the instance that its
nodes carry. Selecting a node and remarking on it change neither its tag nor
what it shows.
-/

namespace SchemaForms

namespace Form

/-! ## Sizes -/

theorem size_le_sizeAll {form : Form} {forms : List Form} (h : form ∈ forms) :
    form.size ≤ sizeAll forms := by
  induction forms with
  | nil => cases h
  | cons first rest ih =>
      rw [sizeAll]
      rcases List.mem_cons.mp h with rfl | h
      · exact Nat.le_add_right _ _
      · exact Nat.le_add_left_of_le (ih h)

theorem size_lt_of_mem_content {form child : Form} (h : child ∈ form.content) :
    child.size < form.size := by
  obtain ⟨label, children⟩ := form
  have hchild := size_le_sizeAll h
  have hcontent := size_surfaceAll_le children
  rw [size]
  exact Nat.lt_succ_of_le (Nat.le_trans hchild hcontent)

theorem size_pos (form : Form) : 0 < form.size := by
  obtain ⟨label, children⟩ := form
  exact Nat.succ_pos _

mutual
theorem length_labels (form : Form) : form.labels.length = form.size := by
  cases form with
  | node label children =>
      rw [labels, List.length_cons, length_labelsOf children, size]

theorem length_labelsOf (forms : List Form) : (labelsOf forms).length = sizeAll forms := by
  cases forms with
  | nil => rfl
  | cons form rest =>
      rw [labelsOf, List.length_append, length_labels form, length_labelsOf rest, sizeAll]
end

/-! ## Elements that are shown -/

@[simp] theorem label_mapOptions (change : Options → Options) (form : Form) :
    (form.mapOptions change).label =
      { form.label with options := change form.label.options } := by
  cases form
  rfl

@[simp] theorem children_mapOptions (change : Options → Options) (form : Form) :
    (form.mapOptions change).children = form.children := by
  cases form
  rfl

theorem surfaceAll_eq_flatMap (forms : List Form) : surfaceAll forms = forms.flatMap surface := by
  induction forms with
  | nil => rfl
  | cons form rest ih => simp [surfaceAll, ih]

@[simp] theorem surfaceAll_append (first second : List Form) :
    surfaceAll (first ++ second) = surfaceAll first ++ surfaceAll second := by
  simp [surfaceAll_eq_flatMap]

theorem surfaceSelected_eq_flatMap (forms : List Form) :
    surfaceSelected forms = (forms.filter isSelected).flatMap surface := by
  induction forms with
  | nil => rfl
  | cons form rest ih => cases h : form.isSelected <;> simp [surfaceSelected, h, ih]

@[simp] theorem surfaceSelected_append (first second : List Form) :
    surfaceSelected (first ++ second) = surfaceSelected first ++ surfaceSelected second := by
  induction first with
  | nil => rfl
  | cons form rest ih => simp [surfaceSelected, ih]

theorem surface_of_element {form : Form} (h : form.label.kind = .element) :
    form.surface = [form] := by
  obtain ⟨label, children⟩ := form
  simp only [Form.label] at h
  simp [surface, h]

theorem surface_of_attributeUse {form : Form} (h : form.label.kind = .attributeUse) :
    form.surface = [] := by
  obtain ⟨label, children⟩ := form
  simp only [Form.label] at h
  simp [surface, h]

theorem surfaceAll_of_elements {forms : List Form}
    (h : ∀ form ∈ forms, form.label.kind = .element) : surfaceAll forms = forms := by
  induction forms with
  | nil => rfl
  | cons form rest ih =>
      rw [surfaceAll, surface_of_element (h form (by simp)),
        ih fun other hother => h other (by simp [hother])]
      rfl

theorem surfaceAll_of_attributeUses {forms : List Form}
    (h : ∀ form ∈ forms, form.label.kind = .attributeUse) : surfaceAll forms = [] := by
  rw [surfaceAll_eq_flatMap, List.flatMap_eq_nil_iff]
  exact fun form hform => surface_of_attributeUse (h form hform)

theorem surface_mapOptions (change : Options → Options) (form : Form) :
    (form.mapOptions change).surface =
      form.surface.map fun shown =>
        if form.label.kind = .element then shown.mapOptions change else shown := by
  obtain ⟨label, children⟩ := form
  cases hkind : label.kind <;> simp [mapOptions, mapLabel, surface, Form.label, hkind]

theorem surfaceAll_map_mapOptions (change : Options → Options) (forms : List Form) :
    List.Forall₂ (fun shown changed => ∃ changes, changed = shown.mapOptions changes)
      (surfaceAll forms) (surfaceAll (forms.map (·.mapOptions change))) := by
  induction forms with
  | nil => exact .nil
  | cons form rest ih =>
      refine List.rel_append ?_ ih
      rw [surface_mapOptions, List.forall₂_map_right_iff, List.forall₂_same]
      intro shown _
      split
      · exact ⟨change, rfl⟩
      · exact ⟨id, by cases shown; rfl⟩

def shownTags (forms : List Form) : List String := (surfaceAll forms).map (·.label.tag)

theorem shownTags_map_mapOptions (change : Options → Options) (forms : List Form) :
    shownTags (forms.map (·.mapOptions change)) = shownTags forms := by
  induction forms with
  | nil => rfl
  | cons form rest ih =>
      simp only [shownTags, List.map_cons, surfaceAll, List.map_append] at ih ⊢
      rw [ih, surface_mapOptions, List.map_map]
      congr 2
      funext shown
      simp only [Function.comp]
      split <;> simp

@[simp] theorem isSelected_select (form : Form) (value : Bool) :
    (form.insertOption OptionKey.selected (.bool value)).isSelected = value := by
  cases value <;> simp [isSelected, insertOption, Options.selected?, Scalar.bool?]

theorem surfaceSelected_select (forms : List Form) (value : Bool) :
    surfaceSelected (forms.map (·.insertOption OptionKey.selected (.bool value))) =
      if value then surfaceAll (forms.map (·.insertOption OptionKey.selected (.bool value)))
      else [] := by
  induction forms with
  | nil => cases value <;> rfl
  | cons form rest ih =>
      rw [List.map_cons, surfaceSelected, ih, isSelected_select]
      cases value <;> simp [surfaceAll]

end Form

def Compositor.shown (compositor : Compositor) (children : List Form) : List Form :=
  match compositor with
  | .sequence => Form.surfaceAll children
  | .choice => Form.surfaceSelected children

@[simp] theorem surface_groupForm (compositor : Compositor) (node : Xml.Element)
    (bounds : Bounds) (path : String) (children : List Form) :
    (groupForm compositor node bounds path children).surface = compositor.shown children := by
  cases compositor <;> rfl

/-! ## Messages -/

theorem mismatch?_remark (options : Options) (message : String) :
    (options.remark message).mismatch? = some (options.mismatch?.getD message) := by
  cases hfirst : options.mismatch? with
  | none =>
      simp only [Options.remark, hfirst]
      simp [Options.mismatch?, Scalar.str?]
  | some first => simp [Options.remark, hfirst]

theorem Options.get?_remark (options : Options) (message : String) {key : String}
    (h : key ≠ OptionKey.mismatch) : (options.remark message).get? key = options.get? key := by
  rw [remark]
  split
  · rfl
  · exact Text.Dictionary.get?_insert_of_ne _ h _

namespace Form

def RemarksIn (kind : String → Prop) (form : Form) : Prop :=
  ∀ label ∈ form.labels, ∀ message, label.options.mismatch? = some message → kind message

/-- No node of the form carries a message. -/
def Unremarked (form : Form) : Prop := form.RemarksIn fun _ => False

/-- The nodes of the form carry messages about surplus occurrences only. -/
def SurplusOnly (form : Form) : Prop :=
  form.RemarksIn fun message =>
    ∃ tag occurrence max, message = (Mismatch.surplus tag occurrence max).message

theorem labelsOf_eq_flatMap (forms : List Form) : labelsOf forms = forms.flatMap labels := by
  induction forms with
  | nil => rfl
  | cons form rest ih => simp [labelsOf, ih]

theorem remarksIn_node {kind : String → Prop} {label : FormLabel} {children : List Form} :
    (node label children).RemarksIn kind ↔
      (∀ message, label.options.mismatch? = some message → kind message) ∧
        ∀ child ∈ children, child.RemarksIn kind := by
  simp only [RemarksIn, labels, labelsOf_eq_flatMap, List.mem_cons, List.mem_flatMap,
    forall_eq_or_imp, forall_exists_index, and_imp]
  constructor
  · rintro ⟨hlabel, hchildren⟩
    exact ⟨hlabel, fun child hchild label hin => hchildren label child hchild hin⟩
  · rintro ⟨hlabel, hchildren⟩
    exact ⟨hlabel, fun label child hchild hin => hchildren child hchild label hin⟩

theorem remarksIn_mapOptions {kind : String → Prop} {change : Options → Options}
    (h : ∀ options : Options, (change options).mismatch? = options.mismatch?) (form : Form) :
    (form.mapOptions change).RemarksIn kind ↔ form.RemarksIn kind := by
  obtain ⟨label, children⟩ := form
  simp only [mapOptions, mapLabel, remarksIn_node, h]

@[simp] theorem remarksIn_select {kind : String → Prop} (form : Form) (value : Scalar) :
    (form.insertOption OptionKey.selected value).RemarksIn kind ↔ form.RemarksIn kind := by
  refine remarksIn_mapOptions (fun options => ?_) form
  simp [Options.mismatch?, OptionKey.mismatch, OptionKey.selected]

theorem RemarksIn.of_remarkWith {kind : String → Prop} {error : Option Mismatch} {form : Form}
    (h : (remarkWith error form).RemarksIn kind) : form.RemarksIn kind := by
  cases error with
  | none => exact h
  | some error =>
      obtain ⟨label, children⟩ := form
      simp only [remarkWith, remark, mapOptions, mapLabel, remarksIn_node] at h ⊢
      refine ⟨fun message hmessage => h.1 message ?_, h.2⟩
      rw [mismatch?_remark, hmessage]
      rfl

theorem RemarksIn.message_of_remarkWith {kind : String → Prop} {error : Mismatch} {form : Form}
    (h : (remarkWith (some error) form).RemarksIn kind)
    (hform : form.label.options.mismatch? = none) : kind error.message := by
  obtain ⟨label, children⟩ := form
  simp only [Form.label] at hform
  simp only [remarkWith, remark, mapOptions, mapLabel, remarksIn_node] at h
  apply h.1
  rw [mismatch?_remark, hform]
  rfl

end Form

/-! ## What the nodes of a compilation carry -/

@[simp] theorem mismatch?_boundsOptions (bounds : Bounds) :
    (boundsOptions bounds).mismatch? = none := by
  simp [Options.mismatch?, boundsOptions, OptionKey.mismatch, OptionKey.min, OptionKey.max]

theorem mismatch?_withOption (options : Options) {key : String}
    (h : OptionKey.mismatch ≠ key) (value : Option String) :
    (withOption options key value).mismatch? = options.mismatch? := by
  cases value with
  | none => rfl
  | some value => simp [Options.mismatch?, withOption, h]

@[simp] theorem mismatch?_declaration_options (declaration : Declaration) (bounds : Bounds) :
    (declaration.options bounds).mismatch? = none := by
  rw [Declaration.options, mismatch?_withOption _ (by decide), mismatch?_withOption _ (by decide),
    mismatch?_boundsOptions]

@[simp] theorem mismatch?_attributeOptions (use declaration : Xml.Element) :
    (attributeOptions use declaration).mismatch? = none := by
  simp only [attributeOptions]
  split <;> simp [Options.mismatch?, OptionKey.mismatch, OptionKey.use, OptionKey.type]

theorem remarksIn_attributeForm (kind : String → Prop) (use declaration : Xml.Element)
    (name path : String) (occurrence : Option Xml.Element) :
    (attributeForm use declaration name path occurrence).RemarksIn kind := by
  simp [attributeForm, Form.remarksIn_node]

@[simp] theorem remarksIn_groupForm {kind : String → Prop} {compositor : Compositor}
    {node : Xml.Element} {bounds : Bounds} {path : String} {children : List Form} :
    (groupForm compositor node bounds path children).RemarksIn kind ↔
      ∀ child ∈ children, child.RemarksIn kind := by
  simp [groupForm, Form.remarksIn_node]

theorem remarksIn_elementForm {kind : String → Prop} {declaration : Declaration}
    {bounds : Bounds} {path : String} {occurrence : Option Xml.Element}
    {content : ComplexContent} :
    (elementForm declaration bounds path occurrence content).RemarksIn kind ↔
      (∀ error, content.mismatch = some error → kind error.message) ∧
        ∀ child ∈ content.children, child.RemarksIn kind := by
  constructor
  · intro h
    refine ⟨fun error herror => ?_, ?_⟩
    · rw [elementForm, herror] at h
      exact h.message_of_remarkWith (by simp [Form.label])
    · have hnode := h.of_remarkWith
      exact (Form.remarksIn_node.mp hnode).2
  · rintro ⟨herror, hchildren⟩
    rw [elementForm]
    cases hmismatch : content.mismatch with
    | none => simpa [remarkWith, Form.remarksIn_node] using hchildren
    | some error =>
        simp only [remarkWith, Form.remark, Form.mapOptions, Form.mapLabel, Form.remarksIn_node]
        refine ⟨fun message hmessage => ?_, hchildren⟩
        rw [mismatch?_remark, mismatch?_declaration_options] at hmessage
        cases hmessage
        exact herror error hmismatch

end SchemaForms
