import SchemaForms.Proofs.Agreement
import SchemaForms.Proofs.WrittenDocuments

/-!
# Forms that are reopened

A form is reopened as another one if both have the same nodes, with the same tags, values,
paths and options. Only messages about the instance may be lost: those about what is not
written again.
-/

namespace SchemaForms

/-! ## Options -/

namespace Options

theorem ordered_remark {options : Options} (h : options.Ordered) (message : String) :
    (options.remark message).Ordered := by
  unfold remark
  split
  · exact h
  · exact h.insert _ _

def ReopenedAs (options again : Options) : Prop :=
  again = options ∨
    (options.mismatch?.isSome = true ∧ options.AgreeBut [OptionKey.mismatch] again)

namespace ReopenedAs

variable {options again : Options}

theorem refl (options : Options) : options.ReopenedAs options := .inl rfl

theorem eraseAll_eq (h : options.ReopenedAs again) :
    options.eraseAll [OptionKey.mismatch] = again.eraseAll [OptionKey.mismatch] := by
  rcases h with rfl | ⟨-, hagree⟩
  · rfl
  · exact hagree.eraseAll_eq

theorem insert (h : options.ReopenedAs again) {key : String} (hkey : key ≠ OptionKey.mismatch)
    (value : Scalar) : ReopenedAs (options.insert key value) (again.insert key value) := by
  rcases h with rfl | ⟨hremarked, hagree⟩
  · exact refl _
  · refine .inr ⟨?_, hagree.insert (.inr rfl)⟩
    rw [mismatch?, Text.Dictionary.get?_insert_of_ne _ hkey.symm]
    exact hremarked

theorem remark_left (h : options.ReopenedAs again) (hordered : options.Ordered)
    (message : String) : (options.remark message).ReopenedAs again := by
  have hagree : options.AgreeBut [OptionKey.mismatch] again := by
    rcases h with rfl | ⟨-, hagree⟩
    · exact .refl _ hordered
    · exact hagree
  refine .inr ⟨by simp [mismatch?_remark], ordered_remark hordered message,
    hagree.otherOrdered, fun key hkey => ?_⟩
  rw [get?_remark _ _ (by simpa using hkey)]
  exact hagree.same key hkey

theorem remark (h : options.ReopenedAs again) (message : String) :
    (options.remark message).ReopenedAs (again.remark message) := by
  rcases h with rfl | ⟨-, hagree⟩
  · exact refl _
  · refine .inr ⟨by simp [mismatch?_remark], ordered_remark hagree.ordered message,
      ordered_remark hagree.otherOrdered message, fun key hkey => ?_⟩
    rw [get?_remark _ _ (by simpa using hkey), get?_remark _ _ (by simpa using hkey)]
    exact hagree.same key hkey

end ReopenedAs

end Options

theorem Declaration.ordered_options (declaration : Declaration) (bounds : Bounds) :
    (declaration.options bounds).Ordered := by
  have hbounds : (boundsOptions bounds).Ordered :=
    (Text.Dictionary.ordered_empty.insert _ _).insert _ _
  exact (((Options.AgreeBut.refl [] hbounds).withOption (.inr rfl)).withOption (.inr rfl)).ordered

/-! ## Forms -/

structure FormLabel.ReopenedAs (label again : FormLabel) : Prop where
  kind : label.kind = again.kind
  tag : label.tag = again.tag
  value : label.value = again.value
  options : label.options.ReopenedAs again.options
  path : label.path = again.path
  space : label.space = again.space
  origin : label.origin = again.origin

theorem FormLabel.ReopenedAs.refl (label : FormLabel) : label.ReopenedAs label :=
  ⟨rfl, rfl, rfl, .refl _, rfl, rfl, rfl⟩

namespace Form

inductive ReopenedAs : Form → Form → Prop
  | node {label again : FormLabel} {children others : List Form} :
      label.ReopenedAs again → List.Forall₂ ReopenedAs children others →
      ReopenedAs (.node label children) (.node again others)

mutual
theorem ReopenedAs.refl (form : Form) : form.ReopenedAs form := by
  cases form with
  | node label children => exact .node (.refl label) (reopenedAs_self children)

theorem reopenedAs_self (forms : List Form) : List.Forall₂ ReopenedAs forms forms := by
  cases forms with
  | nil => exact .nil
  | cons form rest => exact .cons (.refl form) (reopenedAs_self rest)
end

mutual
theorem ReopenedAs.without_eq {form again : Form} (h : form.ReopenedAs again) :
    form.without [OptionKey.mismatch] = again.without [OptionKey.mismatch] := by
  cases h with
  | node hlabel hchildren =>
      rw [without, without, hlabel.kind, hlabel.tag, hlabel.value, hlabel.options.eraseAll_eq,
        hlabel.path, hlabel.space, hlabel.origin, withoutAll_of_reopenedAs hchildren]

theorem withoutAll_of_reopenedAs {forms others : List Form}
    (h : List.Forall₂ ReopenedAs forms others) :
    withoutAll [OptionKey.mismatch] forms = withoutAll [OptionKey.mismatch] others := by
  cases h with
  | nil => rfl
  | cons hform hrest =>
      rw [withoutAll, withoutAll, hform.without_eq, withoutAll_of_reopenedAs hrest]
end

mutual
theorem ReopenedAs.unsourced_eq {form again : Form} (h : form.ReopenedAs again)
    (hform : form.Unremarked) : again.unsourced = form.unsourced := by
  cases h with
  | @node label other children others hlabel hchildren =>
      obtain ⟨hnone, hbelow⟩ := remarksIn_node.mp hform
      have hoptions : other.options = label.options :=
        hlabel.options.resolve_right fun hremarked => by
          obtain ⟨message, hmessage⟩ := Option.isSome_iff_exists.mp hremarked.1
          exact hnone message hmessage
      rw [unsourced, unsourced, unsourcedAll_of_reopenedAs hchildren hbelow, hoptions,
        hlabel.kind, hlabel.tag, hlabel.value, hlabel.path, hlabel.space, hlabel.origin]

theorem unsourcedAll_of_reopenedAs {forms others : List Form}
    (h : List.Forall₂ ReopenedAs forms others) (hforms : ∀ form ∈ forms, form.Unremarked) :
    unsourcedAll others = unsourcedAll forms := by
  cases h with
  | nil => rfl
  | cons hform hrest =>
      rw [List.forall_mem_cons] at hforms
      rw [unsourcedAll, unsourcedAll, hform.unsourced_eq hforms.1,
        unsourcedAll_of_reopenedAs hrest hforms.2]
end

namespace ReopenedAs

variable {form again : Form}

theorem toJson_eq (h : form.ReopenedAs again) (hform : form.Unremarked) :
    again.toJson = form.toJson ∧ again.Unremarked := by
  have hsame := h.unsourced_eq hform
  constructor
  · rw [← toJson_unsourced, hsame, toJson_unsourced]
  · rw [Unremarked, ← remarksIn_unsourced, hsame, remarksIn_unsourced]
    exact hform

theorem mapOptions (h : form.ReopenedAs again) {change : Options → Options}
    (hchange : ∀ options others : Options, options.ReopenedAs others →
      (change options).ReopenedAs (change others)) :
    (form.mapOptions change).ReopenedAs (again.mapOptions change) := by
  cases h with
  | node hlabel hchildren =>
      exact .node { hlabel with options := hchange _ _ hlabel.options } hchildren

theorem remarkWith (h : form.ReopenedAs again) (error : Option Mismatch) :
    (remarkWith error form).ReopenedAs (SchemaForms.remarkWith error again) := by
  cases error with
  | none => exact h
  | some error => exact h.mapOptions fun _ _ hoptions => hoptions.remark error.message

theorem remarkWith_left (h : form.ReopenedAs again) (hordered : form.label.options.Ordered)
    (error : Option Mismatch) : (SchemaForms.remarkWith error form).ReopenedAs again := by
  cases error with
  | none => exact h
  | some error =>
      cases h with
      | node hlabel hchildren =>
          have hoptions := hlabel.options.remark_left hordered error.message
          exact .node { hlabel with options := hoptions } hchildren

end ReopenedAs

theorem reopenedAs_select {forms others : List Form} (h : List.Forall₂ ReopenedAs forms others)
    (value : Scalar) :
    List.Forall₂ ReopenedAs (forms.map (·.insertOption OptionKey.selected value))
      (others.map (·.insertOption OptionKey.selected value)) := by
  rw [List.forall₂_map_left_iff, List.forall₂_map_right_iff]
  exact h.imp fun _ _ hform =>
    hform.mapOptions fun _ _ hoptions => hoptions.insert (by decide) value

theorem reopenedAs_groupForm {children others : List Form}
    (h : List.Forall₂ ReopenedAs children others) (compositor : Compositor) (node : Xml.Element)
    (bounds : Bounds) (path : String) :
    (groupForm compositor node bounds path children).ReopenedAs
      (groupForm compositor node bounds path others) :=
  .node (.refl _) h

end Form

structure ComplexContent.ReopenedAs (content again : ComplexContent) : Prop where
  value : content.value = again.value
  children : List.Forall₂ Form.ReopenedAs content.children again.children
  fits : again.mismatch = none

theorem ComplexContent.ReopenedAs.elementForm {content again : ComplexContent}
    (h : content.ReopenedAs again) (declaration : Declaration) (bounds : Bounds) (path : String)
    (first second : Option Xml.Element) :
    (elementForm declaration bounds path first content).ReopenedAs
      (SchemaForms.elementForm declaration bounds path second again) := by
  rw [SchemaForms.elementForm, SchemaForms.elementForm, h.fits]
  refine Form.ReopenedAs.remarkWith_left (.node ?_ h.children) ?_ content.mismatch
  · exact ⟨rfl, rfl, h.value, .refl _, rfl, rfl, rfl⟩
  · exact declaration.ordered_options bounds

theorem ordered_elementForm (declaration : Declaration) (bounds : Bounds) (path : String)
    (occurrence : Option Xml.Element) (content : ComplexContent) :
    (elementForm declaration bounds path occurrence content).label.options.Ordered := by
  rw [elementForm]
  cases content.mismatch with
  | none => exact declaration.ordered_options bounds
  | some error => exact Options.ordered_remark (declaration.ordered_options bounds) error.message

end SchemaForms
