import SchemaForms.Proofs.Advance
import SchemaForms.Proofs.Origins
import SchemaForms.Proofs.Replacements
import SchemaForms.Proofs.WrittenDocuments

/-!
# Compilations over two instances

Two instances that differ inside one element are compiled side by side. Forms
that were made of them differ at most at the node that was compiled from this
element, and builds that are composed of others keep this.
-/

namespace SchemaForms

/-! ## Forms that differ at one node -/

def Options.SameButMessage (options other : Options) : Prop :=
  ∀ key, key ≠ OptionKey.mismatch → options.get? key = other.get? key

structure FormLabel.SameButData (label other : FormLabel) : Prop where
  kind : label.kind = other.kind
  tag : label.tag = other.tag
  path : label.path = other.path
  space : label.space = other.space
  origin : label.origin = other.origin
  options : label.options.SameButMessage other.options

/-- The forms are the same, but for sources, outside of the node that was compiled from the
element of that number. This node has the same label but for what the element holds. -/
inductive Form.SameOutside (number : Nat) : Form → Form → Prop
  | replaced {label other : FormLabel} {children others : List Form} :
      label.isFrom number = true → other.isFrom number = true → label.SameButData other →
      SameOutside number (.node label children) (.node other others)
  | kept {label other : FormLabel} {children others : List Form} :
      label.isFrom number = false → other.isFrom number = false →
      { label with source := none } = { other with source := none } →
      List.Forall₂ (SameOutside number) children others →
      SameOutside number (.node label children) (.node other others)

theorem Options.SameButMessage.insert {options other : Options} (h : options.SameButMessage other)
    (key : String) (value : Scalar) :
    Options.SameButMessage (options.insert key value) (other.insert key value) := by
  intro found hfound
  by_cases hkey : found = key
  · subst hkey
    rw [Text.Dictionary.get?_insert_self, Text.Dictionary.get?_insert_self]
  · rw [Text.Dictionary.get?_insert_of_ne _ hkey, Text.Dictionary.get?_insert_of_ne _ hkey]
    exact h found hfound

theorem Options.SameButMessage.remark {options other : Options}
    (h : options.SameButMessage other) (message again : String) :
    (options.remark message).SameButMessage (other.remark again) := by
  intro key hkey
  rw [get?_remark _ _ hkey, get?_remark _ _ hkey]
  exact h key hkey

namespace Form

section

variable {number : Nat} {form other : Form}

mutual
theorem SameOutside.refl (number : Nat) (form : Form) : form.SameOutside number form := by
  cases form with
  | node label children =>
      cases hfrom : label.isFrom number with
      | true => exact .replaced hfrom hfrom ⟨rfl, rfl, rfl, rfl, rfl, fun _ _ => rfl⟩
      | false => exact .kept hfrom hfrom rfl (sameOutside_refl number children)

theorem sameOutside_refl (number : Nat) (forms : List Form) :
    List.Forall₂ (SameOutside number) forms forms := by
  cases forms with
  | nil => exact .nil
  | cons form rest => exact .cons (.refl number form) (sameOutside_refl number rest)
end

theorem SameOutside.mapOptions (h : form.SameOutside number other) {change : Options → Options}
    (hchange : ∀ options others : Options, options.SameButMessage others →
      (change options).SameButMessage (change others)) :
    (form.mapOptions change).SameOutside number (other.mapOptions change) := by
  cases h with
  | replaced hfrom hother hlabel =>
      exact .replaced hfrom hother ⟨hlabel.kind, hlabel.tag, hlabel.path, hlabel.space,
        hlabel.origin, hchange _ _ hlabel.options⟩
  | @kept label other children others hfrom hother hlabel hchildren =>
      refine .kept hfrom hother ?_ hchildren
      obtain ⟨kind, tag, value, options, path, space, origin, source⟩ := label
      obtain ⟨kind', tag', value', options', path', space', origin', source'⟩ := other
      simp only [FormLabel.mk.injEq, and_true] at hlabel ⊢
      obtain ⟨rfl, rfl, rfl, rfl, rfl, rfl, rfl⟩ := hlabel
      simp

theorem SameOutside.remarkWith (h : form.SameOutside number other) (error : Option Mismatch) :
    (remarkWith error form).SameOutside number (SchemaForms.remarkWith error other) := by
  cases error with
  | none => exact h
  | some error => exact h.mapOptions fun _ _ hsame => hsame.remark _ _

theorem SameOutside.insertOption (h : form.SameOutside number other) (key : String)
    (value : Scalar) :
    (form.insertOption key value).SameOutside number (other.insertOption key value) :=
  h.mapOptions fun _ _ hsame => hsame.insert key value

theorem SameOutside.tag_eq (h : form.SameOutside number other) :
    form.label.tag = other.label.tag := by
  cases h with
  | replaced _ _ hlabel => exact hlabel.tag
  | kept _ _ hlabel _ => exact (FormLabel.mk.inj hlabel).2.1

mutual
/-- If no node was compiled from the element, the forms are the same. -/
theorem SameOutside.unsourced_eq {form other : Form} (h : form.SameOutside number other)
    (hnone : ∀ label ∈ form.labels, label.isFrom number = false) :
    form.unsourced = other.unsourced := by
  cases form with
  | node label children =>
      rw [labels, List.forall_mem_cons] at hnone
      cases h with
      | replaced hfrom _ _ => rw [hnone.1] at hfrom; cases hfrom
      | kept _ _ hlabel hchildren =>
          rw [unsourced, unsourced, hlabel, unsourcedAll_eq hchildren hnone.2]

theorem unsourcedAll_eq {forms others : List Form}
    (h : List.Forall₂ (SameOutside number) forms others)
    (hnone : ∀ label ∈ labelsOf forms, label.isFrom number = false) :
    unsourcedAll forms = unsourcedAll others := by
  cases forms with
  | nil =>
      cases h
      rfl
  | cons form rest =>
      rw [labelsOf, List.forall_mem_append] at hnone
      cases h with
      | cons hform hrest =>
          rw [unsourcedAll, unsourcedAll, hform.unsourced_eq hnone.1, unsourcedAll_eq hrest hnone.2]
end

end

end Form

/-! ## States over two instances -/

structure BuildState.Alike (number : Nat) (state other : BuildState) : Prop where
  steps : state.steps = other.steps
  attributes : state.cursor.map (·.parent.tag.attributes) =
    other.cursor.map (·.parent.tag.attributes)
  ahead : List.Forall₂ (Xml.Element.SameOutside number) state.ahead other.ahead

namespace BuildState.Alike

variable {number : Nat} {state other : BuildState}

theorem cursors (h : state.Alike number other) :
    (state.cursor = none ∧ other.cursor = none) ∨
      ∃ cursor also, state.cursor = some cursor ∧ other.cursor = some also ∧
        List.Forall₂ (Xml.Element.SameOutside number) cursor.ahead also.ahead := by
  have hattributes := h.attributes
  have hahead := h.ahead
  cases hcursor : state.cursor <;> cases hother : other.cursor <;>
    simp only [BuildState.ahead, hcursor, hother, Option.map_none, Option.map_some]
      at hattributes hahead
  · exact .inl ⟨rfl, rfl⟩
  · cases hattributes
  · cases hattributes
  · exact .inr ⟨_, _, rfl, rfl, hahead⟩

theorem nextPlace_eq (h : state.Alike number other) (name : String) :
    state.nextPlace name = other.nextPlace name := by
  rw [nextPlace, nextPlace, h.steps]

theorem givePlace (h : state.Alike number other) (name : String) :
    (state.givePlace name).Alike number (other.givePlace name) :=
  ⟨congrArg (name :: ·) h.steps, h.attributes, h.ahead⟩

theorem map_next?_eq (h : state.Alike number other) :
    state.next?.map Xml.Element.name = other.next?.map Xml.Element.name := by
  rw [next?_eq_head?, next?_eq_head?]
  exact Xml.head?_map_name_eq h.ahead

theorem withoutInstance_eq (h : state.Alike number other) :
    { state with cursor := none } = ({ other with cursor := none } : BuildState) := by
  rw [h.steps]

end BuildState.Alike

/-! ## Builds that go side by side -/

/-- From states that are alike, the builds make forms that are the same outside, and leave
states that are alike, if both succeed. -/
def Build.Lockstep (number : Nat) (build other : Build) : Prop :=
  ∀ state second forms others after later, state.Alike number second →
    build state = .ok (forms, after) → other second = .ok (others, later) →
      List.Forall₂ (Form.SameOutside number) forms others ∧ after.Alike number later

namespace Build.Lockstep

variable {number : Nat} {build other first second : Build}

theorem nothing (number : Nat) : Build.nothing.Lockstep number .nothing := by
  intro state second forms others after later halike hrun hother
  obtain ⟨rfl, rfl⟩ := Build.nothing_eq_ok.mp hrun
  obtain ⟨rfl, rfl⟩ := Build.nothing_eq_ok.mp hother
  exact ⟨.nil, halike⟩

theorem emit (number : Nat) (form : Form) :
    (Build.emit form).Lockstep number (Build.emit form) := by
  intro state second forms others after later halike hrun hother
  obtain ⟨rfl, rfl⟩ := Build.emit_eq_ok.mp hrun
  obtain ⟨rfl, rfl⟩ := Build.emit_eq_ok.mp hother
  exact ⟨Form.sameOutside_refl number _, halike⟩

theorem ofFault {α : Type} {outcome : Except SchemaFault α} {next following : α → Build}
    (h : ∀ value, outcome = .ok value → (next value).Lockstep number (following value)) :
    (Build.ofFault outcome next).Lockstep number (Build.ofFault outcome following) := by
  intro state second forms others after later halike hrun hother
  obtain ⟨value, hvalue, hrun⟩ := Build.ofFault_eq_ok.mp hrun
  obtain ⟨same, hsame, hother⟩ := Build.ofFault_eq_ok.mp hother
  cases hvalue.symm.trans hsame
  exact h value hvalue _ _ _ _ _ _ halike hrun hother

theorem andThen (hfirst : first.Lockstep number build) (hsecond : second.Lockstep number other) :
    (first.andThen second).Lockstep number (build.andThen other) := by
  intro state start forms others after later halike hrun hother
  obtain ⟨before, middle, rest, hbefore, hrest, rfl⟩ := Build.andThen_eq_ok.mp hrun
  obtain ⟨before', middle', rest', hbefore', hrest', rfl⟩ := Build.andThen_eq_ok.mp hother
  obtain ⟨hforms, hmiddle⟩ := hfirst _ _ _ _ _ _ halike hbefore hbefore'
  obtain ⟨hothers, hafter⟩ := hsecond _ _ _ _ _ _ hmiddle hrest hrest'
  exact ⟨List.rel_append hforms hothers, hafter⟩

theorem all {builds others : List Build} (h : List.Forall₂ (Lockstep number) builds others) :
    (Build.all builds).Lockstep number (Build.all others) := by
  induction h with
  | nil => exact nothing number
  | cons hfirst _ ih => exact hfirst.andThen ih

theorem all_map {α : Type} {parts : List α} {make also : α → Build}
    (h : ∀ part ∈ parts, (make part).Lockstep number (also part)) :
    (Build.all (parts.map make)).Lockstep number (Build.all (parts.map also)) := by
  refine all ?_
  rw [List.forall₂_map_left_iff, List.forall₂_map_right_iff, List.forall₂_same]
  exact h

theorem replicate (h : build.Lockstep number other) (count : Nat) :
    (Build.all (List.replicate count build)).Lockstep number
      (Build.all (List.replicate count other)) := by
  induction count with
  | zero => exact nothing number
  | succ count ih => exact h.andThen ih

theorem mapForms (h : build.Lockstep number other) {change : Form → Form}
    (hchange : ∀ form also : Form, form.SameOutside number also →
      (change form).SameOutside number (change also)) :
    (build.mapForms change).Lockstep number (other.mapForms change) := by
  intro state second forms others after later halike hrun hother
  obtain ⟨made, hmade, rfl⟩ := Build.mapForms_eq_ok.mp hrun
  obtain ⟨also, halso, rfl⟩ := Build.mapForms_eq_ok.mp hother
  obtain ⟨hforms, hafter⟩ := h _ _ _ _ _ _ halike hmade halso
  refine ⟨?_, hafter⟩
  rw [List.forall₂_map_left_iff, List.forall₂_map_right_iff]
  exact hforms.imp hchange

theorem remarked (h : build.Lockstep number other) (error : Option Mismatch) :
    (build.mapForms (remarkWith error)).Lockstep number (other.mapForms (remarkWith error)) :=
  h.mapForms fun _ _ hsame => hsame.remarkWith error

theorem withoutInstance (number : Nat) (build : Build) :
    build.withoutInstance.Lockstep number build.withoutInstance := by
  intro state second forms others after later halike hrun hother
  obtain ⟨last, hlast, rfl⟩ := Build.withoutInstance_eq_ok.mp hrun
  obtain ⟨last', hlast', rfl⟩ := Build.withoutInstance_eq_ok.mp hother
  rw [halike.withoutInstance_eq] at hlast
  cases hlast.symm.trans hlast'
  exact ⟨Form.sameOutside_refl number _, rfl, halike.attributes, halike.ahead⟩

theorem grouped (h : build.Lockstep number other) (compositor : Compositor) (node : Xml.Element)
    (bounds : Bounds) (path : String) :
    (build.grouped compositor node bounds path).Lockstep number
      (other.grouped compositor node bounds path) := by
  intro state second forms others after later halike hrun hother
  obtain ⟨children, last, hchildren, rfl, rfl⟩ := Build.grouped_eq_ok.mp hrun
  obtain ⟨children', last', hchildren', rfl, rfl⟩ := Build.grouped_eq_ok.mp hother
  obtain ⟨hforms, hlast⟩ := h _ _ _ _ _ _ halike hchildren hchildren'
  rw [hlast.nextPlace_eq]
  exact ⟨.cons (.kept rfl rfl rfl hforms) .nil, hlast.givePlace _⟩

end Build.Lockstep

/-! ## The next element -/

theorem endsAfter_congr {state other : BuildState}
    (h : state.next?.map Xml.Element.name = other.next?.map Xml.Element.name) (repeated : Bool)
    (names : List String) (bounds : Bounds) (count : Nat) :
    endsAfter repeated names bounds count state.next? =
      endsAfter repeated names bounds count other.next? := by
  have hbegins : (state.next?.any fun element => names.contains element.name) =
      other.next?.any fun element => names.contains element.name := by
    have hnames := congrArg (Option.any names.contains) h
    rwa [Option.any_map, Option.any_map] at hnames
  rw [endsAfter, endsAfter, hbegins]

theorem alternativeFor_congr {state other : BuildState}
    (h : state.next?.map Xml.Element.name = other.next?.map Xml.Element.name) (schema : Schema)
    (alternatives : List Particle) :
    alternativeFor schema alternatives state.next? =
      alternativeFor schema alternatives other.next? := by
  cases hnext : state.next? <;> cases hother : other.next? <;>
    simp only [hnext, hother, Option.map_none, Option.map_some] at h
  · rfl
  · cases h
  · cases h
  · rw [alternativeFor, alternativeFor, Option.some.inj h]

/-! ## Repetitions -/

theorem Build.Lockstep.repeatOver {number : Nat} {build other : Build}
    (h : build.Lockstep number other) (repeated : Bool) (names : List String) (bounds : Bounds)
    (tag : String) (fuel count : Nat) :
    (SchemaForms.repeatOver repeated names bounds tag build fuel count).Lockstep number
      (SchemaForms.repeatOver repeated names bounds tag other fuel count) := by
  induction fuel generalizing count with
  | zero => exact nothing number
  | succ fuel ih =>
      intro state second forms others after later halike hrun hother
      have hends := endsAfter_congr halike.map_next?_eq repeated names bounds count
      simp only [SchemaForms.repeatOver] at hrun hother
      rw [← hends] at hother
      split at hrun <;> rename_i hlast
      · rw [if_pos hlast] at hother
        cases hrun
        cases hother
        exact ⟨.nil, halike⟩
      · rw [if_neg hlast] at hother
        obtain ⟨before, middle, rest, hbefore, hrest, rfl⟩ := Build.andThen_eq_ok.mp hrun
        obtain ⟨before', middle', rest', hbefore', hrest', rfl⟩ := Build.andThen_eq_ok.mp hother
        obtain ⟨hforms, hmiddle⟩ := h.remarked _ _ _ _ _ _ _ halike hbefore hbefore'
        -- Both repetitions take equally many elements, so both end or both go on.
        rw [← hmiddle.ahead.length_eq, ← halike.ahead.length_eq] at hrest'
        split at hrest <;> rename_i htaken
        · rw [if_pos htaken] at hrest'
          cases hrest
          cases hrest'
          exact ⟨List.rel_append hforms .nil, hmiddle⟩
        · rw [if_neg htaken] at hrest'
          obtain ⟨hothers, hafter⟩ := ih _ _ _ _ _ _ _ hmiddle hrest hrest'
          exact ⟨List.rel_append hforms hothers, hafter⟩

end SchemaForms
