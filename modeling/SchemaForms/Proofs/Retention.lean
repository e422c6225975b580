import Mathlib.Data.List.Forall2
import SchemaForms.Proofs.Advance
import SchemaForms.Proofs.References

/-!
# Nothing of an instance is lost

Whatever a compilation takes from an instance is shown by the form, in the order
of the instance and each element by a node of its own. Where an element of the
instance is not represented, a node carries a message other than one about a
surplus occurrence.
-/

namespace SchemaForms

/-! ## Elements and the nodes that represent them -/

def Form.OfText (schema : Schema) (form : Form) : Prop :=
  Declaration.contentType schema form.label.origin = .ok .simple ∨
    ∃ definition, Declaration.contentType schema form.label.origin = .ok (.complex definition) ∧
      hasSimpleContent definition = true

/-- The node represents the element: it has its name and its text, or some of the
elements in its content represent the children of the element, one each and in
their order. -/
inductive RepresentedBy (schema : Schema) : Xml.Element → Form → Prop
  | text {element : Xml.Element} {form : Form} :
      form.label.kind = .element → form.label.tag = element.name → form.OfText schema →
      element.elements = [] → simpleText element = .ok form.label.value →
      RepresentedBy schema element form
  | children {element : Xml.Element} {form : Form} :
      form.label.kind = .element → form.label.tag = element.name → ¬form.OfText schema →
      List.SublistForall₂ (RepresentedBy schema) element.elements form.content →
      RepresentedBy schema element form

variable {schema : Schema}

theorem RepresentedBy.mapOptions {element : Xml.Element} {form : Form}
    (h : RepresentedBy schema element form) (change : Options → Options) :
    RepresentedBy schema element (form.mapOptions change) := by
  obtain ⟨label, children⟩ := form
  cases h with
  | text hkind htag htext hnone hvalue => exact .text hkind htag htext hnone hvalue
  | children hkind htag htext hchildren => exact .children hkind htag htext hchildren

theorem RepresentedBy.remarkWith {element : Xml.Element} {form : Form}
    (h : RepresentedBy schema element form) (error : Option Mismatch) :
    RepresentedBy schema element (SchemaForms.remarkWith error form) := by
  cases error with
  | none => exact h
  | some error => exact h.mapOptions (·.remark error.message)

theorem surfaceAll_of_represented {elements : List Xml.Element} {forms : List Form}
    (h : List.Forall₂ (RepresentedBy schema) elements forms) : Form.surfaceAll forms = forms := by
  refine Form.surfaceAll_of_elements fun form hform => ?_
  obtain ⟨element, -, hrepresented⟩ := exists_of_forall₂ h hform
  cases hrepresented <;> assumption

/-! ## Parts of lists -/

theorem sublistForall₂_append {α β : Type} {related : α → β → Prop} {first second : List α}
    {shown others : List β} (hfirst : List.SublistForall₂ related first shown)
    (hsecond : List.SublistForall₂ related second others) :
    List.SublistForall₂ related (first ++ second) (shown ++ others) := by
  obtain ⟨some, hsome, hin⟩ := List.sublistForall₂_iff.mp hfirst
  obtain ⟨more, hmore, hinOthers⟩ := List.sublistForall₂_iff.mp hsecond
  exact List.sublistForall₂_iff.mpr
    ⟨some ++ more, List.rel_append hsome hmore, hin.append hinOthers⟩

theorem represented_mapOptions {elements : List Xml.Element} {forms : List Form}
    (h : List.SublistForall₂ (RepresentedBy schema) elements (Form.surfaceAll forms))
    (change : Options → Options) :
    List.SublistForall₂ (RepresentedBy schema) elements
      (Form.surfaceAll (forms.map (·.mapOptions change))) := by
  have hchanged := Form.surfaceAll_map_mapOptions change forms
  generalize Form.surfaceAll forms = shown at h hchanged
  generalize Form.surfaceAll (forms.map (·.mapOptions change)) = others at hchanged ⊢
  induction h generalizing others with
  | nil => exact .nil
  | cons hfirst _ ih =>
      cases hchanged with
      | cons hsame hrest =>
          obtain ⟨changes, rfl⟩ := hsame
          exact .cons (hfirst.mapOptions changes) (ih _ hrest)
  | cons_right _ ih =>
      cases hchanged with
      | cons _ hrest => exact .cons_right (ih _ hrest)

/-! ## Messages -/

def Mismatch.initial : Mismatch → Char
  | .surplus .. => 'o'
  | .foreignRoot .. => 't'
  | .elementsInText _ => '<'
  | .strayElement .. => '<'

theorem head?_toList_append {first : String} {initial : Char}
    (h : first.toList.head? = some initial) (rest : String) :
    (first ++ rest).toList.head? = some initial := by
  rw [String.toList_append, List.head?_append, h, Option.some_or]

theorem Mismatch.head?_message (error : Mismatch) :
    error.message.toList.head? = some error.initial := by
  cases error with
  | surplus tag occurrence max =>
      iterate 5 refine head?_toList_append ?_ _
      change "occurrence ".toList.head? = some 'o'
      decide +kernel
  | foreignRoot expected found =>
      iterate 4 refine head?_toList_append ?_ _
      change "the instance root is <".toList.head? = some 't'
      decide +kernel
  | elementsInText tag =>
      iterate 2 refine head?_toList_append ?_ _
      change "<".toList.head? = some '<'
      decide +kernel
  | strayElement tag found =>
      iterate 4 refine head?_toList_append ?_ _
      change "<".toList.head? = some '<'
      decide +kernel

theorem Mismatch.eq_surplus_of_message_eq {error : Mismatch} {tag : String}
    {occurrence max : Nat} (h : error.message = (Mismatch.surplus tag occurrence max).message) :
    ∃ tag occurrence max, error = .surplus tag occurrence max := by
  have hinitial : error.initial = 'o' := by
    have hhead := error.head?_message
    rw [h, head?_message, Option.some.injEq] at hhead
    exact hhead.symm
  cases error with
  | surplus tag occurrence max => exact ⟨tag, occurrence, max, rfl⟩
  | elementsInText tag => simp [initial] at hinitial
  | strayElement tag found => simp [initial] at hinitial
  | foreignRoot expected found => simp [initial] at hinitial

theorem simpleText_ne_surplus {element : Xml.Element} {tag : String} {occurrence max : Nat} :
    simpleText element ≠ .error (.surplus tag occurrence max) := by
  simp only [simpleText]
  split <;> simp

theorem mismatch_ne_surplus {deeper : Option Level} {context : Context}
    {declaration : Declaration} {path : String} {occurrence : Option Xml.Element}
    {content : ComplexContent}
    (h : elementContent deeper context declaration path occurrence = .ok content)
    {tag : String} {number max : Nat} : content.mismatch ≠ some (.surplus tag number max) := by
  intro hmismatch
  rcases elementContent_eq_ok.mp h with ⟨-, rfl⟩ |
    ⟨definition, level, children, after, -, -, -, -, rfl⟩
  · cases occurrence with
    | none => cases hmismatch
    | some occurrence =>
        cases htext : simpleText occurrence with
        | ok value => simp [simpleContent, htext] at hmismatch
        | error error =>
            simp only [simpleContent, htext, Option.some.injEq] at hmismatch
            exact simpleText_ne_surplus (hmismatch ▸ htext)
  · cases occurrence with
    | none => cases hmismatch
    | some occurrence =>
        simp only [contentValue] at hmismatch
        split at hmismatch
        · cases htext : simpleText occurrence with
          | ok value => simp [htext] at hmismatch
          | error error =>
              simp only [htext, Option.some.injEq] at hmismatch
              exact simpleText_ne_surplus (hmismatch ▸ htext)
        · split at hmismatch <;> cases hmismatch

theorem mismatch_eq_none_of_surplusOnly {deeper : Option Level} {context : Context}
    {declaration : Declaration} {bounds : Bounds} {path : String}
    {occurrence : Option Xml.Element} {content : ComplexContent}
    (hcontent : elementContent deeper context declaration path occurrence = .ok content)
    (h : (elementForm declaration bounds path occurrence content).SurplusOnly) :
    content.mismatch = none := by
  cases hmismatch : content.mismatch with
  | none => rfl
  | some error =>
      obtain ⟨tag, number, max, hmessage⟩ := (remarksIn_elementForm.mp h).1 error hmismatch
      obtain ⟨tag, number, max, rfl⟩ := Mismatch.eq_surplus_of_message_eq hmessage
      exact absurd hmismatch (mismatch_ne_surplus hcontent)

/-! ## What a run takes -/

/-- What the run takes from the instance is represented in what its forms show, if they
carry messages about surplus occurrences only. -/
def Retains (schema : Schema) (shown : List Form → List Form) (state : BuildState)
    (forms : List Form) (after : BuildState) : Prop :=
  ∃ taken, state.ahead = taken ++ after.ahead ∧
    ((∀ form ∈ forms, form.SurplusOnly) →
      List.SublistForall₂ (RepresentedBy schema) taken (shown forms))

theorem retains_additive {shown : List Form → List Form}
    (happend : ∀ first second, shown (first ++ second) = shown first ++ shown second) :
    Build.Additive (Retains schema shown) where
  nothing := fun state => ⟨[], rfl, fun _ => .nil⟩
  append := by
    rintro state middle after before rest ⟨first, hfirst, hbefore⟩ ⟨second, hsecond, hrest⟩
    refine ⟨first ++ second, by rw [hfirst, hsecond, List.append_assoc], fun hforms => ?_⟩
    rw [happend]
    exact sublistForall₂_append
      (hbefore fun form hform => hforms form (List.mem_append_left _ hform))
      (hrest fun form hform => hforms form (List.mem_append_right _ hform))

theorem Retains.of_cursor_eq {shown : List Form → List Form} {state after : BuildState}
    {forms : List Form} (h : after.cursor = state.cursor) :
    Retains schema shown state forms after :=
  ⟨[], by simp only [BuildState.ahead, h, List.nil_append], fun _ => .nil⟩

theorem Retains.mapOptions {state after : BuildState} {forms : List Form}
    (h : Retains schema Form.surfaceAll state forms after) (change : Options → Options)
    (hchange : ∀ form : Form, (form.mapOptions change).SurplusOnly → form.SurplusOnly) :
    Retains schema Form.surfaceAll state (forms.map (·.mapOptions change)) after := by
  obtain ⟨taken, hahead, hforms⟩ := h
  refine ⟨taken, hahead, fun hmarked => represented_mapOptions (hforms fun form hform => ?_) _⟩
  exact hchange form (hmarked _ (List.mem_map_of_mem hform))

theorem Retains.remarked {state after : BuildState} {forms : List Form}
    (h : Retains schema Form.surfaceAll state forms after) (error : Option Mismatch) :
    Retains schema Form.surfaceAll state (forms.map (remarkWith error)) after := by
  cases error with
  | none =>
      have hsame : remarkWith none = id := rfl
      rwa [hsame, List.map_id]
  | some error =>
      refine h.mapOptions (·.remark error.message) fun form hform => ?_
      have hmarked : (remarkWith (some error) form).SurplusOnly := hform
      exact hmarked.of_remarkWith

def Level.Retains (level : Level) (schema : Schema) : Prop :=
  ∀ context atLeast particle path, context.schema = schema →
    (level.particle context atLeast particle path).Ensures
      (SchemaForms.Retains schema Form.surfaceAll)

/-! ## Elements -/

theorem simpleText_eq_ok {element : Xml.Element} {value : Option String}
    (h : simpleText element = .ok value) : element.elements = [] := by
  simp only [simpleText] at h
  split at h
  · rename_i hempty
    exact List.isEmpty_iff.mp hempty
  · cases h

theorem contentValue_of_no_mismatch {definition occurrence : Xml.Element} {after : BuildState}
    (h : (contentValue definition after (some occurrence)).2 = none) :
    (hasSimpleContent definition = true ∧
        simpleText occurrence = .ok (contentValue definition after (some occurrence)).1) ∨
      (hasSimpleContent definition = false ∧ after.ahead = []) := by
  simp only [contentValue] at h ⊢
  cases hsimple : hasSimpleContent definition with
  | true =>
      refine .inl ⟨rfl, ?_⟩
      simp only [hsimple, if_true] at h ⊢
      cases htext : simpleText occurrence with
      | ok value => rfl
      | error error => simp [htext] at h
  | false =>
      refine .inr ⟨rfl, ?_⟩
      simp only [hsimple] at h
      cases hahead : after.ahead with
      | nil => rfl
      | cons unexpected rest => simp [hahead] at h

section

variable {deeper : Option Level} {context : Context} {path : String}

theorem buildItems_retains {level : Level} (hlevel : level.Retains schema)
    (hattributes : level.AttributesOnly) (hschema : context.schema = schema)
    (definition : Xml.Element) (occurrence : Option Xml.Element) :
    (buildItems level context definition path occurrence).Ensures
      (Retains schema Form.surfaceAll) := by
  refine Build.Ensures.all (retains_additive Form.surfaceAll_append) fun build hbuild => ?_
  obtain ⟨item, -, rfl⟩ := List.mem_map.mp hbuild
  intro state forms after hrun
  rcases buildItem_eq_ok hattributes hrun with ⟨-, particle, -, hparticle⟩ | ⟨-, rfl, -⟩
  · exact hlevel _ _ _ _ hschema _ _ _ hparticle
  · exact .of_cursor_eq rfl

variable (hschema : context.schema = schema)
  (hdeeper : ∀ level ∈ deeper, level.Retains schema ∧ level.AttributesOnly)
include hschema hdeeper

theorem CompiledFrom.represents {declaration : Declaration} {bounds : Bounds}
    {error : Option Mismatch} {occurrence : Xml.Element} {form : Form}
    (hdeclaration : Declaration.contentType schema declaration.element =
      .ok declaration.content)
    (hname : occurrence.name = declaration.name)
    (h : CompiledFrom deeper context declaration bounds error (some occurrence) form)
    (hform : form.SurplusOnly) : RepresentedBy schema occurrence form := by
  obtain ⟨place, content, hcontent, rfl⟩ := h
  have hform := hform.of_remarkWith
  have hmismatch := mismatch_eq_none_of_surplusOnly hcontent hform
  have hchildren := (remarksIn_elementForm.mp hform).2
  refine RepresentedBy.remarkWith ?_ error
  rw [elementForm, hmismatch]
  rcases elementContent_eq_ok.mp hcontent with ⟨hsimple, rfl⟩ |
    ⟨definition, level, children, after, hcomplex, hlevel, -, hitems, rfl⟩
  · rw [hsimple] at hdeclaration
    have htext :
        simpleText occurrence = .ok (simpleContent declaration (some occurrence)).value := by
      cases htext : simpleText occurrence with
      | ok value => simp [simpleContent, htext]
      | error error => simp [simpleContent, htext] at hmismatch
    exact .text rfl hname.symm (.inl hdeclaration) (simpleText_eq_ok htext) htext
  · rw [hcomplex] at hdeclaration
    rcases contentValue_of_no_mismatch hmismatch with ⟨hsimple, htext⟩ | ⟨hsimple, hahead⟩
    · exact .text rfl hname.symm (.inr ⟨definition, hdeclaration, hsimple⟩)
        (simpleText_eq_ok htext) htext
    · refine .children rfl hname.symm ?_ ?_
      · rintro (htype | ⟨other, htype, hother⟩)
        · cases hdeclaration.symm.trans htype
        · cases hdeclaration.symm.trans htype
          rw [hsimple] at hother
          cases hother
      · have hinner : (context.insideType definition).schema = schema := hschema
        obtain ⟨taken, htaken, hrepresented⟩ := buildItems_retains (hdeeper level hlevel).1
          (hdeeper level hlevel).2 hinner definition (some occurrence) _ _ _ hitems
        have htaken : occurrence.elements = taken := by
          rw [hahead, List.append_nil] at htaken
          exact htaken
        rw [htaken]
        exact hrepresented hchildren

theorem represented_of_taken {declaration : Declaration} {bounds : Bounds}
    (hdeclaration : Declaration.contentType schema declaration.element =
      .ok declaration.content) {taken : List Xml.Element} {made : List Form}
    (hnames : ∀ occurrence ∈ taken, occurrence.name = declaration.name)
    (hmade : List.Forall₂ (fun occurrence form => CompiledFrom deeper context declaration bounds
      (surplusError declaration.name bounds.max (occurrence.2 + 1)) (some occurrence.1) form)
      taken.zipIdx made)
    (hforms : ∀ form ∈ made, form.SurplusOnly) :
    List.Forall₂ (RepresentedBy schema) taken made := by
  rw [← List.zipIdx_map_fst 0 taken, List.forall₂_map_left_iff]
  have hin : ∀ occurrence ∈ taken.zipIdx, occurrence.1.name = declaration.name := by
    intro occurrence hoccurrence
    refine hnames _ ?_
    rw [← List.zipIdx_map_fst 0 taken]
    exact List.mem_map_of_mem hoccurrence
  generalize taken.zipIdx = numbered at hmade hin ⊢
  induction hmade with
  | nil => exact .nil
  | cons hfirst _ ih =>
      rw [List.forall_mem_cons] at hforms hin
      exact .cons (hfirst.represents hschema hdeeper hdeclaration hin.1 hforms.1)
        (ih hforms.2 hin.2)

theorem buildElement_retains (node : Xml.Element) (bounds : Bounds) (atLeast : Nat) :
    (buildElement deeper context node bounds atLeast path).Ensures
      (Retains schema Form.surfaceAll) := by
  intro state forms after hrun
  obtain ⟨declaration, hdeclaration, hrun⟩ := buildElement_eq_ok.mp hrun
  have htype := (Declaration.ofParticle_eq_ok hdeclaration).2.2.1
  rw [hschema] at htype
  cases hcursor : state.cursor with
  | none =>
      obtain ⟨-, hafter, -⟩ := buildDeclared_eq_ok_of_none hcursor hrun
      exact .of_cursor_eq (hafter.trans hcursor.symm)
  | some cursor =>
      obtain ⟨made, copies, rfl, hmade, -, hcopies, hafter⟩ :=
        buildDeclared_eq_ok_of_some hcursor hrun
      refine ⟨cursor.run declaration.name (takingLimit context bounds), ?_, fun hforms => ?_⟩
      · simp only [BuildState.ahead, hcursor, hafter]
        exact (Cursor.takeRun_append _ _ _).symm
      · have hmadeForms : ∀ form ∈ made, form.SurplusOnly :=
          fun form hform => hforms form (List.mem_append_left _ hform)
        have hrepresented := represented_of_taken hschema hdeeper htype
          (fun occurrence hoccurrence => (Cursor.mem_run hoccurrence).2) hmade hmadeForms
        rw [Form.surfaceAll_append, surfaceAll_of_represented hrepresented,
          ← List.append_nil (cursor.run _ _)]
        exact sublistForall₂_append (List.sublistForall₂_iff.mpr
          ⟨made, hrepresented, List.Sublist.refl made⟩) .nil

end

theorem CompiledFrom.mismatch?_of_none {deeper : Option Level} {context : Context}
    {declaration : Declaration} {bounds : Bounds} {form : Form}
    (h : CompiledFrom deeper context declaration bounds none none form) :
    form.label.options.mismatch? = none := by
  obtain ⟨place, content, hcontent, rfl⟩ := h
  have hmismatch : content.mismatch = none := by
    rcases elementContent_eq_ok.mp hcontent with ⟨-, rfl⟩ | ⟨_, _, _, _, -, -, -, -, rfl⟩ <;> rfl
  simp [elementForm, hmismatch, remarkWith, Form.label]

/-! ## Groups -/

section

variable {context : Context} {path : String}

theorem buildAlternative_retains {level : Level} (hlevel : level.Retains schema)
    (hschema : context.schema = schema) (members : List Particle) (matched : Option Nat)
    (alternative : Particle) (index : Nat) :
    (buildAlternative level context path matched
      (selectedIndex context.settings members matched) alternative index).Ensures
      (Retains schema Form.surfaceSelected) := by
  intro state forms after hrun
  obtain ⟨made, rfl, ⟨hmatched, hmade⟩ | ⟨-, last, -, rfl⟩⟩ := buildAlternative_eq_ok.mp hrun
  · have hselected : selectedIndex context.settings members matched = some index := by
      rw [hmatched]
      rfl
    have hmade := (hlevel _ _ _ _ hschema _ _ _ hmade).mapOptions
      (·.insert OptionKey.selected (.bool true))
        fun form hform => (Form.remarksIn_select _ _).mp hform
    obtain ⟨taken, hahead, hforms⟩ := hmade
    simp only [hselected, decide_true]
    refine ⟨taken, hahead, fun hmarked => ?_⟩
    rw [Form.surfaceSelected_select]
    exact hforms hmarked
  · exact .of_cursor_eq rfl

theorem buildMembers_retains {level : Level} (hlevel : level.Retains schema)
    (hschema : context.schema = schema) (compositor : Compositor) (members : List Particle) :
    (buildMembers level context compositor members path).Ensures
      (Retains schema compositor.shown) := by
  cases compositor with
  | sequence =>
      refine Build.Ensures.all (retains_additive Form.surfaceAll_append) fun build hbuild => ?_
      obtain ⟨member, -, rfl⟩ := List.mem_map.mp hbuild
      exact hlevel _ _ _ _ hschema
  | choice =>
      intro state forms after hrun
      obtain ⟨matched, -, hall⟩ := Build.ofFault_eq_ok.mp hrun
      refine Build.Ensures.all (retains_additive Form.surfaceSelected_append)
        (fun build hbuild => ?_) _ _ _ hall
      obtain ⟨⟨alternative, index⟩, -, rfl⟩ := List.mem_map.mp hbuild
      exact buildAlternative_retains hlevel hschema members matched alternative index

theorem oneInstantiation_retains {level : Level} (hlevel : level.Retains schema)
    (hschema : context.schema = schema) (compositor : Compositor) (members : List Particle)
    (node : Xml.Element) (bounds : Bounds) :
    (oneInstantiation level context compositor members node bounds path).Ensures
      (Retains schema Form.surfaceAll) := by
  intro state forms after hrun
  obtain ⟨children, last, hbuild, rfl, rfl⟩ := Build.grouped_eq_ok.mp hrun
  have hinner : (context.insideGroup node bounds).schema = schema := hschema
  obtain ⟨taken, hahead, hforms⟩ :=
    buildMembers_retains hlevel hinner compositor members _ _ _ hbuild
  refine ⟨taken, hahead, fun hmarked => ?_⟩
  have hgroup := hmarked _ (List.mem_singleton_self _)
  simp only [Form.surfaceAll, surface_groupForm, List.append_nil]
  exact hforms (remarksIn_groupForm.mp hgroup)

theorem instantiate_retains {one : Build} (hone : one.Ensures (Retains schema Form.surfaceAll))
    (group : Particle) (compositor : Compositor) (bounds : Bounds) :
    (instantiate context group compositor bounds one).Ensures
      (Retains schema Form.surfaceAll) := by
  intro state forms after hrun
  simp only [instantiate] at hrun
  split at hrun
  · cases hrun
    exact .of_cursor_eq rfl
  split at hrun
  · refine Build.Ensures.all (retains_additive Form.surfaceAll_append) (fun build hbuild => ?_)
      _ _ _ hrun
    rw [List.eq_of_mem_replicate hbuild]
    exact hone
  · obtain ⟨names, -, hrepeat⟩ := Build.ofFault_eq_ok.mp hrun
    refine Build.Ensures.repeatOver (retains_additive Form.surfaceAll_append)
      (fun number => ?_) _ _ _ _ _ _ _ hrepeat
    intro state forms after hrun
    obtain ⟨made, hmade, rfl⟩ := Build.mapForms_eq_ok.mp hrun
    exact (hone _ _ _ hmade).remarked _

end

/-! ## Particles and forms -/

theorem buildParticle_retains {deeper : Option Level}
    (hdeeper : ∀ level ∈ deeper, level.Retains schema ∧ level.AttributesOnly) :
    Level.Retains ⟨buildParticle deeper, buildAttributeEntry deeper⟩ schema := by
  intro context atLeast particle path hschema
  cases particle with
  | element node bounds => exact buildElement_retains hschema hdeeper node bounds atLeast
  | group compositor node bounds =>
      intro state forms after hrun
      obtain ⟨level, members, hlevel, -, -, hinstantiate⟩ := buildGroup_eq_ok.mp hrun
      exact instantiate_retains (oneInstantiation_retains (hdeeper level hlevel).1 hschema
        compositor members node bounds) _ _ _ _ _ _ hinstantiate
  | attributeUse node =>
      intro state forms after hrun
      obtain ⟨rfl, -⟩ := buildAttribute_attributesOnly _ _ _ _ _ _ _ hrun
      exact .of_cursor_eq rfl

theorem levelBelow_retains (schema : Schema) (depth : Nat) :
    ∀ level ∈ levelBelow depth, level.Retains schema ∧ level.AttributesOnly :=
  level_induction (fun _ hdeeper => ⟨buildParticle_retains hdeeper,
    buildAttributeEntry_attributesOnly fun level hlevel => (hdeeper level hlevel).2⟩) depth

/-- If a form that is compiled from a document carries messages about surplus
occurrences only, its root represents the root of the document. -/
theorem root_represented_of_surplusOnly {schema : Schema} {settings : Settings}
    {name : Option String} {document : Xml.Document} {forms : RootForms}
    (hforms : compileForm schema settings name (some document) = .ok forms)
    (hroot : forms.root.SurplusOnly) : RepresentedBy schema document.root forms.root := by
  obtain ⟨element, root, after, -, hbuild, hremarked⟩ := compileForm_eq_ok hforms
  obtain ⟨declaration, hdeclaration, hbuild⟩ := buildElement_eq_ok.mp hbuild
  have htype := (Declaration.ofParticle_eq_ok hdeclaration).2.2.1
  obtain ⟨made, copies, hall, hmade, -, hcopies, hafter⟩ :=
    buildDeclared_eq_ok_of_some rfl hbuild
  rw [hremarked] at hroot ⊢
  refine RepresentedBy.remarkWith ?_ _
  have htop : (Cursor.ofParent document.holder).run declaration.name
      (takingLimit (.start schema settings) .single) ++ after.ahead =
        document.root :: document.others := by
    simp only [BuildState.ahead, hafter]
    exact (Cursor.takeRun_append _ _ _).trans document.holder_elements
  have hnames : ∀ occurrence ∈ (Cursor.ofParent document.holder).run declaration.name
      (takingLimit (.start schema settings) .single), occurrence.name = declaration.name :=
    fun occurrence hoccurrence => (Cursor.mem_run hoccurrence).2
  generalize (Cursor.ofParent document.holder).run declaration.name
    (takingLimit (.start schema settings) .single) = run at hmade htop hnames
  cases run with
  | nil =>
      exfalso
      cases hmade
      have hcopy := hcopies root (by rw [← List.nil_append copies, ← hall]; simp)
      have hleft : rootError root after =
          some (.foreignRoot root.label.tag document.root.name) := by
        rw [List.nil_append] at htop
        simp only [rootError, htop]
      rw [hleft] at hroot
      obtain ⟨tag, number, max, hmessage⟩ := hroot.message_of_remarkWith hcopy.mismatch?_of_none
      obtain ⟨tag, number, max, hsurplus⟩ := Mismatch.eq_surplus_of_message_eq hmessage
      cases hsurplus
  | cons first rest =>
      obtain ⟨rfl, -⟩ := List.cons.inj htop
      rw [List.zipIdx_cons] at hmade
      cases hmade with
      | cons hfirst _ =>
          obtain ⟨rfl, -⟩ := List.cons.inj hall
          exact hfirst.represents rfl (levelBelow_retains schema settings.maxDepth) htype
            (hnames _ List.mem_cons_self) hroot.of_remarkWith

def shelfDocument : Xml.Document :=
  .ofRoots (.plain "schema" [] [
    .plain "element" [("name", "shelf")] [
      .plain "complexType" [] [
        .plain "sequence" [] [
          .plain "element" [("name", "book"), ("maxOccurs", "2")] [],
          .plain "choice" [("minOccurs", "0"), ("maxOccurs", "unbounded")] [
            .plain "element" [("name", "note")] [],
            .plain "element" [("name", "mark")] []]]]]]) []

def fullShelf : Xml.Document :=
  .ofRoots (.plain "shelf" [] [
    .plain "book" [] [], .plain "book" [] [], .plain "book" [] [],
    .plain "mark" [] [], .plain "note" [] [], .plain "mark" [] []]) []

theorem fullShelf_represented :
    ∃ forms, compileForm (Schema.given shelfDocument) .default none (some fullShelf) = .ok forms ∧
      forms.root.SurplusOnly ∧
      RepresentedBy (Schema.given shelfDocument) fullShelf.root forms.root := by
  have hsurplus : (compileForm (Schema.given shelfDocument) .default none
      (some fullShelf)).toOption.any (fun forms => forms.root.labels.all fun label =>
        label.options.mismatch? == none ||
          label.options.mismatch? == some (Mismatch.surplus "book" 3 2).message) = true := by
    decide +kernel
  obtain ⟨forms, hforms, hlabels⟩ := exists_of_checked hsurplus
  have hroot : forms.root.SurplusOnly := by
    intro label hlabel message hmessage
    have hchecked := List.all_eq_true.mp hlabels label hlabel
    simp only [hmessage, Bool.or_eq_true, beq_iff_eq, reduceCtorEq, false_or,
      Option.some.injEq] at hchecked
    exact ⟨"book", 3, 2, hchecked⟩
  exact ⟨forms, hforms, hroot, root_represented_of_surplusOnly hforms hroot⟩

end SchemaForms
