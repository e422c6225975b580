import SchemaForms.Proofs.UniqueNames

/-!
# What a form writes is valid

If no node of a form carries a message, and a choice always has a selected
alternative, then the elements that are written for a node form a word of the
content model of its type. Every step of a compilation adds a word of the
particle that it compiles.
-/

namespace SchemaForms

/-! ## Nodes with valid content -/

/-- The content of the node is a word of the content model of its type. -/
inductive Form.ContentValid (schema : Schema) (form : Form) : Prop
  | simple : Declaration.contentType schema form.label.origin = .ok .simple →
      form.content = [] → Form.ContentValid schema form
  | complex {definition : Xml.Element} {model : List Particle} :
      Declaration.contentType schema form.label.origin = .ok (.complex definition) →
      contentModel schema definition = .ok model →
      SequenceWord schema model (form.content.map (·.label.tag)) → Form.ContentValid schema form

/-- The second node is written inside of the first, or is the first. -/
inductive Form.Writes (root : Form) : Form → Prop
  | root : Form.Writes root root
  | content {form child : Form} : Form.Writes root form → child ∈ form.content →
      Form.Writes root child

inductive Form.Valid (schema : Schema) : Form → Prop
  | node {form : Form} : form.ContentValid schema →
      (∀ child ∈ form.content, Form.Valid schema child) → Form.Valid schema form

theorem Form.Valid.content {schema : Schema} {form : Form} (h : form.Valid schema) :
    form.ContentValid schema ∧ ∀ child ∈ form.content, child.Valid schema := by
  cases h with
  | node hcontent hchildren => exact ⟨hcontent, hchildren⟩

theorem Form.Valid.of_writes {schema : Schema} {root form : Form} (h : root.Valid schema)
    (hwrites : root.Writes form) : form.Valid schema := by
  induction hwrites with
  | root => exact h
  | content _ hchild ih => exact ih.content.2 _ hchild

theorem Form.Valid.mapOptions {schema : Schema} {form : Form} (h : form.Valid schema)
    (change : Options → Options) : (form.mapOptions change).Valid schema := by
  obtain ⟨hcontent, hchildren⟩ := h.content
  obtain ⟨label, children⟩ := form
  refine .node ?_ hchildren
  cases hcontent with
  | simple htype hnone => exact .simple htype hnone
  | complex htype hmodel hword => exact .complex htype hmodel hword

structure Spells (schema : Schema) (shown : List Form) (language : List String → Prop) :
    Prop where
  word : language (shown.map (·.label.tag))
  valid : ∀ form ∈ shown, form.Valid schema

theorem Spells.mapOptions {schema : Schema} {forms : List Form} {language : List String → Prop}
    (h : Spells schema (Form.surfaceAll forms) language) (change : Options → Options) :
    Spells schema (Form.surfaceAll (forms.map (·.mapOptions change))) language := by
  refine ⟨?_, ?_⟩
  · have htags := Form.shownTags_map_mapOptions change forms
    rw [Form.shownTags, Form.shownTags] at htags
    rw [htags]
    exact h.word
  · have hchanged := Form.surfaceAll_map_mapOptions change forms
    have hvalid := h.valid
    generalize Form.surfaceAll forms = shown at hvalid hchanged
    generalize Form.surfaceAll (forms.map (·.mapOptions change)) = others at hchanged ⊢
    induction hchanged with
    | nil => simp
    | cons hsame _ ih =>
        obtain ⟨changes, rfl⟩ := hsame
        rw [List.forall_mem_cons] at hvalid ⊢
        exact ⟨hvalid.1.mapOptions changes, ih hvalid.2⟩

theorem Form.Valid.remarkWith {schema : Schema} {form : Form} (h : form.Valid schema)
    (error : Option Mismatch) : (SchemaForms.remarkWith error form).Valid schema := by
  cases error with
  | none => exact h
  | some error => exact h.mapOptions (·.remark error.message)

theorem Form.Unremarked.of_remarkWith {error : Option Mismatch} {form : Form}
    (h : (SchemaForms.remarkWith error form).Unremarked) : error = none ∧ form.Unremarked := by
  cases error with
  | none => exact ⟨rfl, h⟩
  | some error =>
      obtain ⟨label, children⟩ := form
      simp only [Unremarked, SchemaForms.remarkWith, remark, mapOptions, mapLabel,
        remarksIn_node] at h
      exact (h.1 _ (mismatch?_remark _ _)).elim

/-! ## Elements -/

def Level.Spells (level : Level) (schema : Schema) : Prop :=
  ∀ context atLeast particle path, context.schema = schema →
    context.settings.defaultChoice = .first →
    (level.particle context atLeast particle path).Ensures fun _ forms _ =>
      (∀ form ∈ forms, form.Unremarked) →
        SchemaForms.Spells schema (Form.surfaceAll forms) (particle.Word schema)

theorem Spells.cons {schema : Schema} {particle : Particle} {rest : List Particle}
    {shown others : List Form} (hfirst : Spells schema shown (particle.Word schema))
    (hrest : Spells schema others (SequenceWord schema rest)) :
    Spells schema (shown ++ others) (SequenceWord schema (particle :: rest)) := by
  refine ⟨?_, fun form hform => ?_⟩
  · rw [List.map_append]
    exact .cons hfirst.word hrest.word
  · rcases List.mem_append.mp hform with hform | hform
    · exact hfirst.valid form hform
    · exact hrest.valid form hform

section

variable {schema : Schema} {deeper : Option Level} {context : Context} {path : String}

theorem SequenceRun.spells {level : Level} (hlevel : level.Spells schema)
    (hschema : context.schema = schema) (hdefault : context.settings.defaultChoice = .first)
    {model : List Particle} {state after : BuildState} {forms : List Form}
    (hrun : SequenceRun level context path model state forms after)
    (hforms : ∀ form ∈ forms, form.Unremarked) :
    SchemaForms.Spells schema (Form.surfaceAll forms) (SequenceWord schema model) := by
  induction hrun with
  | nil => exact ⟨.nil, by simp [Form.surfaceAll]⟩
  | attributes hmade _ ih =>
      rw [List.forall_mem_append] at hforms
      rw [Form.surfaceAll_append, Form.surfaceAll_of_attributeUses
        fun form hform => (hmade form hform).kind, List.nil_append]
      exact ih hforms.2
  | cons hmade _ ih =>
      rw [List.forall_mem_append] at hforms
      rw [Form.surfaceAll_append]
      exact (hlevel _ _ _ _ hschema hdefault _ _ _ hmade hforms.1).cons (ih hforms.2)

theorem CompiledFrom.valid (hdeeper : ∀ level ∈ deeper, level.Spells schema ∧ level.AttributesOnly)
    (hschema : context.schema = schema) (hdefault : context.settings.defaultChoice = .first)
    {declaration : Declaration} {bounds : Bounds} {error : Option Mismatch}
    {occurrence : Option Xml.Element} {form : Form}
    (hdeclaration : Declaration.contentType schema declaration.element =
      .ok declaration.content)
    (h : CompiledFrom deeper context declaration bounds error occurrence form)
    (hform : form.Unremarked) : form.Valid schema := by
  obtain ⟨place, content, hcontent, rfl⟩ := h
  have hchildren := (remarksIn_elementForm.mp hform.of_remarkWith.2).2
  refine Form.Valid.remarkWith (Form.Valid.remarkWith ?_ _) error
  rcases elementContent_eq_ok.mp hcontent with ⟨hsimple, rfl⟩ |
    ⟨definition, level, children, after, hcomplex, hlevel, -, hitems, rfl⟩
  · rw [hsimple] at hdeclaration
    have hnone : (simpleContent declaration occurrence).children = [] := by
      cases occurrence with
      | none => rfl
      | some occurrence =>
          simp only [simpleContent]
          cases simpleText occurrence <;> rfl
    rw [hnone]
    exact .node (.simple hdeclaration rfl) (by simp [Form.content, Form.children, Form.surfaceAll])
  · rw [hcomplex] at hdeclaration
    have hinner : (context.insideType definition).schema = schema := hschema
    obtain ⟨model, hmodel, hrun⟩ := buildItems_eq_ok (hdeeper level hlevel).2 hitems
    have hspells := hrun.spells (hdeeper level hlevel).1 hinner hdefault hchildren
    exact .node (.complex hdeclaration (hinner ▸ hmodel) hspells.word) hspells.valid

theorem allows_of_taken {declaration : Declaration} {bounds : Bounds}
    {taken : List Xml.Element} {made : List Form}
    (hmade : List.Forall₂ (fun occurrence form => CompiledFrom deeper context declaration bounds
      (surplusError declaration.name bounds.max (occurrence.2 + 1)) (some occurrence.1) form)
      taken.zipIdx made)
    (hforms : ∀ form ∈ made, form.Unremarked) : bounds.max.allows taken.length = true := by
  rcases Nat.eq_zero_or_pos taken.length with hzero | hpos
  · exact MaxOccurs.allows_of_le (hzero ▸ Nat.zero_le _) bounds.allows_min
  have hlength := hmade.length_eq
  rw [List.length_zipIdx] at hlength
  obtain ⟨place, content, -, hform⟩ := hmade.get (i := taken.length - 1)
    (by rw [List.length_zipIdx]; omega) (by omega)
  have hlast := hforms _ (List.get_mem made ⟨taken.length - 1, by omega⟩)
  rw [hform] at hlast
  have hnone := surplusError_eq_none.mp hlast.of_remarkWith.1
  rw [List.get_eq_getElem, List.getElem_zipIdx] at hnone
  simpa [Nat.sub_add_cancel hpos] using hnone

theorem buildElement_spells (hdeeper : ∀ level ∈ deeper, level.Spells schema ∧ level.AttributesOnly)
    (hschema : context.schema = schema) (hdefault : context.settings.defaultChoice = .first)
    (node : Xml.Element) (bounds : Bounds) (atLeast : Nat) :
    (buildElement deeper context node bounds atLeast path).Ensures fun _ forms _ =>
      (∀ form ∈ forms, form.Unremarked) →
        Spells schema (Form.surfaceAll forms) ((Particle.element node bounds).Word schema) := by
  intro state forms after hrun hforms
  obtain ⟨declaration, hdeclaration, hrun⟩ := buildElement_eq_ok.mp hrun
  rw [hschema] at hdeclaration
  obtain ⟨hreference, hname, htype, -⟩ := Declaration.ofParticle_eq_ok hdeclaration
  have hcompiled : bounds.Admits forms.length ∧ ∀ form ∈ forms, ∃ error occurrence,
      CompiledFrom deeper context declaration bounds error occurrence form := by
    cases hcursor : state.cursor with
    | none =>
        obtain ⟨hlength, -, hall⟩ := buildDeclared_eq_ok_of_none hcursor hrun
        exact ⟨hlength ▸ admits_copiesWithoutInstance context declaration bounds atLeast,
          fun form hform => ⟨none, none, hall form hform⟩⟩
    | some cursor =>
        obtain ⟨made, copies, rfl, hmade, hlength, hcopies, -⟩ :=
          buildDeclared_eq_ok_of_some hcursor hrun
        rw [List.forall_mem_append] at hforms
        have hallows := allows_of_taken hmade hforms.1
        have hmadeLength := hmade.length_eq
        rw [List.length_zipIdx] at hmadeLength
        refine ⟨⟨?_, ?_⟩, ?_⟩
        · rw [List.length_append]
          omega
        · have htotal : (made ++ copies).length =
              max (cursor.run declaration.name (takingLimit context bounds)).length
                (max bounds.min (bounds.max.cap atLeast)) := by
            rw [List.length_append]
            omega
          rw [htotal]
          exact MaxOccurs.allows_max hallows
            (MaxOccurs.allows_max bounds.allows_min (MaxOccurs.allows_cap _ _))
        · rw [List.forall_mem_append]
          refine ⟨fun form hform => ?_, fun form hform => ⟨none, none, hcopies form hform⟩⟩
          obtain ⟨occurrence, -, hfrom⟩ := exists_of_forall₂ hmade hform
          exact ⟨_, _, hfrom⟩
  obtain ⟨hadmits, hall⟩ := hcompiled
  have hshown : ∀ form ∈ forms, form.label.kind = .element ∧
      form.label.tag = declaration.name := by
    intro form hform
    obtain ⟨error, occurrence, hfrom⟩ := hall form hform
    exact hfrom.shown
  rw [Form.surfaceAll_of_elements fun form hform => (hshown form hform).1]
  refine ⟨?_, fun form hform => ?_⟩
  · have htags : forms.map (·.label.tag) = List.replicate forms.length declaration.name := by
      rw [List.eq_replicate_iff]
      simpa using fun form hform => (hshown form hform).2
    rw [htags]
    refine .element ?_ hadmits
    rw [declaredName, hreference]
    exact hname
  · obtain ⟨error, occurrence, hfrom⟩ := hall form hform
    exact hfrom.valid hdeeper hschema hdefault htype (hforms form hform)

/-! ## Groups -/

theorem exists_selectedIndex {settings : Settings} (hdefault : settings.defaultChoice = .first)
    {members : List Particle} (hmembers : members ≠ []) {next : Option Xml.Element}
    {matched : Option Nat} (hmatched : alternativeFor schema members next = .ok matched) :
    ∃ index, selectedIndex settings members matched = some index ∧ index < members.length := by
  cases matched with
  | some index =>
      refine ⟨index, rfl, ?_⟩
      cases next with
      | none => cases hmatched
      | some element =>
          obtain ⟨member, hmember, -⟩ := (firstBeginning_eq_ok hmatched).1 index rfl
          exact (List.getElem?_eq_some_iff.mp hmember).1
  | none =>
      refine ⟨0, ?_, List.length_pos_iff.mpr hmembers⟩
      simp [selectedIndex, hdefault, hmembers]

theorem alternatives_spell {level : Level} (hlevel : level.Spells schema)
    (hschema : context.schema = schema) (hdefault : context.settings.defaultChoice = .first)
    {matched : Option Nat} {index : Nat} {members : List Particle} {start : Nat}
    {state after : BuildState} {forms : List Form}
    (hrun : Build.all ((members.zipIdx start).map fun numbered =>
      buildAlternative level context path matched (some index) numbered.1 numbered.2) state =
        .ok (forms, after))
    (hforms : ∀ form ∈ forms, form.Unremarked) (hstart : start ≤ index)
    (hend : index < start + members.length) :
    ∃ member ∈ members, Spells schema (Form.surfaceSelected forms) (member.Word schema) := by
  induction members generalizing start state forms with
  | nil => exact (Nat.not_lt_of_le hstart hend).elim
  | cons member rest ih =>
      obtain ⟨part, middle, others, hpart, hothers, rfl⟩ := Build.andThen_eq_ok.mp hrun
      rw [List.forall_mem_append] at hforms
      obtain ⟨made, rfl, hmade⟩ := buildAlternative_eq_ok.mp hpart
      rw [Form.surfaceSelected_append, Form.surfaceSelected_select]
      by_cases hsame : index = start
      · subst hsame
        have hhidden : Form.surfaceSelected others = [] :=
          alternatives_hidden (by intro later hlater; simp; omega) hothers
        have hmadeForms : ∀ form ∈ made, form.Unremarked := by
          intro form hform
          exact (Form.remarksIn_select _ _).mp (hforms.1 _ (List.mem_map_of_mem hform))
        rw [hhidden, List.append_nil, if_pos (by simp)]
        obtain ⟨-, hmade⟩ | ⟨-, last, hmade, -⟩ := hmade <;>
          exact ⟨member, List.mem_cons_self,
            (hlevel _ _ _ _ hschema hdefault _ _ _ hmade hmadeForms).mapOptions _⟩
      · rw [if_neg (by simpa using hsame), List.nil_append]
        rw [List.length_cons] at hend
        obtain ⟨other, hother, hspells⟩ := ih hothers hforms.2 (by omega) (by omega)
        exact ⟨other, List.mem_cons_of_mem _ hother, hspells⟩

theorem buildMembers_spells {level : Level} (hlevel : level.Spells schema)
    (hschema : context.schema = schema) (hdefault : context.settings.defaultChoice = .first)
    {compositor : Compositor} {members : List Particle} {state after : BuildState}
    {forms : List Form}
    (hrun : buildMembers level context compositor members path state = .ok (forms, after))
    (hforms : ∀ form ∈ forms, form.Unremarked) :
    Spells schema (compositor.shown forms) (InstantiationWord schema compositor members) := by
  cases compositor with
  | sequence =>
      have hspells := (buildSequence_eq_ok hrun).spells hlevel hschema hdefault hforms
      exact ⟨.sequence hspells.word, hspells.valid⟩
  | choice =>
      obtain ⟨matched, hmatched, hall⟩ := Build.ofFault_eq_ok.mp hrun
      by_cases hmembers : members = []
      · subst hmembers
        obtain ⟨rfl, -⟩ := Build.nothing_eq_ok.mp hall
        exact ⟨.noAlternative, by simp [Compositor.shown, Form.surfaceSelected]⟩
      · obtain ⟨index, hindex, hlt⟩ := exists_selectedIndex hdefault hmembers hmatched
        simp only [hindex] at hall
        obtain ⟨member, hmember, hspells⟩ :=
          alternatives_spell hlevel hschema hdefault hall hforms (Nat.zero_le _)
            (by simpa using hlt)
        exact ⟨.alternative hmember hspells.word, hspells.valid⟩

theorem oneInstantiation_spells {level : Level} (hlevel : level.Spells schema)
    (hschema : context.schema = schema) (hdefault : context.settings.defaultChoice = .first)
    (compositor : Compositor) (members : List Particle) (node : Xml.Element) (bounds : Bounds) :
    (oneInstantiation level context compositor members node bounds path).MakesOne fun form =>
      form.Unremarked →
        Spells schema form.surface (InstantiationWord schema compositor members) := by
  intro state forms after hrun
  obtain ⟨children, last, hbuild, rfl, -⟩ := Build.grouped_eq_ok.mp hrun
  refine ⟨_, rfl, fun hform => ?_⟩
  rw [surface_groupForm]
  have hinner : (context.insideGroup node bounds).schema = schema := hschema
  exact buildMembers_spells hlevel hinner hdefault hbuild (remarksIn_groupForm.mp hform)

theorem instantiate_eq_ok {group : Particle} {compositor : Compositor} {bounds : Bounds}
    {one : Build} {kind : Form → Prop} (hone : one.MakesOne kind) {state after : BuildState}
    {forms : List Form}
    (hrun : instantiate context group compositor bounds one state = .ok (forms, after))
    (hforms : ∀ form ∈ forms, form.Unremarked) :
    bounds.Admits forms.length ∧ ∀ form ∈ forms, kind form := by
  simp only [instantiate] at hrun
  split at hrun
  · rename_i hmax
    cases hrun
    have hmin := bounds.allows_min
    rw [hmax, MaxOccurs.allows, decide_eq_true_eq] at hmin
    exact ⟨⟨hmin, by rw [hmax]; rfl⟩, by simp⟩
  rename_i hmax
  split at hrun
  · obtain ⟨hlength, hkinds⟩ := hone.replicate hrun
    exact ⟨hlength ▸ Bounds.admits_required hmax, hkinds⟩
  · obtain ⟨names, -, hrepeat⟩ := Build.ofFault_eq_ok.mp hrun
    obtain ⟨hall, hcount⟩ := hone.repeatOver hrepeat
    have henough := hcount (by omega)
    have hpos : 0 < forms.length := by
      simp only [requiredCount] at henough
      omega
    refine ⟨⟨Nat.le_trans (Nat.le_max_left _ _) (Nat.zero_add forms.length ▸ henough), ?_⟩,
      fun form hform => ?_⟩
    · obtain ⟨single, -, hlast⟩ := hall.get (i := forms.length - 1)
        (by rw [List.length_range']; omega) (by omega)
      have hunremarked := hforms _ (List.get_mem forms ⟨forms.length - 1, by omega⟩)
      rw [hlast] at hunremarked
      have hnone := surplusError_eq_none.mp hunremarked.of_remarkWith.1
      rw [List.get_eq_getElem, List.getElem_range'] at hnone
      simpa [Nat.sub_add_cancel hpos] using hnone
    · obtain ⟨index, -, single, hsingle, rfl⟩ := exists_of_forall₂ hall hform
      have hnone := (hforms _ hform).of_remarkWith.1
      rw [hnone]
      exact hsingle

theorem buildGroup_spells (hdeeper : ∀ level ∈ deeper, level.Spells schema ∧ level.AttributesOnly)
    (hschema : context.schema = schema) (hdefault : context.settings.defaultChoice = .first)
    (compositor : Compositor) (node : Xml.Element) (bounds : Bounds) :
    (buildGroup deeper context compositor node bounds path).Ensures fun _ forms _ =>
      (∀ form ∈ forms, form.Unremarked) → Spells schema (Form.surfaceAll forms)
        ((Particle.group compositor node bounds).Word schema) := by
  intro state forms after hrun hforms
  obtain ⟨level, members, hlevel, -, hmembers, hrun⟩ := buildGroup_eq_ok.mp hrun
  rw [hschema] at hmembers
  obtain ⟨hadmits, hall⟩ := instantiate_eq_ok (oneInstantiation_spells (hdeeper level hlevel).1
    hschema hdefault compositor members node bounds) hrun hforms
  have hspells : ∀ form ∈ forms, Spells schema form.surface
      (InstantiationWord schema compositor members) :=
    fun form hform => hall form hform (hforms form hform)
  rw [Form.surfaceAll_eq_flatMap, List.flatMap_def]
  refine ⟨?_, fun shown hshown => ?_⟩
  · rw [List.map_flatten]
    refine .group hmembers (by simpa using hadmits) fun word hword => ?_
    simp only [List.map_map, List.mem_map, Function.comp] at hword
    obtain ⟨form, hform, rfl⟩ := hword
    exact (hspells form hform).word
  · simp only [List.mem_flatten, List.mem_map] at hshown
    obtain ⟨_, ⟨form, hform, rfl⟩, hshown⟩ := hshown
    exact (hspells form hform).valid shown hshown

/-! ## Particles and forms -/

theorem buildParticle_spells
    (hdeeper : ∀ level ∈ deeper, level.Spells schema ∧ level.AttributesOnly) :
    Level.Spells ⟨buildParticle deeper, buildAttributeEntry deeper⟩ schema := by
  intro context atLeast particle path hschema hdefault
  cases particle with
  | element node bounds => exact buildElement_spells hdeeper hschema hdefault node bounds atLeast
  | group compositor node bounds =>
      exact buildGroup_spells hdeeper hschema hdefault compositor node bounds
  | attributeUse node =>
      intro state forms after hrun _
      obtain ⟨-, hattributes⟩ := buildAttribute_attributesOnly _ _ _ _ _ _ _ hrun
      rw [Form.surfaceAll_of_attributeUses fun form hform => (hattributes form hform).kind]
      exact ⟨.attributeUse, by simp⟩

end

theorem levelBelow_spells (schema : Schema) (depth : Nat) :
    ∀ level ∈ levelBelow depth, level.Spells schema ∧ level.AttributesOnly :=
  level_induction (fun _ hdeeper => ⟨buildParticle_spells hdeeper,
    buildAttributeEntry_attributesOnly fun level hlevel => (hdeeper level hlevel).2⟩) depth

/-- A form without messages whose choices have selected alternatives writes valid
content, at the root and at every node in it. -/
theorem contentValid_of_unremarked {schema : Schema} {settings : Settings}
    (hdefault : settings.defaultChoice = .first) {name : Option String}
    {document : Option Xml.Document} {forms : RootForms}
    (hforms : compileForm schema settings name document = .ok forms)
    (hroot : forms.root.Unremarked) {form : Form} (hform : forms.root.Writes form) :
    form.ContentValid schema := by
  refine (Form.Valid.of_writes ?_ hform).content.1
  obtain ⟨element, root, after, -, hbuild, hremarked⟩ := compileForm_eq_ok hforms
  rw [hremarked] at hroot ⊢
  refine Form.Valid.remarkWith ?_ _
  obtain ⟨declaration, hdeclaration, hbuild⟩ := buildElement_eq_ok.mp hbuild
  have htype := (Declaration.ofParticle_eq_ok hdeclaration).2.2.1
  have hcompiled : ∃ error occurrence, CompiledFrom (levelBelow settings.maxDepth)
      (.start schema settings) declaration .single error occurrence root := by
    cases document with
    | none =>
        obtain ⟨-, -, hall⟩ := buildDeclared_eq_ok_of_none rfl hbuild
        exact ⟨none, none, hall root List.mem_cons_self⟩
    | some document =>
        obtain ⟨made, copies, hall, hmade, -, hcopies, -⟩ :=
          buildDeclared_eq_ok_of_some rfl hbuild
        have hin : root ∈ made ++ copies := hall ▸ List.mem_cons_self
        rcases List.mem_append.mp hin with hin | hin
        · obtain ⟨occurrence, -, hfrom⟩ := exists_of_forall₂ hmade hin
          exact ⟨_, _, hfrom⟩
        · exact ⟨none, none, hcopies root hin⟩
  obtain ⟨error, occurrence, hfrom⟩ := hcompiled
  exact hfrom.valid (levelBelow_spells schema settings.maxDepth) rfl hdefault htype
    hroot.of_remarkWith.2

def orderDocument : Xml.Document :=
  .ofRoots (.plain "schema" [] [
    .plain "element" [("name", "order")] [
      .plain "complexType" [] [
        .plain "sequence" [] [
          .plain "element"
            [("name", "line"), ("type", "lineType"), ("maxOccurs", "unbounded")] []]]],
    .plain "complexType" [("name", "lineType")] [
      .plain "sequence" [] [
        .plain "element" [("name", "code")] [],
        .plain "choice" [("minOccurs", "0"), ("maxOccurs", "unbounded")] [
          .plain "element" [("name", "gift")] [],
          .plain "element" [("name", "note")] []]]]]) []

def unfinishedOrder : Xml.Document :=
  .ofRoots (.plain "order" [] [
    .plain "line" [] [.plain "code" [] [], .plain "note" [] [], .plain "gift" [] []],
    .plain "line" [] [.plain "note" [] []]]) []

theorem unfinishedOrder_contentValid :
    ∃ forms, compileForm (Schema.given orderDocument) ⟨.none, .first, 64, "module"⟩ none
        (some unfinishedOrder) = .ok forms ∧
      forms.root.Unremarked ∧ ∃ line ∈ forms.root.content,
        line.content.map (·.label.tag) = ["code", "note"] ∧
        line.ContentValid (Schema.given orderDocument) := by
  have hchecked : (compileForm (Schema.given orderDocument) ⟨.none, .first, 64, "module"⟩ none
      (some unfinishedOrder)).toOption.any (fun forms =>
        forms.root.labels.all (fun label => label.options.mismatch? == none) &&
          forms.root.content.any fun line =>
            line.content.map (·.label.tag) == ["code", "note"]) = true := by
    decide +kernel
  obtain ⟨forms, hforms, hchecked⟩ := exists_of_checked hchecked
  rw [Bool.and_eq_true, List.all_eq_true, List.any_eq_true] at hchecked
  obtain ⟨hlabels, line, hline, htags⟩ := hchecked
  have hroot : forms.root.Unremarked := by
    intro label hlabel message hmessage
    have hnone := hlabels label hlabel
    simp [hmessage] at hnone
  exact ⟨forms, hforms, hroot, line, hline, by simpa using htags,
    contentValid_of_unremarked rfl hforms hroot (.content .root hline)⟩

end SchemaForms
