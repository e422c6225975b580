import SchemaForms.Proofs.Invariants
import SchemaForms.Proofs.Paths
import SchemaForms.Proofs.References
import SchemaForms.Proofs.Sessions

/-!
# The places of compiled nodes

A build gives each element of a content the place that follows those of the
elements of its name before it, and each group one when its members are built.
So every content of a compiled form is numbered, whatever is compiled over an
instance and whatever without one, and a path leads to the node it was given to.
-/

namespace SchemaForms

/-- The elements and attributes that the schema declares have names without a colon. -/
def Schema.NCNamed (schema : Schema) : Prop :=
  ∀ element ∈ schema.document.elements, element.name = "element" ∨ element.name = "attribute" →
    ∀ name ∈ element.attribute? "name", Xml.isNCName name = true

instance (schema : Schema) : Decidable schema.NCNamed :=
  inferInstanceAs (Decidable (∀ element ∈ schema.document.elements,
    element.name = "element" ∨ element.name = "attribute" →
      ∀ name ∈ element.attribute? "name", Xml.isNCName name = true))

/-! ## Places that a build gives -/

def Standing (kind : FormKind) (tag : String) : Prop :=
  (kind = .element ∧ Xml.isNCName tag = true) ∨
    ∃ compositor : Compositor, kind = compositor.kind ∧ tag = compositor.label

structure PlacedAt (path : String) (state : BuildState) (forms : List Form) (after : BuildState) :
    Prop where
  counts : ∀ kind tag, Standing kind tag →
    after.steps.count (stepName kind tag) =
      state.steps.count (stepName kind tag) + (Form.pathsOf kind tag forms).length
  elements : ∀ tag, Xml.isNCName tag = true → Form.pathsOf .element tag forms =
    numberedPaths path tag (state.steps.count tag) (Form.pathsOf .element tag forms).length
  groups : ∀ compositor : Compositor,
    (Form.pathsOf compositor.kind compositor.label forms).Perm
      (numberedPaths path compositor.step (state.steps.count compositor.step)
        (Form.pathsOf compositor.kind compositor.label forms).length)
  numbered : ∀ form ∈ forms, form.Numbered

theorem Form.Numbered.mapOptions {form : Form} (h : form.Numbered) (change : Options → Options) :
    (form.mapOptions change).Numbered := by
  obtain ⟨label, children⟩ := form
  obtain ⟨hlabel, hattribute, hcontent, hchildren⟩ := Form.numbered_node.mp h
  refine Form.numbered_node.mpr ⟨hlabel, hattribute, fun hkind => ?_, hchildren⟩
  exact ⟨(hcontent hkind).elements, (hcontent hkind).groups⟩

theorem Form.Numbered.remarkWith {form : Form} (h : form.Numbered) (error : Option Mismatch) :
    (SchemaForms.remarkWith error form).Numbered := by
  cases error with
  | none => exact h
  | some error => exact h.mapOptions (·.remark error.message)

theorem placedAt_invariant (path : String) : Build.Invariant (PlacedAt path) where
  nothing := fun state =>
    ⟨fun _ _ _ => rfl, fun _ _ => rfl, fun _ => .nil, by simp⟩
  append := by
    intro state middle after before rest hbefore hrest
    constructor
    · intro kind tag hstanding
      rw [hrest.counts kind tag hstanding, hbefore.counts kind tag hstanding, Form.pathsOf_append,
        List.length_append, Nat.add_assoc]
    · intro tag htag
      have hcount := hbefore.counts .element tag (.inl ⟨rfl, htag⟩)
      rw [stepName_element] at hcount
      rw [Form.pathsOf_append, List.length_append, ← numberedPaths_append, ← hcount,
        ← hbefore.elements tag htag, ← hrest.elements tag htag]
    · intro compositor
      have hcount := hbefore.counts _ _ (.inr ⟨compositor, rfl, rfl⟩)
      rw [stepName_group] at hcount
      rw [Form.pathsOf_append, List.length_append, ← numberedPaths_append, ← hcount]
      exact (hbefore.groups compositor).append (hrest.groups compositor)
    · intro form hform
      exact (List.mem_append.mp hform).elim (hbefore.numbered form) (hrest.numbered form)
  mapOptions := by
    intro state after forms change h
    constructor
    · intro kind tag hstanding
      rw [Form.pathsOf_map_mapOptions]
      exact h.counts kind tag hstanding
    · intro tag htag
      rw [Form.pathsOf_map_mapOptions]
      exact h.elements tag htag
    · intro compositor
      rw [Form.pathsOf_map_mapOptions]
      exact h.groups compositor
    · intro form hform
      obtain ⟨made, hmade, rfl⟩ := List.mem_map.mp hform
      exact (h.numbered made hmade).mapOptions change
  withoutInstance := fun h => ⟨h.counts, h.elements, h.groups, h.numbered⟩

/-! ## Attributes -/

def AttributesNamed (state : BuildState) (forms : List Form) (after : BuildState) : Prop :=
  after = state ∧ ∀ form ∈ forms, ∃ use declaration name path occurrence,
    form = attributeForm use declaration name path occurrence ∧ Xml.isNCName name = true

theorem attributesNamed_additive : Build.Additive AttributesNamed where
  nothing := fun state => ⟨rfl, by simp⟩
  append := by
    rintro state middle after before rest ⟨rfl, hbefore⟩ ⟨rfl, hrest⟩
    exact ⟨rfl, fun form hform => (List.mem_append.mp hform).elim (hbefore form) (hrest form)⟩

theorem numbered_attributeForm {use declaration : Xml.Element} {name path : String}
    {occurrence : Option Xml.Element} (h : Xml.isNCName name = true) :
    (attributeForm use declaration name path occurrence).Numbered :=
  Form.numbered_node.mpr ⟨⟨h, path, rfl⟩, fun _ => rfl, by simp, by simp⟩

theorem AttributesNamed.placedAt {state after : BuildState} {forms : List Form}
    (h : AttributesNamed state forms after) (path : String) : PlacedAt path state forms after := by
  obtain ⟨rfl, hforms⟩ := h
  have hnone : Form.placedAll forms = [] := by
    rw [Form.placedAll_eq_flatMap, List.flatMap_eq_nil_iff]
    intro form hform
    obtain ⟨use, declaration, name, path, occurrence, rfl, -⟩ := hforms form hform
    rfl
  have hpaths : ∀ kind tag, Form.pathsOf kind tag forms = [] := by
    intro kind tag
    rw [Form.pathsOf, hnone]
    rfl
  refine ⟨fun kind tag _ => by rw [hpaths]; rfl, fun tag _ => by rw [hpaths]; rfl,
    fun compositor => by rw [hpaths]; exact .nil, fun form hform => ?_⟩
  obtain ⟨use, declaration, name, path, occurrence, rfl, hname⟩ := hforms form hform
  exact numbered_attributeForm hname

/-! ## Elements and groups -/

theorem Standing.stepName_eq {kind : FormKind} {tag name : String} (h : Standing kind tag)
    (hname : Xml.isNCName name = true) :
    stepName kind tag = name ↔ kind = .element ∧ tag = name := by
  rcases h with ⟨rfl, -⟩ | ⟨compositor, rfl, rfl⟩
  · simp
  · have hstep : compositor.step ≠ name := fun hsame =>
      absurd (hsame ▸ compositor.step_not_isNCName) (by simp [hname])
    have hkind : compositor.kind ≠ .element := by cases compositor <;> decide
    simp [hstep, hkind]

theorem Standing.stepName_eq_step {kind : FormKind} {tag : String} (h : Standing kind tag)
    (compositor : Compositor) :
    stepName kind tag = compositor.step ↔ kind = compositor.kind ∧ tag = compositor.label := by
  rcases h with ⟨rfl, htag⟩ | ⟨other, rfl, rfl⟩
  · have hstep : tag ≠ compositor.step := fun hsame =>
      absurd (hsame ▸ compositor.step_not_isNCName) (by simp [htag])
    have hkind : FormKind.element ≠ compositor.kind := by cases compositor <;> decide
    simp [hstep, hkind]
  · rw [stepName_group]
    constructor
    · intro hsame
      rw [Compositor.step_injective hsame]
      exact ⟨rfl, rfl⟩
    · cases other <;> cases compositor <;> simp [Compositor.kind]

theorem pathsOf_elementForm (kind : FormKind) (tag : String) (declaration : Declaration)
    (bounds : Bounds) (path : String) (occurrence : Option Xml.Element)
    (content : ComplexContent) :
    Form.pathsOf kind tag [elementForm declaration bounds path occurrence content] =
      if kind = .element ∧ tag = declaration.name then [path] else [] := by
  cases hmismatch : content.mismatch <;>
    by_cases hsame : kind = .element ∧ tag = declaration.name <;>
    simp [elementForm, hmismatch, remarkWith, Form.remark, Form.mapOptions, Form.mapLabel,
      Form.pathsOf, Form.placedAll, Form.placed, List.filter_cons, Form.label, hsame] <;>
    simpa [eq_comm] using hsame

theorem pathsOf_groupForm (kind : FormKind) (tag : String) (compositor : Compositor)
    (node : Xml.Element) (bounds : Bounds) (path : String) (children : List Form) :
    Form.pathsOf kind tag [groupForm compositor node bounds path children] =
      (if kind = compositor.kind ∧ tag = compositor.label then [path] else []) ++
        Form.pathsOf kind tag children := by
  have hplaced : Form.placedAll [groupForm compositor node bounds path children] =
      groupForm compositor node bounds path children :: Form.placedAll children := by
    cases compositor <;> simp [groupForm, Form.placedAll, Form.placed, Compositor.kind]
  rw [Form.pathsOf, hplaced, List.filter_cons]
  by_cases hsame : kind = compositor.kind ∧ tag = compositor.label
  · obtain ⟨rfl, rfl⟩ := hsame
    simp [groupForm, Form.label, Form.pathsOf]
  · have hother : (compositor.kind == kind && compositor.label == tag) = false := by
      rw [Bool.and_eq_false_iff, beq_eq_false_iff_ne, beq_eq_false_iff_ne]
      exact Classical.not_and_iff_not_or_not.mp fun h => hsame ⟨h.1.symm, h.2.symm⟩
    rw [if_neg hsame, List.nil_append]
    simp only [groupForm, Form.label, hother, Bool.false_eq_true, if_false]
    rfl

theorem PlacedAt.contentNumbered {label : FormLabel} {children : List Form}
    {state after : BuildState} (h : PlacedAt label.path state children after)
    (hstart : state.steps = []) : (Form.node label children).ContentNumbered := by
  constructor
  · intro tag
    by_cases htag : Xml.isNCName tag = true
    · have hpaths := h.elements tag htag
      rw [hstart] at hpaths
      exact hpaths
    · have hnone : Form.pathsOf .element tag children = [] := by
        rw [Form.pathsOf, List.map_eq_nil_iff, List.filter_eq_nil_iff]
        intro node hnode hmatch
        simp only [Bool.and_eq_true, beq_iff_eq] at hmatch
        obtain ⟨form, hform, hin⟩ : ∃ form ∈ children, node ∈ form.nodes := by
          have hnode := (Form.placedAll_sublist children).subset hnode
          rwa [Form.nodesOf_eq_flatMap, List.mem_flatMap] at hnode
        have hlabel := (h.numbered form hform).wellNamed node hin
        simp only [FormLabel.WellNamed, hmatch.1, hmatch.2] at hlabel
        exact htag hlabel
      simp only [Form.children, hnone]
      rfl
  · intro compositor
    have hpaths := h.groups compositor
    rw [hstart] at hpaths
    exact hpaths

theorem placedAt_elementForm {declaration : Declaration}
    (hname : Xml.isNCName declaration.name = true) {bounds : Bounds} {path : String}
    {occurrence : Option Xml.Element} {content : ComplexContent} {state start last : BuildState}
    (hstart : start.steps = [])
    (hcontent : PlacedAt (placePath path declaration.name (state.nextPlace declaration.name)) start
      content.children last) :
    PlacedAt path state [elementForm declaration bounds
      (placePath path declaration.name (state.nextPlace declaration.name)) occurrence content]
      (state.givePlace declaration.name) := by
  constructor
  · intro kind tag hstanding
    have hstep := hstanding.stepName_eq hname
    rw [pathsOf_elementForm, BuildState.givePlace, List.count_cons]
    by_cases hsame : kind = .element ∧ tag = declaration.name
    · rw [if_pos hsame, hstep.mpr hsame]
      simp
    · have hne : declaration.name ≠ stepName kind tag := fun h => hsame (hstep.mp h.symm)
      simp [hsame, hne]
  · intro tag _
    rw [pathsOf_elementForm]
    by_cases hsame : tag = declaration.name
    · subst hsame
      simp [numberedPaths, BuildState.nextPlace]
    · simp [hsame, numberedPaths]
  · intro compositor
    rw [pathsOf_elementForm, if_neg fun h => by cases compositor <;> simp [Compositor.kind] at h]
    exact .nil
  · intro form hform
    rw [List.mem_singleton.mp hform, elementForm]
    apply Form.Numbered.remarkWith
    exact Form.numbered_node.mpr ⟨hname, by simp,
      fun _ => PlacedAt.contentNumbered hcontent hstart, hcontent.numbered⟩

theorem placedAt_groupForm {path : String} {compositor : Compositor} {node : Xml.Element}
    {bounds : Bounds} {state last : BuildState} {children : List Form}
    (h : PlacedAt path state children last) :
    PlacedAt path state [groupForm compositor node bounds
      (placePath path compositor.step (last.nextPlace compositor.step)) children]
      (last.givePlace compositor.step) := by
  constructor
  · intro kind tag hstanding
    have hstep := hstanding.stepName_eq_step compositor
    rw [pathsOf_groupForm, List.length_append, BuildState.givePlace, List.count_cons,
      h.counts kind tag hstanding]
    by_cases hsame : kind = compositor.kind ∧ tag = compositor.label
    · rw [if_pos hsame, hstep.mpr hsame]
      simp
      omega
    · have hne : compositor.step ≠ stepName kind tag := fun h => hsame (hstep.mp h.symm)
      simp [hsame, hne]
  · intro tag htag
    rw [pathsOf_groupForm, if_neg fun h => by cases compositor <;> simp [Compositor.kind] at h]
    exact h.elements tag htag
  · intro other
    rw [pathsOf_groupForm]
    by_cases hsame : other.kind = compositor.kind ∧ other.label = compositor.label
    · obtain rfl : other = compositor := by
        cases other <;> cases compositor <;> first | rfl | simp [Compositor.kind] at hsame
      have hcount := h.counts _ _ (.inr ⟨other, rfl, rfl⟩)
      rw [stepName_group] at hcount
      have hlast : placePath path other.step (last.nextPlace other.step) =
          placePath path other.step
            (state.steps.count other.step +
              (Form.pathsOf other.kind other.label children).length + 1) := by
        rw [BuildState.nextPlace, hcount]
      rw [if_pos ⟨rfl, rfl⟩, List.singleton_append, List.length_cons, ← numberedPaths_append,
        hlast]
      exact ((h.groups other).cons _).trans (List.perm_append_singleton _ _).symm
    · rw [if_neg hsame]
      exact h.groups other
  · intro form hform
    rw [List.mem_singleton.mp hform]
    refine Form.numbered_node.mpr ⟨?_, ?_, ?_, h.numbered⟩
    · cases compositor <;> rfl
    · cases compositor <;> simp [Compositor.kind]
    · cases compositor <;> simp [Compositor.kind]

/-! ## Compiled particles -/

def Particle.IsUse : Particle → Prop
  | .attributeUse node => node.name = "attribute"
  | _ => True

theorem Particle.ofElement?_isUse {schema : Schema} {node : Xml.Element} {particle : Particle}
    (h : ofElement? schema node = .ok (some particle)) : particle.IsUse := by
  simp only [ofElement?] at h
  split at h
  case h_4 hname =>
    cases h
    exact hname
  case h_5 =>
    obtain ⟨found, hfound, h⟩ := bind_eq_ok.mp h
    cases h
    obtain ⟨-, -, hfound⟩ := bind_eq_ok.mp hfound
    obtain ⟨bounds, -, hfound⟩ := bind_eq_ok.mp hfound
    obtain ⟨definition, -, hfound⟩ := bind_eq_ok.mp hfound
    simp only [compositorOf] at hfound
    split at hfound
    · cases hfound
    · split at hfound <;> cases hfound <;> trivial
  all_goals first
    | cases h
    | (obtain ⟨bounds, -, h⟩ := bind_eq_ok.mp h
       cases h
       trivial)

section

variable {schema : Schema}

structure Level.GivesPlaces (level : Level) (schema : Schema) : Prop where
  particle : ∀ context atLeast particle path, context.schema = schema →
    particle.OfSchema schema → particle.IsUse →
    (level.particle context atLeast particle path).Ensures (PlacedAt path)
  entry : ∀ context entry path occurrence, context.schema = schema → schema.Owns entry →
    (level.attributeEntry context entry path occurrence).Ensures AttributesNamed

variable (hgrounded : schema.Grounded) (hnames : schema.NCNamed)
include hgrounded hnames

theorem isNCName_of_declaration {settings : Settings} {particle : Xml.Element}
    (howns : schema.Owns particle) (hname : particle.name = "element") {declaration : Declaration}
    (h : Declaration.ofParticle schema settings particle = .ok declaration) :
    Xml.isNCName declaration.name = true := by
  exact hnames _ (Declaration.owns_of_ofParticle hgrounded howns h)
    (.inl (Declaration.name_of_ofParticle hgrounded hname h)) _
    (demandAttribute_eq_ok.mp (Declaration.ofParticle_eq_ok h).2.1)

variable {deeper : Option Level} {context : Context} {path : String}
  (hcontext : context.schema = schema)
include hcontext

theorem buildAttribute_named {use : Xml.Element} (howns : schema.Owns use)
    (huse : use.name = "attribute") (occurrence : Option Xml.Element) :
    (buildAttribute context use path occurrence).Ensures AttributesNamed := by
  refine attributesNamed_additive.attribute fun state declaration name hdeclared => ?_
  refine ⟨rfl, fun form hform => ⟨use, declaration, name, path, occurrence,
    List.mem_singleton.mp hform, ?_⟩⟩
  rw [hcontext] at hdeclared
  obtain ⟨hin, htag, hvalue⟩ := declaredAttribute_eq_ok hgrounded howns huse hdeclared
  exact hnames _ hin (.inr htag) _ hvalue

variable (hdeeper : ∀ level ∈ deeper, level.GivesPlaces schema)
include hdeeper

theorem buildAttributeEntry_named {entry : Xml.Element} (howns : schema.Owns entry)
    (occurrence : Option Xml.Element) :
    (buildAttributeEntry deeper context entry path occurrence).Ensures AttributesNamed := by
  refine attributesNamed_additive.attributeEntry
    (fun huse => buildAttribute_named hgrounded hnames hcontext howns huse occurrence) ?_
  intro level hlevel definition hdefinition child hchild
  rw [hcontext] at hdefinition
  refine (hdeeper level hlevel).entry _ _ _ _ hcontext (Schema.Owns.child ?_ hchild)
  rcases Schema.followReference_eq_ok hgrounded hdefinition with ⟨hin, -⟩ | rfl
  · exact hin
  · exact howns

omit hnames in
theorem elementContent_placed {declaration : Declaration}
    (hdeclaration : ∀ definition, declaration.content = .complex definition →
      schema.Owns definition)
    {occurrence : Option Xml.Element} {content : ComplexContent}
    (h : elementContent deeper context declaration path occurrence = .ok content) :
    ∃ start last, start.steps = [] ∧ PlacedAt path start content.children last := by
  rcases elementContent_eq_ok.mp h with ⟨-, rfl⟩ |
    ⟨definition, level, children, after, hcomplex, hlevel, -, hitems, rfl⟩
  · rw [simpleContent_children]
    exact ⟨.start none, _, rfl, (placedAt_invariant path).nothing _⟩
  · have howns := hdeclaration definition hcomplex
    have hinner : (context.insideType definition).schema = schema := hcontext
    refine ⟨.start occurrence, after, rfl, ?_⟩
    refine Build.Ensures.all (placedAt_invariant path).toAdditive (fun build hbuild => ?_)
      _ _ _ hitems
    obtain ⟨item, hitem, rfl⟩ := List.mem_map.mp hbuild
    refine (placedAt_invariant path).toAdditive.item (fun particle hparticle => ?_) ?_
    · have hparticle : Particle.ofElement? schema item = .ok (some particle) := hcontext ▸ hparticle
      exact (hdeeper level hlevel).particle _ _ _ _ hinner
        (Particle.ofElement?_ofSchema hgrounded (howns.child hitem) hparticle)
        (Particle.ofElement?_isUse hparticle)
    · intro entry hentry state forms after hrun
      refine AttributesNamed.placedAt ?_ path
      refine (hdeeper level hlevel).entry _ _ _ _ hinner ?_ _ _ _ hrun
      rcases hentry with rfl | ⟨derivation, hderivation, hentry⟩
      · exact howns.child hitem
      · exact ((howns.child hitem).child hderivation).child hentry

theorem buildElement_placed {node : Xml.Element} (howns : schema.Owns node)
    (hname : node.name = "element") (bounds : Bounds) (atLeast : Nat) :
    (buildElement deeper context node bounds atLeast path).Ensures (PlacedAt path) := by
  intro state forms after hrun
  obtain ⟨declaration, hdeclaration, hbuild⟩ := buildElement_eq_ok.mp hrun
  rw [hcontext] at hdeclaration
  have hoccurrence : ∀ occurrence,
      (buildOccurrence deeper context declaration bounds path occurrence).Ensures
        (PlacedAt path) := by
    intro occurrence state forms after hrun
    obtain ⟨content, hcontent, rfl, rfl⟩ := buildOccurrence_eq_ok.mp hrun
    obtain ⟨start, last, hstart, hplaced⟩ := elementContent_placed hgrounded hcontext hdeeper
      (fun definition hcomplex =>
        (Declaration.owns_definition hgrounded howns hdeclaration hcomplex).1) hcontent
    exact placedAt_elementForm
      (isNCName_of_declaration hgrounded hnames howns hname hdeclaration) hstart hplaced
  have hcopies : ∀ count,
      (buildCopies deeper context declaration bounds path count).Ensures (PlacedAt path) := by
    intro count
    refine Build.Ensures.all (placedAt_invariant path).toAdditive fun build hbuild => ?_
    rw [List.eq_of_mem_replicate hbuild]
    exact hoccurrence none
  simp only [buildDeclared] at hbuild
  split at hbuild
  · exact hcopies _ _ _ _ hbuild
  · -- The cursor plays no part in the places.
    have hplaced := Build.Ensures.andThen (placedAt_invariant path).toAdditive
      (Build.Ensures.all (placedAt_invariant path).toAdditive fun build hbuild => by
        obtain ⟨⟨occurrence, index⟩, -, rfl⟩ := List.mem_map.mp hbuild
        exact (placedAt_invariant path).remarked (hoccurrence (some occurrence)) _)
      (hcopies _) _ _ _ hbuild
    exact ⟨hplaced.counts, hplaced.elements, hplaced.groups, hplaced.numbered⟩

theorem buildParticle_placed {particle : Particle} (hparticle : particle.OfSchema schema)
    (huse : particle.IsUse) (atLeast : Nat) :
    (buildParticle deeper context atLeast particle path).Ensures (PlacedAt path) := by
  cases particle with
  | element node bounds =>
      exact buildElement_placed hgrounded hnames hcontext hdeeper hparticle.1 hparticle.2 bounds
        atLeast
  | group compositor node bounds =>
      refine (placedAt_invariant path).group ?_ fun _ _ _ => placedAt_groupForm
      intro level hlevel members hmembers member hmember atLeast
      have hmembers : Particle.members schema node = .ok members := hcontext ▸ hmembers
      obtain ⟨origin, -, horigin⟩ := Particle.membersOf_eq_ok hmembers member hmember
      exact (hdeeper level hlevel).particle _ _ _ _ hcontext
        (Particle.members_ofSchema hgrounded hparticle.1 hmembers member hmember)
        (Particle.ofElement?_isUse horigin)
  | attributeUse node =>
      intro state forms after hrun
      exact (buildAttribute_named hgrounded hnames hcontext hparticle huse _ _ _ _ hrun).placedAt
        path

end

theorem levelBelow_givesPlaces {schema : Schema} (hgrounded : schema.Grounded)
    (hnames : schema.NCNamed) (depth : Nat) :
    ∀ level ∈ levelBelow depth, level.GivesPlaces schema := by
  refine level_induction (fun deeper hdeeper => ⟨?_, ?_⟩) depth
  · intro context atLeast particle path hcontext hparticle huse
    exact buildParticle_placed hgrounded hnames hcontext hdeeper hparticle huse atLeast
  · intro context entry path occurrence hcontext howns
    exact buildAttributeEntry_named hgrounded hnames hcontext hdeeper howns occurrence

/-! ## Whole forms -/

theorem compileForm_numbered {source : Xml.Document} {schema : Schema}
    (hschema : Schema.ofDocument source = .ok schema) (hnames : schema.NCNamed)
    {settings : Settings} {name : Option String} {document : Option Xml.Document}
    {forms : RootForms} (hforms : compileForm schema settings name document = .ok forms) :
    forms.root.Numbered ∧ forms.root.label.kind = .element ∧
      forms.root.label.path.toList.getLast? = some ']' := by
  have hgrounded := Schema.grounded_of_ofDocument hschema
  obtain ⟨element, root, after, hglobal, hbuild, hroot⟩ := compileForm_eq_ok hforms
  obtain ⟨howns, hname⟩ := Schema.selectGlobal_eq_ok hgrounded hglobal
  have hplaced := buildElement_placed hgrounded hnames rfl
    (levelBelow_givesPlaces hgrounded hnames settings.maxDepth) howns hname .single 1
    _ _ _ hbuild
  obtain ⟨declaration, hdeclaration, hdeclared⟩ := buildElement_eq_ok.mp hbuild
  obtain ⟨error, occurrence, hfrom⟩ :=
    compiledFrom_of_buildDeclared hdeclared root List.mem_cons_self
  have hname := isNCName_of_declaration hgrounded hnames howns hname hdeclaration
  obtain ⟨hkind, htag⟩ := hfrom.shown
  have hpath : root.label.path ∈
      Form.pathsOf .element declaration.name (root :: forms.surplus) := by
    rw [← hkind, ← htag]
    refine Form.mem_pathsOf ?_
    rw [Form.placedAll, Form.placed_of_element hkind]
    exact List.mem_cons_self
  rw [hplaced.elements _ hname] at hpath
  obtain ⟨place, hplace⟩ := exists_of_mem_numberedPaths hpath
  have hlabel : forms.root.label.kind = root.label.kind ∧
      forms.root.label.path = root.label.path := by
    obtain ⟨label, children⟩ := root
    rw [hroot]
    cases rootError (.node label children) after <;> exact ⟨rfl, rfl⟩
  refine ⟨hroot ▸ (hplaced.numbered root List.mem_cons_self).remarkWith _,
    hlabel.1.trans hkind, ?_⟩
  rw [hlabel.2, hplace, getLast?_placePath]

/-! ## Looking paths up -/

namespace Arena

section

variable {arena : Arena} {root id : FormId} {form : Form}

theorem label?_of_mem_descendants (h : arena.Ordered) (hform : arena.form? root = some form)
    (hid : id ∈ arena.descendants root) :
    ∃ node ∈ form.nodes, arena.label? id = some node.label := by
  have hlabels := h.labels_of_form? hform
  rw [Form.labels_eq_map_nodes, List.map_map] at hlabels
  have hin : arena.label? id ∈ form.nodes.map (some ∘ Form.label) :=
    hlabels ▸ List.mem_map_of_mem hid
  obtain ⟨node, hnode, hlabel⟩ := List.mem_map.mp hin
  exact ⟨node, hnode, hlabel.symm⟩

theorem pathOf?_eq_map_label? (arena : Arena) (id : FormId) :
    arena.pathOf? id = (arena.label? id).map (·.path) := by
  rw [pathOf?, label?, Option.map_map]
  rfl

def isKeyed (arena : Arena) (id : FormId) : Bool :=
  (arena.label? id).any (·.kind != .attributeUse)

theorem nodup_paths (h : arena.Ordered) (hform : arena.form? root = some form)
    (hnumbered : form.Numbered) (hkind : form.label.kind = .element) :
    (((arena.descendants root).filter arena.isKeyed).map arena.pathOf?).Nodup := by
  have hpaths : ((arena.descendants root).filter arena.isKeyed).map arena.pathOf? =
      ((form.nodes.filter Form.isKeyed).map (·.label.path)).map some := by
    have hlabels := congrArg (List.filter (Option.any (·.kind != .attributeUse)))
      (h.labels_of_form? hform)
    rw [Form.labels_eq_map_nodes, List.map_map, List.filter_map, List.filter_map] at hlabels
    have hmapped := congrArg (List.map (Option.map FormLabel.path)) hlabels
    rw [List.map_map, List.map_map] at hmapped
    rw [List.map_map]
    exact (List.map_congr_left fun id _ => arena.pathOf?_eq_map_label? id).trans hmapped
  rw [hpaths]
  exact (hnumbered.nodup_paths hkind).map fun _ _ h => Option.some.inj h

theorem isKeyed_of_pathOf?_eq (h : arena.Ordered) (hform : arena.form? root = some form)
    (hnumbered : form.Numbered) (hkind : form.label.kind = .element)
    (hroot : form.label.path.toList.getLast? = some ']') {other : FormId}
    (hid : id ∈ arena.descendants root) (hother : other ∈ arena.descendants root)
    (hsame : arena.pathOf? other = arena.pathOf? id) (hkeyed : arena.isKeyed id = true) :
    arena.isKeyed other = true := by
  obtain ⟨own, hown, hownLabel⟩ := label?_of_mem_descendants h hform hid
  obtain ⟨node, hnode, hnodeLabel⟩ := label?_of_mem_descendants h hform hother
  rw [pathOf?_eq_map_label?, pathOf?_eq_map_label?, hownLabel, hnodeLabel] at hsame
  have hpaths : node.label.path = own.label.path := Option.some.inj hsame
  rw [isKeyed, hownLabel] at hkeyed
  have hlast := hnumbered.getLast?_path hkind hroot hown hkeyed
  rw [isKeyed, hnodeLabel, Option.any_some, bne_iff_ne]
  intro hattribute
  refine (hnumbered.wellNamed node hnode).getLast?_path hattribute ?_
  rw [hpaths]
  exact hlast

theorem firstAt_eq_some (h : arena.Ordered) (hform : arena.form? root = some form)
    (hnumbered : form.Numbered) (hkind : form.label.kind = .element)
    (hroot : form.label.path.toList.getLast? = some ']') (hid : id ∈ arena.descendants root)
    {label : FormLabel} (hlabel : arena.label? id = some label)
    (hkeyed : label.kind ≠ .attributeUse) : arena.firstAt root label.path = some id := by
  have hpath : arena.pathOf? id = some label.path := by
    rw [pathOf?_eq_map_label?, hlabel, Option.map_some]
  have hown : arena.isKeyed id = true := by
    rw [isKeyed, hlabel, Option.any_some, bne_iff_ne]
    exact hkeyed
  have hfound : (arena.descendants root).find? (fun id => arena.pathOf? id == some label.path) ≠
      none := by
    rw [Ne, List.find?_eq_none]
    intro hnone
    exact hnone id hid (by rw [hpath, beq_self_eq_true])
  obtain ⟨found, hfound⟩ := Option.ne_none_iff_exists'.mp hfound
  have hin := List.mem_of_find?_eq_some hfound
  have hsame : arena.pathOf? found = arena.pathOf? id := by
    rw [hpath]
    simpa using List.find?_some hfound
  have hfoundKeyed := isKeyed_of_pathOf?_eq h hform hnumbered hkind hroot hid hin hsame hown
  rw [firstAt, hfound]
  exact congrArg some (List.inj_on_of_nodup_map (nodup_paths h hform hnumbered hkind)
    (List.mem_filter.mpr ⟨hin, hfoundKeyed⟩) (List.mem_filter.mpr ⟨hid, hown⟩) hsame)

end

end Arena

namespace Workspace

theorem Idle.ordered_run {workspace : Workspace} (hidle : workspace.Idle)
    (h : workspace.arena.Ordered) (request : Request) :
    (workspace.run request).2.arena.Ordered := by
  rw [hidle.run_eq]
  cases request.compile workspace.schema workspace.settings with
  | ok compiled => exact (h.insertAll _).insertAll _
  | error failure => exact h.insertAll _

theorem Idle.ordered_runAll {workspace : Workspace} (hidle : workspace.Idle)
    (h : workspace.arena.Ordered) (requests : List Request) :
    (workspace.runAll requests).arena.Ordered := by
  induction requests generalizing workspace with
  | nil => exact h
  | cons request rest ih => exact ih (hidle.run request) (hidle.ordered_run h request)

theorem Idle.run_root_eq_ok {workspace after : Workspace} (hidle : workspace.Idle)
    {name : Option String} {document : Option Xml.Document} {ids : List FormId}
    (hrun : workspace.run (.root name document) = (.ok ids, after)) :
    ∃ forms, compileForm workspace.schema workspace.settings name document = .ok forms ∧
      ids = [(workspace.arena.insert forms.root).2] ∧
      after.arena =
        ((workspace.arena.insert forms.root).1.insertAll forms.surplus).1 := by
  rw [hidle.run_eq, Request.compile] at hrun
  cases hforms : compileForm workspace.schema workspace.settings name document with
  | error failure => simp [hforms, Except.map, answered] at hrun
  | ok forms =>
      simp only [hforms, Except.map, answered, Prod.mk.injEq, Except.ok.injEq] at hrun
      obtain ⟨rfl, rfl⟩ := hrun
      exact ⟨forms, rfl, rfl, rfl⟩

/-- Whatever has been compiled before, in the form that answers a request for a root the
content of every element is numbered, no two elements or groups have the same path, and
their paths lead back to them. -/
theorem paths_of_run_root {source : Xml.Document} {schema : Schema}
    (hschema : Schema.ofDocument source = .ok schema) (hnames : schema.NCNamed)
    {settings : Settings} {requests : List Request} {name : Option String}
    {document : Option Xml.Document} {ids : List FormId} {after : Workspace}
    (hrun : ((new schema settings).runAll requests).run (.root name document) = (.ok ids, after)) :
    ∃ root form, ids = [root] ∧ after.arena.form? root = some form ∧
      (∀ node ∈ form.nodes, node.label.kind = .element → node.ContentNumbered) ∧
      ((form.nodes.filter Form.isKeyed).map (·.label.path)).Nodup ∧
      ∀ id ∈ after.arena.descendants root, ∀ label, after.arena.label? id = some label →
        label.kind ≠ .attributeUse → after.arena.firstAt root label.path = some id := by
  have hnew := idle_new schema settings
  have hidle := hnew.runAll requests
  have hordered := hidle.ordered_run (hnew.ordered_runAll Arena.ordered_empty requests)
    (.root name document)
  rw [hrun] at hordered
  obtain ⟨forms, hforms, rfl, harena⟩ := hidle.run_root_eq_ok hrun
  rw [congrArg Workspace.schema (hnew.runAll_eq requests)] at hforms
  obtain ⟨hnumbered, hkind, hroot⟩ := compileForm_numbered hschema hnames hforms
  have hgrows := Arena.grows_insertAll
    (((new schema settings).runAll requests).arena.insert forms.root).1 forms.surplus
  have hform : after.arena.form? _ = some forms.root := Arena.form?_of_insert (harena ▸ hgrows)
  exact ⟨_, forms.root, rfl, hform, hnumbered.contents, hnumbered.nodup_paths hkind,
    fun id hid label hlabel hkeyed =>
      Arena.firstAt_eq_some hordered hform hnumbered hkind hroot hid hlabel hkeyed⟩

end Workspace

open Workspace

def discDocument : Xml.Document :=
  .ofRoots (.plain "schema" [] [
    .plain "element" [("name", "disc")] [
      .plain "complexType" [] [
        .plain "sequence" [("maxOccurs", "unbounded")] [
          .plain "choice" [("minOccurs", "2"), ("maxOccurs", "2")] [
            .plain "element" [("name", "track")] [],
            .plain "element" [("name", "break")] []],
          .plain "element" [("name", "track"), ("minOccurs", "0")] []],
        .plain "attribute" [("name", "side")] []]]]) []

def twoSides : Xml.Document :=
  .ofRoots (.plain "disc" [("side", "A")] [
    .plain "track" [] [], .plain "break" [] [], .plain "track" [] [],
    .plain "break" [] [], .plain "track" [] []]) []

theorem twoSides_paths :
    (Schema.given discDocument).NCNamed ∧
      ∃ ids after, ((new (Schema.given discDocument) .default).runAll
          [.root (some "sleeve") none, .root none none]).run (.root none (some twoSides)) =
            (.ok ids, after) ∧
        ∃ root form, ids = [root] ∧ after.arena.form? root = some form ∧
          (∀ node ∈ form.nodes, node.label.kind = .element → node.ContentNumbered) ∧
          ((form.nodes.filter Form.isKeyed).map (·.label.path)).Nodup ∧
          ∀ id ∈ after.arena.descendants root, ∀ label, after.arena.label? id = some label →
            label.kind ≠ .attributeUse → after.arena.firstAt root label.path = some id := by
  have hruns : (((new (Schema.given discDocument) .default).runAll
      [.root (some "sleeve") none, .root none none]).run (.root none (some twoSides))).1.isOk =
        true := by decide +kernel
  have hnames : (Schema.given discDocument).NCNamed := by decide +kernel
  obtain ⟨ids, after, hrun⟩ : ∃ ids after, ((new (Schema.given discDocument) .default).runAll
      [.root (some "sleeve") none, .root none none]).run (.root none (some twoSides)) =
        (.ok ids, after) := by
    generalize ((new (Schema.given discDocument) .default).runAll
      [.root (some "sleeve") none, .root none none]).run (.root none (some twoSides)) = result
      at hruns
    obtain ⟨_ | ids, after⟩ := result
    · cases hruns
    · exact ⟨ids, after, rfl⟩
  exact ⟨hnames, ids, after, hrun,
    paths_of_run_root (Schema.ofDocument_eq_given (by decide +kernel)) hnames hrun⟩

end SchemaForms
