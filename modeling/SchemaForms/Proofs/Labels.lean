import SchemaForms.Proofs.Places

/-!
# The labels of compiled nodes

Every node of a compiled form has the label that is made of a declaration of an element, of
the use of an attribute, or of a compositor, and only its options may be others. So what
holds of these labels holds of all nodes, whatever is compiled and over whichever instance.
-/

namespace SchemaForms

structure Schema.Gives (schema : Schema) (property : FormLabel → Prop) : Prop where
  options : ∀ (label : FormLabel) (options : Options), property label →
    property { label with options := options }
  element : ∀ (settings : Settings) (node : Xml.Element) (declaration : Declaration),
    schema.Owns node → node.name = "element" →
    Declaration.ofParticle schema settings node = .ok declaration →
    ∀ (value : Option String) (options : Options) (path : String) (source : Option Xml.Element),
      property ⟨.element, declaration.name, value, options, path, declaration.space,
        declaration.element, source⟩
  attributeUse : ∀ (use declaration : Xml.Element) (name : String),
    schema.Owns use → use.name = "attribute" →
    declaredAttribute schema use = .ok (declaration, name) →
    ∀ (value : Option String) (options : Options) (path : String),
      property ⟨.attributeUse, name, value, options, path, none, use, none⟩
  group : ∀ (compositor : Compositor) (node : Xml.Element),
    schema.Owns node → node.name = compositor.label →
    ∀ (options : Options) (path : String),
      property ⟨compositor.kind, compositor.label, none, options, path, none, node, none⟩

def Form.Labelled (property : FormLabel → Prop) (form : Form) : Prop :=
  ∀ label ∈ form.labels, property label

section

variable {schema : Schema} {property : FormLabel → Prop}

theorem Form.labelled_node {label : FormLabel} {children : List Form} :
    (node label children).Labelled property ↔
      property label ∧ ∀ child ∈ children, child.Labelled property := by
  simp only [Labelled, labels, labelsOf_eq_flatMap, List.mem_cons, List.mem_flatMap,
    forall_eq_or_imp, forall_exists_index, and_imp]
  exact and_congr_right fun _ => ⟨fun h child hchild label hlabel => h label child hchild hlabel,
    fun h label child hchild hlabel => h child hchild label hlabel⟩

theorem Form.Labelled.label {form : Form} (h : form.Labelled property) : property form.label := by
  obtain ⟨label, children⟩ := form
  exact (labelled_node.mp h).1

theorem Form.Labelled.of_mem_nodes {form node : Form} (h : form.Labelled property)
    (hnode : node ∈ form.nodes) : node.Labelled property := by
  rw [Labelled, labels_eq_map_nodes, List.forall_mem_map] at h ⊢
  exact fun inner hinner => h inner (nodes_trans hnode hinner)

variable (hgives : schema.Gives property)
include hgives

theorem Form.Labelled.mapOptions {form : Form} (h : form.Labelled property)
    (change : Options → Options) : (form.mapOptions change).Labelled property := by
  obtain ⟨label, children⟩ := form
  obtain ⟨hlabel, hchildren⟩ := labelled_node.mp h
  exact labelled_node.mpr ⟨hgives.options label _ hlabel, hchildren⟩

theorem Form.Labelled.remarkWith {form : Form} (h : form.Labelled property)
    (error : Option Mismatch) : (SchemaForms.remarkWith error form).Labelled property := by
  cases error with
  | none => exact h
  | some error => exact h.mapOptions hgives (·.remark error.message)

theorem labelled_invariant : Build.Invariant (Build.Each (Form.Labelled property)) :=
  Build.each_invariant fun _ h change => h.mapOptions hgives change

/-! ## Levels -/

omit hgives in
structure Level.Labels (level : Level) (schema : Schema) (property : FormLabel → Prop) : Prop where
  particle : ∀ context atLeast particle path, context.schema = schema →
    particle.OfSchema schema → particle.IsUse →
    (level.particle context atLeast particle path).Ensures (Build.Each (Form.Labelled property))
  entry : ∀ context entry path occurrence, context.schema = schema → schema.Owns entry →
    (level.attributeEntry context entry path occurrence).Ensures
      (Build.Each (Form.Labelled property))

variable {deeper : Option Level} {context : Context} {path : String}
  (hcontext : context.schema = schema)
include hcontext

theorem buildAttribute_labelled {use : Xml.Element} (howns : schema.Owns use)
    (huse : use.name = "attribute") (occurrence : Option Xml.Element) :
    (buildAttribute context use path occurrence).Ensures
      (Build.Each (Form.Labelled property)) := by
  refine (Build.each_additive _).attribute fun state declaration name hdeclared form hform => ?_
  rw [List.mem_singleton.mp hform, attributeForm]
  refine Form.labelled_node.mpr ⟨?_, by simp⟩
  exact hgives.attributeUse use declaration name howns huse (hcontext ▸ hdeclared) _ _ _

variable (hgrounded : schema.Grounded) (hdeeper : ∀ level ∈ deeper, level.Labels schema property)
include hgrounded hdeeper

theorem buildAttributeEntry_labelled {entry : Xml.Element} (howns : schema.Owns entry)
    (occurrence : Option Xml.Element) :
    (buildAttributeEntry deeper context entry path occurrence).Ensures
      (Build.Each (Form.Labelled property)) := by
  refine (Build.each_additive _).attributeEntry
    (fun huse => buildAttribute_labelled hgives hcontext howns huse occurrence) ?_
  intro level hlevel definition hdefinition child hchild
  rw [hcontext] at hdefinition
  refine (hdeeper level hlevel).entry _ _ _ _ hcontext (Schema.Owns.child ?_ hchild)
  rcases Schema.followReference_eq_ok hgrounded hdefinition with ⟨hin, -⟩ | rfl
  · exact hin
  · exact howns

omit hgives in
theorem elementContent_labelled {declaration : Declaration}
    (hdeclaration : ∀ definition, declaration.content = .complex definition →
      schema.Owns definition)
    {occurrence : Option Xml.Element} {content : ComplexContent}
    (h : elementContent deeper context declaration path occurrence = .ok content) :
    ∀ child ∈ content.children, child.Labelled property := by
  rcases elementContent_eq_ok.mp h with ⟨-, rfl⟩ |
    ⟨definition, level, children, after, hcomplex, hlevel, -, hitems, rfl⟩
  · rw [simpleContent_children]
    exact fun _ hnone => absurd hnone List.not_mem_nil
  · have howns := hdeclaration definition hcomplex
    have hinner : (context.insideType definition).schema = schema := hcontext
    refine Build.Ensures.all (Build.each_additive _) (fun build hbuild => ?_) _ _ _ hitems
    obtain ⟨item, hitem, rfl⟩ := List.mem_map.mp hbuild
    refine (Build.each_additive _).item (fun particle hparticle => ?_) fun entry hentry => ?_
    · have hparticle : Particle.ofElement? schema item = .ok (some particle) := hcontext ▸ hparticle
      exact (hdeeper level hlevel).particle _ _ _ _ hinner
        (Particle.ofElement?_ofSchema hgrounded (howns.child hitem) hparticle)
        (Particle.ofElement?_isUse hparticle)
    · refine (hdeeper level hlevel).entry _ _ _ _ hinner ?_
      rcases hentry with rfl | ⟨derivation, hderivation, hentry⟩
      · exact howns.child hitem
      · exact ((howns.child hitem).child hderivation).child hentry

theorem buildElement_labelled {node : Xml.Element} (howns : schema.Owns node)
    (hname : node.name = "element") (bounds : Bounds) (atLeast : Nat) :
    (buildElement deeper context node bounds atLeast path).Ensures
      (Build.Each (Form.Labelled property)) := by
  intro state forms after hrun form hform
  obtain ⟨declaration, hdeclaration, hbuild⟩ := buildElement_eq_ok.mp hrun
  rw [hcontext] at hdeclaration
  obtain ⟨error, occurrence, place, content, hcontent, rfl⟩ :=
    compiledFrom_of_buildDeclared hbuild form hform
  refine Form.Labelled.remarkWith hgives (Form.Labelled.remarkWith hgives ?_ _) _
  refine Form.labelled_node.mpr
    ⟨hgives.element context.settings node declaration howns hname hdeclaration _ _ _ _, ?_⟩
  exact elementContent_labelled hcontext hgrounded hdeeper (fun definition hcomplex =>
    (Declaration.owns_definition hgrounded howns hdeclaration hcomplex).1) hcontent

theorem buildParticle_labelled {particle : Particle} (hparticle : particle.OfSchema schema)
    (huse : particle.IsUse) (atLeast : Nat) :
    (buildParticle deeper context atLeast particle path).Ensures
      (Build.Each (Form.Labelled property)) := by
  cases particle with
  | element node bounds =>
      exact buildElement_labelled hgives hcontext hgrounded hdeeper hparticle.1 hparticle.2 bounds
        atLeast
  | group compositor node bounds =>
      refine (labelled_invariant hgives).group ?_ fun state children last hchildren form hform => ?_
      · intro level hlevel members hmembers member hmember atLeast
        have hmembers : Particle.members schema node = .ok members := hcontext ▸ hmembers
        obtain ⟨origin, -, horigin⟩ := Particle.membersOf_eq_ok hmembers member hmember
        exact (hdeeper level hlevel).particle _ _ _ _ hcontext
          (Particle.members_ofSchema hgrounded hparticle.1 hmembers member hmember)
          (Particle.ofElement?_isUse horigin)
      · rw [List.mem_singleton.mp hform, groupForm]
        exact Form.labelled_node.mpr
          ⟨hgives.group compositor node hparticle.1 hparticle.2 _ _, hchildren⟩
  | attributeUse node =>
      exact fun state => buildAttribute_labelled hgives hcontext hparticle huse _ state

omit hcontext hdeeper in
theorem levelBelow_labels (depth : Nat) :
    ∀ level ∈ levelBelow depth, level.Labels schema property := by
  refine level_induction (fun deeper hdeeper => ⟨?_, ?_⟩) depth
  · intro context atLeast particle path hcontext hparticle huse
    exact buildParticle_labelled hgives hcontext hgrounded hdeeper hparticle huse atLeast
  · intro context entry path occurrence hcontext howns
    exact buildAttributeEntry_labelled hgives hcontext hgrounded hdeeper howns occurrence

end

/-! ## Requests -/

def Request.OfSchema (schema : Schema) : Request → Prop
  | .root _ _ => True
  | .particle _ node _ _ => schema.Owns node

theorem Request.labelled_of_compile {schema : Schema} (hgrounded : schema.Grounded)
    {property : FormLabel → Prop} (hgives : schema.Gives property) {settings : Settings}
    {request : Request} (hrequest : request.OfSchema schema) {compiled : Compiled}
    (hcompiled : request.compile schema settings = .ok compiled) :
    ∀ form ∈ compiled.answer ++ compiled.surplus, form.Labelled property := by
  have hlevels := levelBelow_labels hgives hgrounded settings.maxDepth
  cases request with
  | root name document =>
      obtain ⟨forms, hforms, rfl⟩ := map_eq_ok.mp hcompiled
      obtain ⟨element, root, after, hglobal, hbuild, hroot⟩ := compileForm_eq_ok hforms
      obtain ⟨howns, hname⟩ := Schema.selectGlobal_eq_ok hgrounded hglobal
      have hall := buildElement_labelled hgives rfl hgrounded hlevels howns hname .single 1
        _ _ _ hbuild
      rw [Build.Each, List.forall_mem_cons] at hall
      intro form hform
      rcases List.mem_cons.mp hform with rfl | hform
      · exact hroot ▸ hall.1.remarkWith hgives _
      · exact hall.2 form hform
  | particle tag node path parent =>
      obtain ⟨forms, hforms, rfl⟩ := map_eq_ok.mp hcompiled
      obtain ⟨particle, after, hparticle, hrun⟩ := compileParticle_eq_ok hforms
      rw [List.append_nil]
      exact buildParticle_labelled hgives rfl hgrounded hlevels
        (Particle.ofElement?_ofSchema hgrounded hrequest hparticle)
        (Particle.ofElement?_isUse hparticle) 0 _ _ _ hrun

end SchemaForms
