import SchemaForms.Compile.Declaration
import SchemaForms.Proofs.Documents
import SchemaForms.Schema.FirstNames

/-!
# What a schema refers to

Declarations, types, groups and the members of groups are elements of the
document of their schema, wherever they are referred to, and carry the tag of
their kind.
-/

namespace SchemaForms

theorem bind_eq_ok {α β : Type} {outcome : Except SchemaFault α}
    {next : α → Except SchemaFault β} {result : β} :
    (outcome >>= next) = .ok result ↔ ∃ value, outcome = .ok value ∧ next value = .ok result := by
  cases outcome with
  | error fault => simp [bind, Except.bind]
  | ok value => simp [bind, Except.bind]

theorem bind_eq_error {α β : Type} {outcome : Except SchemaFault α}
    {next : α → Except SchemaFault β} {fault : SchemaFault} :
    (outcome >>= next) = .error fault ↔
      outcome = .error fault ∨ ∃ value, outcome = .ok value ∧ next value = .error fault := by
  cases outcome with
  | error fault => simp [bind, Except.bind]
  | ok value => simp [bind, Except.bind]

theorem map_eq_ok {ε α β : Type} {outcome : Except ε α} {change : α → β} {result : β} :
    outcome.map change = .ok result ↔ ∃ value, outcome = .ok value ∧ change value = result := by
  cases outcome <;> simp [Except.map]

theorem map_eq_error {ε α β : Type} {outcome : Except ε α} {change : α → β} {error : ε} :
    outcome.map change = .error error ↔ outcome = .error error := by
  cases outcome <;> simp [Except.map]

def Schema.Owns (schema : Schema) (element : Xml.Element) : Prop :=
  element ∈ schema.document.elements

theorem Schema.Owns.child {schema : Schema} {parent child : Xml.Element}
    (hparent : schema.Owns parent) (hchild : child ∈ parent.elements) : schema.Owns child :=
  Xml.mem_descendantsOf_trans hparent hchild

theorem Schema.Owns.eq_of_number_eq {schema : Schema} {first second : Xml.Element}
    (hfirst : schema.Owns first) (hsecond : schema.Owns second)
    (hnumber : first.number = second.number) : first = second :=
  Xml.Document.eq_of_number_eq hfirst hsecond hnumber

/-! ## Components -/

def ComponentKind.tag : ComponentKind → String
  | .element => "element"
  | .simpleType => "simpleType"
  | .complexType => "complexType"
  | .group => "group"
  | .attributeUse => "attribute"
  | .attributeGroup => "attributeGroup"

theorem ComponentKind.eq_tag_of_ofTag? {tag : String} {kind : ComponentKind}
    (h : ofTag? tag = some kind) : tag = kind.tag := by
  unfold ofTag? at h
  split at h <;> cases h <;> rfl

def Schema.Grounded (schema : Schema) : Prop :=
  ∀ component ∈ schema.components,
    schema.Owns component.element ∧ component.element.name = component.kind.tag

theorem Schema.components?_eq_ok {elements : List Xml.Element} {components : List Component}
    (h : Schema.components? elements = .ok components) :
    ∀ component ∈ components,
      component.element ∈ elements ∧ component.element.name = component.kind.tag := by
  induction elements generalizing components with
  | nil =>
      cases h
      simp
  | cons element rest ih =>
      simp only [Schema.components?] at h
      split at h
      · intro component hcomponent
        obtain ⟨hin, htag⟩ := ih h component hcomponent
        exact ⟨List.mem_cons_of_mem _ hin, htag⟩
      · rename_i kind hkind
        obtain ⟨name, -, h⟩ := bind_eq_ok.mp h
        obtain ⟨others, hothers, h⟩ := bind_eq_ok.mp h
        cases h
        intro component hcomponent
        rcases List.mem_cons.mp hcomponent with rfl | hcomponent
        · exact ⟨List.mem_cons_self, ComponentKind.eq_tag_of_ofTag? hkind⟩
        · obtain ⟨hin, htag⟩ := ih hothers component hcomponent
          exact ⟨List.mem_cons_of_mem _ hin, htag⟩

theorem Schema.ofElement_eq_ok {document : Xml.Document} {root : Xml.Element} {schema : Schema}
    (h : Schema.ofElement document root = .ok schema) :
    schema.document = document ∧ schema.root = root ∧
      Schema.components? root.elements = .ok schema.components := by
  simp only [Schema.ofElement] at h
  split at h
  · obtain ⟨components, hcomponents, h⟩ := bind_eq_ok.mp h
    cases h
    exact ⟨rfl, rfl, hcomponents⟩
  · cases h

theorem Schema.ofDocument_eq_ok {document : Xml.Document} {schema : Schema}
    (h : Schema.ofDocument document = .ok schema) :
    schema.document = document ∧ schema.root = document.root ∧
      Schema.components? document.root.elements = .ok schema.components :=
  Schema.ofElement_eq_ok h

theorem Schema.owns_root {document : Xml.Document} {schema : Schema}
    (h : Schema.ofDocument document = .ok schema) : schema.Owns schema.root := by
  obtain ⟨hdocument, hroot, -⟩ := Schema.ofDocument_eq_ok h
  rw [Schema.Owns, hdocument, hroot]
  exact List.mem_append_left _ List.mem_cons_self

theorem Schema.grounded_of_ofElement {document : Xml.Document} {root : Xml.Element}
    {schema : Schema} (hroot : root ∈ document.elements)
    (h : Schema.ofElement document root = .ok schema) : schema.Grounded := by
  obtain ⟨hdocument, -, hcomponents⟩ := Schema.ofElement_eq_ok h
  have howns : schema.Owns root := by rwa [Schema.Owns, hdocument]
  intro component hcomponent
  obtain ⟨hin, htag⟩ := Schema.components?_eq_ok hcomponents component hcomponent
  exact ⟨howns.child hin, htag⟩

theorem Schema.grounded_of_ofDocument {document : Xml.Document} {schema : Schema}
    (h : Schema.ofDocument document = .ok schema) : schema.Grounded :=
  grounded_of_ofElement (List.mem_append_left _ List.mem_cons_self) h

def Schema.given (document : Xml.Document) : Schema :=
  match Schema.ofDocument document with
  | .ok schema => schema
  | .error _ => ⟨document, document.root, []⟩

theorem Schema.ofDocument_eq_given {document : Xml.Document}
    (h : (Schema.ofDocument document).isOk = true) :
    Schema.ofDocument document = .ok (Schema.given document) := by
  unfold Schema.given
  split
  · rename_i hschema
    exact hschema
  · rename_i hschema
    rw [hschema] at h
    cases h

section

variable {schema : Schema}

theorem Schema.mem_components_of_component? {kind : ComponentKind} {name : ExpandedName}
    {element : Xml.Element} (h : schema.component? kind name = some element) :
    ∃ component ∈ schema.components, component.element = element ∧ component.kind = kind := by
  rw [component?] at h
  split at h
  · obtain ⟨component, hfound, hsame⟩ := Option.map_eq_some_iff.mp h
    have hkind := List.find?_some hfound
    rw [Bool.and_eq_true, beq_iff_eq] at hkind
    exact ⟨component, List.mem_reverse.mp (List.mem_of_find?_eq_some hfound), hsame, hkind.1⟩
  · cases h

theorem Schema.component?_eq_some (hschema : schema.Grounded) {kind : ComponentKind}
    {name : ExpandedName} {element : Xml.Element}
    (h : schema.component? kind name = some element) :
    schema.Owns element ∧ element.name = kind.tag := by
  obtain ⟨component, hin, rfl, rfl⟩ := mem_components_of_component? h
  exact hschema component hin

theorem Schema.lookup_eq_ok (hschema : schema.Grounded) {kind : ComponentKind}
    {reference : ReferenceKind} {name : ExpandedName} {element : Xml.Element}
    (h : schema.lookup kind reference name = .ok element) :
    schema.Owns element ∧ element.name = kind.tag := by
  simp only [Schema.lookup] at h
  split at h
  · rename_i hfound
    cases h
    exact Schema.component?_eq_some hschema hfound
  · cases h

theorem Schema.followReference_eq_ok (hschema : schema.Grounded) {kind : ComponentKind}
    {reference : ReferenceKind} {element target : Xml.Element}
    (h : Schema.followReference (schema.lookup kind reference) element = .ok target) :
    (schema.Owns target ∧ target.name = kind.tag) ∨ target = element := by
  simp only [Schema.followReference] at h
  split at h
  · obtain ⟨name, -, h⟩ := bind_eq_ok.mp h
    exact .inl (Schema.lookup_eq_ok hschema h)
  · cases h
    exact .inr rfl

theorem Schema.selectGlobal_eq_ok (hschema : schema.Grounded) {name : Option String}
    {element : Xml.Element} (h : schema.selectGlobal name = .ok element) :
    schema.Owns element ∧ element.name = "element" := by
  have hglobal : element ∈ schema.globals := by
    cases name with
    | some name =>
        simp only [Schema.selectGlobal] at h
        split at h
        · rename_i hfound
          cases h
          exact List.mem_of_find?_eq_some hfound
        · cases h
    | none =>
        simp only [Schema.selectGlobal] at h
        split at h
        · rename_i hglobals
          cases h
          rw [hglobals]
          exact List.mem_cons_self
        · cases h
  obtain ⟨component, hcomponent, rfl⟩ := List.mem_map.mp hglobal
  obtain ⟨hin, hkind⟩ := List.mem_filter.mp hcomponent
  rw [beq_iff_eq] at hkind
  obtain ⟨howns, htag⟩ := hschema component hin
  rw [hkind] at htag
  exact ⟨howns, htag⟩

/-! ## Types of declared elements -/

theorem Schema.typeDefinition_eq_ok (hschema : schema.Grounded) {name : ExpandedName}
    {definition : Xml.Element} (h : schema.typeDefinition name = .ok (.complex definition)) :
    schema.Owns definition ∧ definition.name = "complexType" := by
  simp only [Schema.typeDefinition] at h
  split at h
  · cases h
  · split at h
    · rename_i hfound
      cases h
      exact Schema.component?_eq_some hschema hfound
    · cases hlookup : schema.lookup .simpleType .typeName name <;> rw [hlookup] at h <;> cases h

theorem Declaration.contentType_eq_ok (hschema : schema.Grounded)
    {declaration definition : Xml.Element} (howns : schema.Owns declaration)
    (h : contentType schema declaration = .ok (.complex definition)) :
    schema.Owns definition ∧ definition.name = "complexType" := by
  simp only [contentType] at h
  split at h
  · rename_i hchild
    cases h
    exact ⟨howns.child (List.mem_of_find?_eq_some hchild),
      by simpa using List.find?_some hchild⟩
  · split at h
    · cases h
    · split at h
      · cases h
      · obtain ⟨name, -, h⟩ := bind_eq_ok.mp h
        obtain ⟨found, hfound, h⟩ := bind_eq_ok.mp h
        split at h <;> cases h
        exact Schema.typeDefinition_eq_ok hschema hfound

theorem demandAttribute_eq_ok {element : Xml.Element} {name value : String} :
    demandAttribute element name = .ok value ↔ element.attribute? name = some value := by
  unfold demandAttribute
  split <;> rename_i hvalue <;> simp [hvalue]

theorem declaredAttribute_eq_ok (hschema : schema.Grounded) {use declaration : Xml.Element}
    {name : String} (howns : schema.Owns use) (huse : use.name = "attribute")
    (h : declaredAttribute schema use = .ok (declaration, name)) :
    schema.Owns declaration ∧ declaration.name = "attribute" ∧
      declaration.attribute? "name" = some name := by
  obtain ⟨target, htarget, h⟩ := bind_eq_ok.mp h
  obtain ⟨found, hfound, h⟩ := bind_eq_ok.mp h
  cases h
  have hvalue := demandAttribute_eq_ok.mp hfound
  rcases Schema.followReference_eq_ok hschema htarget with ⟨hin, htag⟩ | rfl
  · exact ⟨hin, htag, hvalue⟩
  · exact ⟨howns, huse, hvalue⟩

theorem Declaration.ofParticle_eq_ok {settings : Settings} {particle : Xml.Element}
    {declaration : Declaration}
    (h : Declaration.ofParticle schema settings particle = .ok declaration) :
    Schema.followReference schema.element particle = .ok declaration.element ∧
      demandAttribute declaration.element "name" = .ok declaration.name ∧
      contentType schema declaration.element = .ok declaration.content ∧
      declaration.typeName = declaration.element.attribute? "type" ∧
      declaration.module = widgetKey settings.moduleTag declaration.element ∧
      declaration.value = constrainedValue declaration.element ∧
      declaration.space = schema.instanceNamespace declaration.element := by
  obtain ⟨element, helement, h⟩ := bind_eq_ok.mp h
  obtain ⟨name, hname, h⟩ := bind_eq_ok.mp h
  obtain ⟨content, hcontent, h⟩ := bind_eq_ok.mp h
  cases h
  exact ⟨helement, hname, hcontent, rfl, rfl, rfl, rfl⟩

theorem Declaration.owns_of_ofParticle (hschema : schema.Grounded) {settings : Settings}
    {particle : Xml.Element} (howns : schema.Owns particle) {declaration : Declaration}
    (h : Declaration.ofParticle schema settings particle = .ok declaration) :
    schema.Owns declaration.element := by
  have hreference := (ofParticle_eq_ok h).1
  rcases Schema.followReference_eq_ok hschema hreference with ⟨hin, -⟩ | heq
  · exact hin
  · rw [heq]
    exact howns

theorem Declaration.name_of_ofParticle (hschema : schema.Grounded) {settings : Settings}
    {particle : Xml.Element} (hname : particle.name = "element") {declaration : Declaration}
    (h : Declaration.ofParticle schema settings particle = .ok declaration) :
    declaration.element.name = "element" := by
  rcases Schema.followReference_eq_ok hschema (ofParticle_eq_ok h).1 with ⟨-, htag⟩ | heq
  · exact htag
  · rw [heq, hname]

theorem Declaration.owns_definition (hschema : schema.Grounded) {settings : Settings}
    {particle definition : Xml.Element} (howns : schema.Owns particle)
    {declaration : Declaration}
    (h : Declaration.ofParticle schema settings particle = .ok declaration)
    (hcontent : declaration.content = .complex definition) :
    schema.Owns definition ∧ definition.name = "complexType" := by
  have htype := (ofParticle_eq_ok h).2.2.1
  rw [hcontent] at htype
  exact contentType_eq_ok hschema (owns_of_ofParticle hschema howns h) htype

/-! ## Particles -/

/-- The particle stands at an element of the schema: a declaration, a compositor, or a use. -/
def Particle.OfSchema (schema : Schema) : Particle → Prop
  | .element node _ => schema.Owns node ∧ node.name = "element"
  | .group compositor node _ => schema.Owns node ∧ node.name = compositor.label
  | .attributeUse node => schema.Owns node

theorem Particle.OfSchema.owns {particle : Particle} (h : particle.OfSchema schema) :
    schema.Owns particle.node := by
  cases particle with
  | element node bounds => exact h.1
  | group compositor node bounds => exact h.1
  | attributeUse node => exact h

theorem Particle.compositorOf_eq_ok {definition : Xml.Element} (howns : schema.Owns definition)
    {bounds : Bounds} {particle : Particle}
    (h : compositorOf definition bounds = .ok particle) :
    ∃ compositor node, particle = .group compositor node bounds ∧ schema.Owns node ∧
      node.name = compositor.label := by
  simp only [compositorOf] at h
  split at h
  · cases h
  · rename_i node hfound
    have hnode := howns.child (List.mem_of_find?_eq_some hfound)
    split at h
    · rename_i hname
      cases h
      exact ⟨.choice, node, rfl, hnode, hname⟩
    · rename_i hname
      cases h
      exact ⟨.sequence, node, rfl, hnode, hname⟩
    · cases h

theorem Particle.ofGroupReference_eq_ok (hschema : schema.Grounded) {reference : Xml.Element}
    (howns : schema.Owns reference) {particle : Particle}
    (h : ofGroupReference schema reference = .ok particle) :
    ∃ compositor node bounds, particle = .group compositor node bounds ∧ schema.Owns node ∧
      node.name = compositor.label ∧ Bounds.resolve reference = .ok bounds := by
  obtain ⟨-, -, h⟩ := bind_eq_ok.mp h
  obtain ⟨bounds, hbounds, h⟩ := bind_eq_ok.mp h
  obtain ⟨definition, hdefinition, h⟩ := bind_eq_ok.mp h
  have hin : schema.Owns definition := by
    rcases Schema.followReference_eq_ok hschema hdefinition with ⟨hin, -⟩ | rfl
    · exact hin
    · exact howns
  obtain ⟨compositor, node, rfl, hnode, hname⟩ := compositorOf_eq_ok hin h
  exact ⟨compositor, node, bounds, rfl, hnode, hname, hbounds⟩

theorem Particle.ofElement?_ofSchema (hschema : schema.Grounded) {node : Xml.Element}
    (howns : schema.Owns node) {particle : Particle}
    (h : ofElement? schema node = .ok (some particle)) : particle.OfSchema schema := by
  simp only [ofElement?] at h
  split at h
  · rename_i hname
    obtain ⟨bounds, -, h⟩ := bind_eq_ok.mp h
    cases h
    exact ⟨howns, hname⟩
  · rename_i hname
    obtain ⟨bounds, -, h⟩ := bind_eq_ok.mp h
    cases h
    exact ⟨howns, hname⟩
  · rename_i hname
    obtain ⟨bounds, -, h⟩ := bind_eq_ok.mp h
    cases h
    exact ⟨howns, hname⟩
  · cases h
    exact howns
  · obtain ⟨found, hfound, h⟩ := bind_eq_ok.mp h
    cases h
    obtain ⟨compositor, target, bounds, rfl, hin, hname, -⟩ :=
      ofGroupReference_eq_ok hschema howns hfound
    exact ⟨hin, hname⟩
  all_goals cases h

theorem Particle.membersOf_eq_ok {nodes : List Xml.Element} {members : List Particle}
    (h : membersOf schema nodes = .ok members) :
    ∀ member ∈ members, ∃ node ∈ nodes, ofElement? schema node = .ok (some member) := by
  induction nodes generalizing members with
  | nil =>
      cases h
      simp
  | cons node rest ih =>
      obtain ⟨found, hfound, h⟩ := bind_eq_ok.mp h
      obtain ⟨others, hothers, h⟩ := bind_eq_ok.mp h
      cases h
      intro member hmember
      rcases List.mem_append.mp hmember with hmember | hmember
      · rw [Option.mem_toList] at hmember
        subst hmember
        exact ⟨node, List.mem_cons_self, hfound⟩
      · obtain ⟨other, hother, hparticle⟩ := ih hothers member hmember
        exact ⟨other, List.mem_cons_of_mem _ hother, hparticle⟩

theorem Particle.members_ofSchema (hschema : schema.Grounded) {compositor : Xml.Element}
    (howns : schema.Owns compositor) {members : List Particle}
    (h : Particle.members schema compositor = .ok members) :
    ∀ member ∈ members, member.OfSchema schema := by
  intro member hmember
  obtain ⟨node, hnode, hparticle⟩ := membersOf_eq_ok h member hmember
  exact ofElement?_ofSchema hschema (howns.child hnode) hparticle

end

/-! ## Searches for first names -/

theorem collectAll_eq_ok {collect : Particle → List String → Except SchemaFault (List String)}
    {particles : List Particle} {tags names : List String}
    (h : collectAll collect particles tags = .ok names) {particle : Particle}
    (hparticle : particle ∈ particles) : ∃ before after, collect particle before = .ok after := by
  induction particles generalizing tags with
  | nil => cases hparticle
  | cons first rest ih =>
      obtain ⟨found, hfound, h⟩ := bind_eq_ok.mp h
      rcases List.mem_cons.mp hparticle with rfl | hparticle
      · exact ⟨tags, found, hfound⟩
      · exact ih h hparticle

theorem collectFirstNames_group_eq_ok {schema : Schema} {fuel : Nat} {visiting : List Nat}
    {compositor : Compositor} {node : Xml.Element} {bounds : Bounds} {tags names : List String}
    (h : collectFirstNames schema fuel visiting (.group compositor node bounds) tags =
      .ok names) :
    ∃ left members, fuel = left + 1 ∧ node.number ∉ visiting ∧
      Particle.members schema node = .ok members ∧
      collectAll (collectFirstNames schema left (node.number :: visiting)) members tags =
        .ok names := by
  cases fuel with
  | zero => cases h
  | succ left =>
      simp only [collectFirstNames] at h
      split at h
      · cases h
      · rename_i hvisiting
        obtain ⟨members, hmembers, h⟩ := bind_eq_ok.mp h
        exact ⟨left, members, rfl, by simpa using hvisiting, hmembers, h⟩

theorem collectAll_eq_error {collect : Particle → List String → Except SchemaFault (List String)}
    {particles : List Particle} {tags : List String} {fault : SchemaFault}
    (h : collectAll collect particles tags = .error fault) :
    ∃ particle ∈ particles, ∃ before, collect particle before = .error fault := by
  induction particles generalizing tags with
  | nil => cases h
  | cons first rest ih =>
      rcases bind_eq_error.mp h with h | ⟨found, -, h⟩
      · exact ⟨first, List.mem_cons_self, tags, h⟩
      · obtain ⟨particle, hparticle, hfails⟩ := ih h
        exact ⟨particle, List.mem_cons_of_mem _ hparticle, hfails⟩

end SchemaForms
