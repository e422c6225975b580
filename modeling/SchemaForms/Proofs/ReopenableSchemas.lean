import SchemaForms.Proofs.UniqueNames

/-!
# Schemas whose forms can be reopened

What a schema must keep to so that a form, a fresh one or one of an instance, is found again
in what is written for it, and a search that tells whether it does.
-/

namespace SchemaForms

/-! ## Particles in particles -/

/-- The particle is the other one, or has it among its members, with the references to
groups followed. -/
inductive Particle.Contains (schema : Schema) : Particle → Particle → Prop
  | self {particle : Particle} : Particle.Contains schema particle particle
  | member {compositor : Compositor} {node : Xml.Element} {bounds : Bounds}
      {members : List Particle} {member inner : Particle} :
      Particle.members schema node = .ok members → member ∈ members →
      Particle.Contains schema member inner →
      Particle.Contains schema (.group compositor node bounds) inner

def Schema.Uses (schema : Schema) (particle : Particle) : Prop :=
  ∃ definition model top, schema.Owns definition ∧ definition.name = "complexType" ∧
    contentModel schema definition = .ok model ∧ top ∈ model ∧ top.Contains schema particle

/-- At most once, or a fixed number of times. -/
def Bounds.Fixed (bounds : Bounds) : Prop :=
  bounds.repeats = false ∨ bounds.max = .count bounds.min

instance (bounds : Bounds) : Decidable bounds.Fixed :=
  inferInstanceAs (Decidable (bounds.repeats = false ∨ bounds.max = .count bounds.min))

section

variable {schema : Schema}

theorem Particle.Contains.trans {outer middle inner : Particle}
    (hfirst : outer.Contains schema middle) (hsecond : middle.Contains schema inner) :
    outer.Contains schema inner := by
  induction hfirst with
  | self => exact hsecond
  | member hmembers hmember _ ih => exact .member hmembers hmember (ih hsecond)

theorem Schema.Uses.contains {outer inner : Particle} (h : schema.Uses outer)
    (hinner : outer.Contains schema inner) : schema.Uses inner := by
  obtain ⟨definition, model, top, howns, hname, hmodel, htop, hcontains⟩ := h
  exact ⟨definition, model, top, howns, hname, hmodel, htop, hcontains.trans hinner⟩

end

/-! ## Names of attributes -/

inductive AttributeNames (schema : Schema) : List Xml.Element → List String → Prop
  | nil : AttributeNames schema [] []
  | prohibited {entry : Xml.Element} {rest : List Xml.Element} {names : List String} :
      entry.name = "attribute" → useOf entry = "prohibited" →
      AttributeNames schema rest names → AttributeNames schema (entry :: rest) names
  | use {entry declaration : Xml.Element} {name : String} {rest : List Xml.Element}
      {names : List String} :
      entry.name = "attribute" → useOf entry ≠ "prohibited" →
      declaredAttribute schema entry = .ok (declaration, name) →
      AttributeNames schema rest names → AttributeNames schema (entry :: rest) (name :: names)
  | group {entry definition : Xml.Element} {rest : List Xml.Element}
      {inner names : List String} :
      entry.name = "attributeGroup" →
      Schema.followReference schema.attributeGroup entry = .ok definition →
      AttributeNames schema definition.elements inner →
      AttributeNames schema rest names → AttributeNames schema (entry :: rest) (inner ++ names)
  | other {entry : Xml.Element} {rest : List Xml.Element} {names : List String} :
      entry.name ≠ "attribute" → entry.name ≠ "attributeGroup" →
      AttributeNames schema rest names → AttributeNames schema (entry :: rest) names

def attributeEntries (item : Xml.Element) : List Xml.Element :=
  if item.name = "simpleContent" then item.elements.flatMap (·.elements) else [item]

theorem AttributeNames.append {schema : Schema} {entries others : List Xml.Element}
    {names more : List String} (h : AttributeNames schema entries names)
    (hothers : AttributeNames schema others more) :
    AttributeNames schema (entries ++ others) (names ++ more) := by
  induction h with
  | nil => exact hothers
  | prohibited hname huse _ ih => exact .prohibited hname huse ih
  | use hname huse hdeclared _ ih => exact .use hname huse hdeclared ih
  | group hname hdefinition hinner _ _ ih =>
      rw [List.append_assoc]
      exact .group hname hdefinition hinner ih
  | other hattribute hgroup _ ih => exact .other hattribute hgroup ih

/-! ## Schemas whose forms can be reopened -/

/-- In every content model names are used once, nothing occurs never, and what is
repeated with a group has one number of occurrences; attributes stand outside of
particles and have different names; simple content excludes a content model; and
values of simple elements are not blank. -/
structure Schema.Reopenable (schema : Schema) : Prop where
  namesUnique : schema.NamesUnique
  fixed : ∀ compositor node bounds members, schema.Uses (.group compositor node bounds) →
    bounds.repeats = true → Particle.members schema node = .ok members →
    ∀ member ∈ members, ∀ inner, member.Contains schema inner → inner.bounds.Fixed
  occurs : ∀ particle, schema.Uses particle → particle.bounds.max ≠ .count 0
  noAttributeUse : ∀ node, ¬schema.Uses (.attributeUse node)
  attributesDiffer : ∀ definition, schema.Owns definition → definition.name = "complexType" →
    ∀ names, AttributeNames schema (definition.elements.flatMap attributeEntries) names →
      names.Nodup
  simple : ∀ definition, schema.Owns definition → definition.name = "complexType" →
    hasSimpleContent definition = true → ∀ item ∈ definition.elements, item.name ∉ modelItems
  leafValues : ∀ declaration, schema.Owns declaration → declaration.name = "element" →
    Declaration.contentType schema declaration = .ok .simple →
    ∀ value, constrainedValue declaration = some value → Text.isBlank value = false

structure ModelReopens (schema : Schema) (repeated : Bool) (model : List Particle) : Prop where
  plain : PlainModel schema model
  uses : ∀ particle ∈ model, schema.Uses particle
  fixed : repeated = true → ∀ particle ∈ model, ∀ inner, particle.Contains schema inner →
    inner.bounds.Fixed

section

variable {schema : Schema} {repeated : Bool}

theorem ModelReopens.of_mem {model : List Particle} (h : ModelReopens schema repeated model)
    {particle : Particle} (hparticle : particle ∈ model) :
    ModelReopens schema repeated [particle] :=
  ⟨h.plain.of_mem hparticle, by simpa using h.uses particle hparticle,
    fun hrepeated => by simpa using h.fixed hrepeated particle hparticle⟩

theorem ModelReopens.tail {particle : Particle} {rest : List Particle}
    (h : ModelReopens schema repeated (particle :: rest)) : ModelReopens schema repeated rest :=
  ⟨h.plain.tail,
    fun other hother => h.uses other (List.mem_cons_of_mem _ hother),
    fun hrepeated other hother => h.fixed hrepeated other (List.mem_cons_of_mem _ hother)⟩

theorem ModelReopens.members (hgrounded : schema.Grounded) (hschema : schema.Reopenable)
    {compositor : Compositor} {node : Xml.Element} {bounds : Bounds}
    (h : ModelReopens schema repeated [.group compositor node bounds]) {members : List Particle}
    (hmembers : Particle.members schema node = .ok members) :
    ModelReopens schema (repeated || bounds.repeats) members := by
  have huses := h.uses _ (List.mem_singleton_self _)
  refine ⟨h.plain.members hgrounded hmembers,
    fun member hmember => huses.contains (.member hmembers hmember .self),
    fun hrepeated member hmember inner hinner => ?_⟩
  rcases Bool.or_eq_true _ _ ▸ hrepeated with hrepeated | hrepeats
  · exact h.fixed hrepeated _ (List.mem_singleton_self _) inner (.member hmembers hmember hinner)
  · exact hschema.fixed _ _ _ _ huses hrepeats hmembers member hmember inner hinner

theorem ModelReopens.of_definition (hgrounded : schema.Grounded) (hschema : schema.Reopenable)
    {definition : Xml.Element} (howns : schema.Owns definition)
    (hname : definition.name = "complexType") {model : List Particle}
    (hmodel : contentModel schema definition = .ok model) : ModelReopens schema false model :=
  ⟨.of_definition hgrounded hschema.namesUnique howns hname hmodel,
    fun particle hparticle =>
      ⟨definition, model, particle, howns, hname, hmodel, hparticle, .self⟩,
    fun hrepeated => by cases hrepeated⟩

end

/-! ## The search for what cannot be reopened -/

def keepsBounds (inside : Bool) (bounds : Bounds) : Bool :=
  decide (bounds.max ≠ .count 0) && (!inside || decide bounds.Fixed)

def particleKept (schema : Schema) : Nat → Bool → Particle → Bool
  | _, inside, .element _ bounds => keepsBounds inside bounds
  | _, _, .attributeUse _ => false
  | 0, _, .group _ _ _ => false
  | fuel + 1, inside, .group _ node bounds =>
      keepsBounds inside bounds &&
        match Particle.members schema node with
        | .error _ => true
        | .ok members => members.all (particleKept schema fuel (inside || bounds.repeats))

def entryNames (schema : Schema) (fuel : Nat) (entry : Xml.Element) :
    Except SchemaFault (List String) :=
  if entry.name = "attribute" then
    if useOf entry = "prohibited" then .ok []
    else do return [(← declaredAttribute schema entry).2]
  else if entry.name = "attributeGroup" then
    match fuel with
    | 0 => .error (.circularDefinition (schema.describe entry))
    | fuel + 1 => do
        let definition ← Schema.followReference schema.attributeGroup entry
        namesOfAll (entryNames schema fuel) definition.elements
  else .ok []

namespace Schema

def particlesKept (schema : Schema) (definition : Xml.Element) : Bool :=
  match contentModel schema definition with
  | .error _ => true
  | .ok model => model.all (particleKept schema schema.document.elements.length false)

def attributesKept (schema : Schema) (definition : Xml.Element) : Bool :=
  match namesOfAll (entryNames schema schema.document.elements.length)
      (definition.elements.flatMap attributeEntries) with
  | .error _ => false
  | .ok names => decide names.Nodup

def simpleKept (definition : Xml.Element) : Bool :=
  !hasSimpleContent definition ||
    definition.elements.all fun item => !modelItems.contains item.name

def valueKept (schema : Schema) (declaration : Xml.Element) : Bool :=
  match Declaration.contentType schema declaration with
  | .ok .simple => (constrainedValue declaration).all fun value => !Text.isBlank value
  | _ => true

def isReopenable (schema : Schema) : Bool :=
  schema.document.elements.all fun element =>
    (element.name != "complexType" ||
        schema.namesDiffer element && schema.particlesKept element &&
          schema.attributesKept element && simpleKept element) &&
      (element.name != "element" || schema.valueKept element)

end Schema

section

variable {schema : Schema}

theorem particleKept_of_contains {outer inner : Particle} (hcontains : outer.Contains schema inner)
    {fuel : Nat} {inside : Bool} (h : particleKept schema fuel inside outer = true) :
    ∃ left within, (inside = true → within = true) ∧
      particleKept schema left within inner = true := by
  induction hcontains generalizing fuel inside with
  | self => exact ⟨fuel, inside, id, h⟩
  | member hmembers hmember _ ih =>
      cases fuel with
      | zero => cases h
      | succ fuel =>
          simp only [particleKept, hmembers, Bool.and_eq_true, List.all_eq_true] at h
          obtain ⟨left, within, hwithin, hkept⟩ := ih (h.2 _ hmember)
          exact ⟨left, within, fun hinside => hwithin (by rw [hinside, Bool.true_or]), hkept⟩

theorem bounds_of_particleKept {particle : Particle} {fuel : Nat} {inside : Bool}
    (h : particleKept schema fuel inside particle = true) :
    particle.bounds.max ≠ .count 0 ∧ (inside = true → particle.bounds.Fixed) ∧
      ∀ node, particle ≠ .attributeUse node := by
  have hkept : keepsBounds inside particle.bounds = true ∧
      ∀ node, particle ≠ .attributeUse node := by
    cases particle with
    | element node bounds =>
        cases fuel <;> exact ⟨h, by simp⟩
    | group compositor node bounds =>
        cases fuel with
        | zero => cases h
        | succ fuel =>
            rw [particleKept, Bool.and_eq_true] at h
            exact ⟨h.1, by simp⟩
    | attributeUse node => cases fuel <;> cases h
  obtain ⟨hbounds, hnode⟩ := hkept
  simp only [keepsBounds, Bool.and_eq_true, decide_eq_true_eq, Bool.or_eq_true,
    Bool.not_eq_true'] at hbounds
  exact ⟨hbounds.1, fun hinside => hbounds.2.resolve_left (by simp [hinside]), hnode⟩

theorem AttributeNames.eq_of_namesOfAll {entries : List Xml.Element} {names : List String}
    (h : AttributeNames schema entries names) {fuel : Nat} {found : List String}
    (hfound : namesOfAll (entryNames schema fuel) entries = .ok found) : found = names := by
  induction h generalizing fuel found with
  | nil =>
      cases hfound
      rfl
  | prohibited hname huse _ ih =>
      obtain ⟨own, hown, hfound⟩ := bind_eq_ok.mp hfound
      obtain ⟨others, hothers, hfound⟩ := bind_eq_ok.mp hfound
      cases hfound
      rw [entryNames.eq_def, if_pos hname, if_pos huse] at hown
      cases hown
      exact ih hothers
  | use hname huse hdeclared _ ih =>
      obtain ⟨own, hown, hfound⟩ := bind_eq_ok.mp hfound
      obtain ⟨others, hothers, hfound⟩ := bind_eq_ok.mp hfound
      cases hfound
      rw [entryNames.eq_def, if_pos hname, if_neg huse, hdeclared] at hown
      cases hown
      rw [ih hothers]
      rfl
  | group hname hdefinition _ _ ihInner ih =>
      obtain ⟨own, hown, hfound⟩ := bind_eq_ok.mp hfound
      obtain ⟨others, hothers, hfound⟩ := bind_eq_ok.mp hfound
      cases hfound
      rw [entryNames.eq_def, if_neg (by simp [hname]), if_pos hname] at hown
      cases fuel with
      | zero => cases hown
      | succ fuel =>
          obtain ⟨definition, hother, hown⟩ := bind_eq_ok.mp hown
          cases hdefinition.symm.trans hother
          rw [ihInner hown, ih hothers]
  | other hattribute hgroup _ ih =>
      obtain ⟨own, hown, hfound⟩ := bind_eq_ok.mp hfound
      obtain ⟨others, hothers, hfound⟩ := bind_eq_ok.mp hfound
      cases hfound
      rw [entryNames.eq_def, if_neg hattribute, if_neg hgroup] at hown
      cases hown
      exact ih hothers

theorem Schema.reopenable_of_isReopenable (h : schema.isReopenable = true) :
    schema.Reopenable := by
  simp only [Schema.isReopenable, List.all_eq_true, Bool.and_eq_true, Bool.or_eq_true,
    bne_iff_ne, ne_eq, ← imp_iff_not_or] at h
  have huses : ∀ particle, schema.Uses particle →
      ∃ left within, particleKept schema left within particle = true := by
    rintro particle ⟨definition, model, top, howns, hname, hmodel, htop, hcontains⟩
    have hkept := ((h definition howns).1 hname).1.1.2
    simp only [Schema.particlesKept, hmodel, List.all_eq_true] at hkept
    obtain ⟨left, within, -, hparticle⟩ := particleKept_of_contains hcontains (hkept top htop)
    exact ⟨left, within, hparticle⟩
  constructor
  case namesUnique =>
    exact Schema.namesUnique_of_namesDiffer fun definition howns hname =>
      ((h definition howns).1 hname).1.1.1
  case fixed =>
    intro compositor node bounds members hgroup hrepeats hmembers member hmember inner hinner
    obtain ⟨left, within, hkept⟩ := huses _ hgroup
    cases left with
    | zero => cases hkept
    | succ left =>
        simp only [particleKept, hmembers, Bool.and_eq_true, List.all_eq_true] at hkept
        obtain ⟨_, deep, hdeep, hinnerKept⟩ := particleKept_of_contains hinner (hkept.2 _ hmember)
        exact (bounds_of_particleKept hinnerKept).2.1 (hdeep (by rw [hrepeats, Bool.or_true]))
  case occurs =>
    intro particle hparticle
    obtain ⟨left, within, hkept⟩ := huses particle hparticle
    exact (bounds_of_particleKept hkept).1
  case noAttributeUse =>
    intro node hnode
    obtain ⟨left, within, hkept⟩ := huses _ hnode
    exact (bounds_of_particleKept hkept).2.2 node rfl
  case attributesDiffer =>
    intro definition howns hname names hnames
    have hkept := ((h definition howns).1 hname).1.2
    unfold Schema.attributesKept at hkept
    split at hkept
    · cases hkept
    · rename_i found hfound
      exact hnames.eq_of_namesOfAll hfound ▸ of_decide_eq_true hkept
  case simple =>
    intro definition howns hname hsimple item hitem
    have hkept := ((h definition howns).1 hname).2
    simp only [Schema.simpleKept, hsimple, Bool.not_true, Bool.false_or, List.all_eq_true] at hkept
    simpa using hkept item hitem
  case leafValues =>
    intro declaration howns hname hsimple value hvalue
    have hkept := (h declaration howns).2 hname
    simp only [Schema.valueKept, hsimple, hvalue, Option.all_some] at hkept
    simpa using hkept

end

end SchemaForms
