import SchemaForms.Proofs.NodeShapes
import SchemaForms.Proofs.ReopenableSchemas
import SchemaForms.Proofs.Recursion

/-!
# The expansion of attribute groups

The attributes of a complex type are the uses that its entries stand for: a reference to
an attribute group stands for the uses in the group, and a prohibited use for nothing. An
element of the type has one attribute node for each of them, in their order. References
that come back to one of their groups stand for nothing, so that no element of such a type
is ever compiled; and where they come to an end, no definition is found circular.
-/

namespace SchemaForms

/-- The uses that the entries stand for. -/
inductive Schema.Expands (schema : Schema) : List Xml.Element → List Xml.Element → Prop
  | nil : Expands schema [] []
  | use {entry : Xml.Element} {rest uses : List Xml.Element} :
      entry.name = "attribute" → useOf entry ≠ "prohibited" →
      Expands schema rest uses → Expands schema (entry :: rest) (entry :: uses)
  | prohibited {entry : Xml.Element} {rest uses : List Xml.Element} :
      entry.name = "attribute" → useOf entry = "prohibited" →
      Expands schema rest uses → Expands schema (entry :: rest) uses
  | group {entry definition : Xml.Element} {rest inner uses : List Xml.Element} :
      entry.name = "attributeGroup" →
      Schema.followReference schema.attributeGroup entry = .ok definition →
      Expands schema definition.elements inner →
      Expands schema rest uses → Expands schema (entry :: rest) (inner ++ uses)
  | other {entry : Xml.Element} {rest uses : List Xml.Element} :
      entry.name ≠ "attribute" → entry.name ≠ "attributeGroup" →
      Expands schema rest uses → Expands schema (entry :: rest) uses

structure Form.OfUse (occurrence : Option Xml.Element) (use declaration : Xml.Element)
    (name : String) (form : Form) : Prop where
  kind : form.label.kind = .attributeUse
  origin : form.label.origin = use
  tag : form.label.tag = name
  children : form.children = []
  usage : form.label.options.get? OptionKey.use =
    some (.str ((use.attribute? "use").getD "optional"))
  typeName : form.label.options.get? OptionKey.type = (declaration.attribute? "type").map .str
  value : form.label.value =
    match occurrence with
    | some element => element.attribute? name
    | none => ((use.attribute? "default").or (use.attribute? "fixed")).or
        ((declaration.attribute? "default").or (declaration.attribute? "fixed"))

/-- The node is one of the use, whose reference has been followed to its declaration. -/
def Schema.NodeOf (schema : Schema) (occurrence : Option Xml.Element) (use : Xml.Element)
    (form : Form) : Prop :=
  ∃ declaration name, declaredAttribute schema use = .ok (declaration, name) ∧
    form.OfUse occurrence use declaration name

def Schema.ExpandsInto (schema : Schema) (occurrence : Option Xml.Element)
    (entries : List Xml.Element) (forms : List Form) : Prop :=
  ∃ uses, schema.Expands entries uses ∧ List.Forall₂ (schema.NodeOf occurrence) uses
    (forms.filter fun form => form.label.kind == .attributeUse)

section

variable {schema : Schema}

theorem Schema.Expands.append {entries others uses more : List Xml.Element}
    (h : schema.Expands entries uses) (hothers : schema.Expands others more) :
    schema.Expands (entries ++ others) (uses ++ more) := by
  induction h with
  | nil => exact hothers
  | use hname huse _ ih => exact .use hname huse ih
  | prohibited hname huse _ ih => exact .prohibited hname huse ih
  | group hname hdefinition hinner _ _ ih =>
      rw [List.append_assoc]
      exact .group hname hdefinition hinner ih
  | other hattribute hgroup _ ih => exact .other hattribute hgroup ih

theorem Schema.Expands.unique {entries uses others : List Xml.Element}
    (h : schema.Expands entries uses) (hothers : schema.Expands entries others) :
    others = uses := by
  induction h generalizing others with
  | nil =>
      cases hothers
      rfl
  | use hname huse _ ih =>
      cases hothers with
      | use _ _ hrest => rw [ih hrest]
      | prohibited _ hprohibited _ => exact absurd hprohibited huse
      | group hgroup _ _ _ => exact absurd (hname.symm.trans hgroup) (by decide)
      | other hattribute _ _ => exact absurd hname hattribute
  | prohibited hname huse _ ih =>
      cases hothers with
      | use _ hallowed _ => exact absurd huse hallowed
      | prohibited _ _ hrest => exact ih hrest
      | group hgroup _ _ _ => exact absurd (hname.symm.trans hgroup) (by decide)
      | other hattribute _ _ => exact absurd hname hattribute
  | group hname hdefinition _ _ ihInner ih =>
      cases hothers with
      | use hattribute _ _ => exact absurd (hname.symm.trans hattribute) (by decide)
      | prohibited hattribute _ _ => exact absurd (hname.symm.trans hattribute) (by decide)
      | group _ hother hinner hrest =>
          cases hdefinition.symm.trans hother
          rw [ihInner hinner, ih hrest]
      | other _ hgroup _ => exact absurd hname hgroup
  | other hattribute hgroup _ ih =>
      cases hothers with
      | use hname _ _ => exact absurd hname hattribute
      | prohibited hname _ _ => exact absurd hname hattribute
      | group hname _ _ _ => exact absurd hname hgroup
      | other _ _ hrest => exact ih hrest

theorem Schema.Expands.not_circles {entries uses : List Xml.Element}
    (h : schema.Expands entries uses) : ∀ entry ∈ entries, ¬schema.Circles entry := by
  induction h with
  | nil => exact nofun
  | use hname _ _ ih =>
      exact List.forall_mem_cons.mpr
        ⟨fun hcircles => absurd (hname.symm.trans hcircles.1) (by decide), ih⟩
  | prohibited hname _ _ ih =>
      exact List.forall_mem_cons.mpr
        ⟨fun hcircles => absurd (hname.symm.trans hcircles.1) (by decide), ih⟩
  | group _ hdefinition _ _ ihInner ih =>
      refine List.forall_mem_cons.mpr ⟨fun hcircles => ?_, ih⟩
      obtain ⟨child, hchild, hcircles⟩ := hcircles.exists_child hdefinition
      exact ihInner child hchild hcircles
  | other _ hgroup _ ih =>
      exact List.forall_mem_cons.mpr ⟨fun hcircles => hgroup hcircles.1, ih⟩

/-! ## Entries -/

variable {occurrence : Option Xml.Element}

theorem Schema.ExpandsInto.nil : schema.ExpandsInto occurrence [] [] := ⟨[], .nil, .nil⟩

theorem Schema.ExpandsInto.append {entries others : List Xml.Element} {forms more : List Form}
    (h : schema.ExpandsInto occurrence entries forms)
    (hothers : schema.ExpandsInto occurrence others more) :
    schema.ExpandsInto occurrence (entries ++ others) (forms ++ more) := by
  obtain ⟨uses, huses, hforms⟩ := h
  obtain ⟨moreUses, hmoreUses, hmore⟩ := hothers
  refine ⟨uses ++ moreUses, huses.append hmoreUses, ?_⟩
  rw [List.filter_append]
  exact List.rel_append hforms hmore

theorem get?_type_attributeOptions (use declaration : Xml.Element) :
    (attributeOptions use declaration).get? OptionKey.type =
      (declaration.attribute? "type").map .str := by
  simp only [attributeOptions]
  cases declaration.attribute? "type" with
  | none =>
      exact Text.Dictionary.get?_insert_of_ne _ (by decide) _
  | some typeName => exact Text.Dictionary.get?_insert_self _ _ _

theorem ofUse_attributeForm (use declaration : Xml.Element) (name path : String)
    (occurrence : Option Xml.Element) :
    (attributeForm use declaration name path occurrence).OfUse occurrence use declaration
      name where
  kind := rfl
  origin := rfl
  tag := rfl
  children := rfl
  usage := get?_use_attributeOptions use declaration
  typeName := get?_type_attributeOptions use declaration
  value := by cases occurrence <;> rfl

theorem expandsInto_of_all {entriesOf : Xml.Element → List Xml.Element}
    {build : Xml.Element → Build} {parts : List Xml.Element} {state after : BuildState}
    {forms : List Form}
    (hpart : ∀ part, (build part).Ensures fun _ forms _ =>
      schema.ExpandsInto occurrence (entriesOf part) forms)
    (hrun : Build.all (parts.map build) state = .ok (forms, after)) :
    schema.ExpandsInto occurrence (parts.flatMap entriesOf) forms := by
  induction parts generalizing state forms with
  | nil =>
      obtain ⟨rfl, -⟩ := Build.nothing_eq_ok.mp hrun
      exact .nil
  | cons part rest ih =>
      obtain ⟨before, middle, others, hbefore, hothers, rfl⟩ := Build.andThen_eq_ok.mp hrun
      exact (hpart part _ _ _ hbefore).append (ih hothers)

def Level.ExpandsEntries (schema : Schema) (level : Level) : Prop :=
  ∀ context entry path occurrence, context.schema = schema →
    (level.attributeEntry context entry path occurrence).Ensures fun _ forms _ =>
      schema.ExpandsInto occurrence [entry] forms

theorem buildAttributeEntry_expands {deeper : Option Level}
    (hdeeper : ∀ level ∈ deeper, level.ExpandsEntries schema) {context : Context}
    (hschema : context.schema = schema) (entry : Xml.Element) (path : String)
    (occurrence : Option Xml.Element) :
    (buildAttributeEntry deeper context entry path occurrence).Ensures fun _ forms _ =>
      schema.ExpandsInto occurrence [entry] forms := by
  intro state forms after hrun
  by_cases hattribute : entry.name = "attribute"
  · rw [buildAttributeEntry_of_attribute hattribute] at hrun
    simp only [buildAttribute] at hrun
    split at hrun
    · rename_i huse
      obtain ⟨rfl, -⟩ := Build.nothing_eq_ok.mp hrun
      exact ⟨[], .prohibited hattribute huse .nil, .nil⟩
    · rename_i huse
      obtain ⟨⟨declaration, name⟩, hdeclared, hemit⟩ := Build.ofFault_eq_ok.mp hrun
      obtain ⟨rfl, -⟩ := Build.emit_eq_ok.mp hemit
      exact ⟨[entry], .use hattribute huse .nil, .cons ⟨declaration, name, hschema ▸ hdeclared,
        ofUse_attributeForm entry declaration name path occurrence⟩ .nil⟩
  by_cases hgroup : entry.name = "attributeGroup"
  · rw [buildAttributeEntry_of_group hgroup] at hrun
    obtain ⟨definition, hdefinition, hrun⟩ := Build.ofFault_eq_ok.mp hrun
    obtain ⟨⟨inner, level⟩, henter, hrun⟩ := Build.ofFault_eq_ok.mp hrun
    obtain ⟨-, hlevel, rfl⟩ := Context.enter_eq_ok.mp henter
    obtain ⟨uses, huses, hforms⟩ := expandsInto_of_all (fun child =>
      hdeeper level hlevel (context.inside definition) child path occurrence hschema) hrun
    rw [List.flatMap_singleton'] at huses
    refine ⟨uses ++ [], .group hgroup (hschema ▸ hdefinition) huses .nil, ?_⟩
    rwa [List.append_nil]
  · rw [buildAttributeEntry_of_other hattribute hgroup] at hrun
    obtain ⟨rfl, -⟩ := Build.nothing_eq_ok.mp hrun
    exact ⟨[], .other hattribute hgroup .nil, .nil⟩

theorem levelBelow_expandsEntries (levels : Nat) :
    ∀ level ∈ levelBelow levels, level.ExpandsEntries schema :=
  level_induction (fun _ hdeeper _ entry path occurrence hschema =>
    buildAttributeEntry_expands hdeeper hschema entry path occurrence) levels

/-! ## Items -/

theorem Particle.ne_attributeUse_of_model {item : Xml.Element} (hmodel : item.name ∈ modelItems)
    {particle : Particle} (h : Particle.ofElement? schema item = .ok (some particle))
    (node : Xml.Element) : particle ≠ .attributeUse node := by
  rintro rfl
  simp only [modelItems, List.mem_cons, List.not_mem_nil, or_false] at hmodel
  rcases hmodel with hname | hname | hname | hname | hname <;>
    simp only [Particle.ofElement?, hname] at h
  · obtain ⟨_, -, h⟩ := bind_eq_ok.mp h
    cases h
  · obtain ⟨_, -, h⟩ := bind_eq_ok.mp h
    cases h
  · obtain ⟨found, hfound, h⟩ := bind_eq_ok.mp h
    cases h
    obtain ⟨-, -, hfound⟩ := bind_eq_ok.mp hfound
    obtain ⟨bounds, -, hfound⟩ := bind_eq_ok.mp hfound
    obtain ⟨definition, -, hfound⟩ := bind_eq_ok.mp hfound
    simp only [Particle.compositorOf] at hfound
    split at hfound
    · cases hfound
    · split at hfound <;> cases hfound
  · cases h
  · cases h

variable {levels : Nat} {context : Context} {path : String}

theorem buildItem_expands {level : Level} (hlevel : level ∈ levelBelow levels)
    (hschema : context.schema = schema) (item : Xml.Element) :
    (buildItem level context item path occurrence).Ensures fun _ forms _ =>
      schema.ExpandsInto occurrence (attributeEntries item) forms := by
  have hentry : level.ExpandsEntries schema := levelBelow_expandsEntries levels level hlevel
  intro state forms after hrun
  by_cases hsimple : item.name = "simpleContent"
  · rw [buildItem_of_simpleContent hsimple, buildSimpleContent, ← List.map_flatMap] at hrun
    rw [attributeEntries, if_pos hsimple, ← List.flatMap_singleton' (List.flatMap _ _)]
    exact expandsInto_of_all (fun child => hentry context child path occurrence hschema) hrun
  rw [attributeEntries, if_neg hsimple]
  by_cases hmodel : item.name ∈ modelItems
  · rw [buildItem_of_model hmodel] at hrun
    obtain ⟨found, hfound, hrun⟩ := Build.ofFault_eq_ok.mp hrun
    obtain ⟨particle, rfl⟩ := Particle.exists_of_model hmodel hfound
    obtain ⟨left, -, rfl⟩ := mem_levelBelow hlevel
    have hmember := Particle.ne_attributeUse_of_model hmodel hfound
    have hkind := buildParticle_kind hmember _ _ _ _ _ hrun
    have hnone : forms.filter (fun form => form.label.kind == .attributeUse) = [] :=
      List.filter_eq_nil_iff.mpr fun form hform => by simpa using hkind form hform
    refine ⟨[], .other ?_ ?_ .nil, by rw [hnone]; exact .nil⟩
    · rintro hname
      exact absurd (hname ▸ hmodel) (by decide)
    · rintro hname
      exact absurd (hname ▸ hmodel) (by decide)
  rcases item_cases hmodel with hattribute | hname | hignored | hunsupported
  · rw [buildItem_of_attribute hattribute] at hrun
    exact hentry context item path occurrence hschema _ _ _ hrun
  · exact absurd hname hsimple
  · rw [buildItem_of_ignored hignored] at hrun
    obtain ⟨rfl, -⟩ := Build.nothing_eq_ok.mp hrun
    refine ⟨[], .other ?_ ?_ .nil, .nil⟩ <;> rcases hignored with hname | hname <;>
      (rw [hname]; decide)
  · rw [buildItem_of_unsupported hunsupported] at hrun
    cases hrun

theorem elementContent_expands (hschema : context.schema = schema) {declaration : Declaration}
    {definition : Xml.Element} (hcontent : declaration.content = .complex definition)
    {content : ComplexContent}
    (h : elementContent (levelBelow levels) context declaration path occurrence = .ok content) :
    schema.ExpandsInto occurrence (definition.elements.flatMap attributeEntries)
      content.children := by
  rcases elementContent_eq_ok.mp h with ⟨hsimple, -⟩ |
    ⟨found, level, children, after, hfound, hlevel, -, hitems, rfl⟩
  · exact nomatch hcontent.symm.trans hsimple
  · cases hcontent.symm.trans hfound
    have hinner : (context.insideType definition).schema = schema := hschema
    exact expandsInto_of_all (fun item => buildItem_expands hlevel hinner item) hitems

def Form.HasAttributes (schema : Schema) (form : Form) : Prop :=
  form.label.kind = .element → ∀ definition,
    Declaration.contentType schema form.label.origin = .ok (.complex definition) →
      schema.ExpandsInto form.label.source (definition.elements.flatMap attributeEntries)
        form.children

theorem makes_hasAttributes (schema : Schema) (settings : Settings) (editing : Bool) :
    schema.Makes settings editing (Form.HasAttributes schema) where
  selected form value h := by
    rw [Form.HasAttributes, Form.insertOption, Form.label_mapOptions, Form.children_mapOptions]
    exact h
  remarked form message _ _ h := by
    rw [Form.HasAttributes, Form.remark, Form.label_mapOptions, Form.children_mapOptions]
    exact h
  attributeUse _ _ _ _ _ _ _ := nofun
  group compositor _ _ _ _ hkind := by cases compositor <;> cases hkind
  element levels context particle declaration bounds path occurrence content hschema hdeclaration
      hcontent _ definition htype := by
    have hdeclared := (Declaration.ofParticle_eq_ok hdeclaration).2.2.1
    have hexpands := elementContent_expands hschema
      (Except.ok.inj (hdeclared.symm.trans htype)) hcontent
    exact hexpands

/-! ## Circles -/

theorem not_entry_fails_circular {source : Xml.Document}
    (hschema : Schema.ofDocument source = .ok schema) {settings : Settings}
    (hentered : context.Entered schema settings) {definition entry : Xml.Element}
    (howns : schema.Owns definition) (hname : definition.name = "complexType")
    (hentry : entry ∈ definition.elements.flatMap attributeEntries)
    (hends : ¬schema.Circles entry) (state : BuildState) (text : String) :
    ¬(buildAttributeEntry (levelBelow levels) (context.insideType definition) entry path
      occurrence).Fails state (.circularDefinition text) := by
  have hinner := (hentered.type howns hname).outsideAttributes
  have hentryOwns : schema.Owns entry := by
    obtain ⟨item, hitem, hentry⟩ := List.mem_flatMap.mp hentry
    rw [attributeEntries] at hentry
    split at hentry
    · obtain ⟨derivation, hderivation, hchild⟩ := List.mem_flatMap.mp hentry
      exact ((howns.child hitem).child hderivation).child hchild
    · rw [List.mem_singleton.mp hentry]
      exact howns.child hitem
  refine not_attributeEntry_fails_circular (Schema.grounded_of_ofDocument hschema)
    hinner.sameSchema hentryOwns hends fun _ outer _ houter hgroup hencloses => ?_
  rw [hinner.outside outer houter hgroup] at hencloses
  cases hencloses

/-- In every form that a workspace ever has, an element of a complex type has one attribute
node for each use that the entries of the type stand for, in their order. If an entry leads
into a circle of attribute groups, the type is never compiled, with or without an instance;
if none does, no definition is found circular among them. -/
theorem Workspace.attributes_expanded {source : Xml.Document}
    (hschema : Schema.ofDocument source = .ok schema) (settings : Settings) :
    (∀ requests id, id.index < ((new schema settings).runAll requests).arena.size →
      ∃ form, ((new schema settings).runAll requests).arena.form? id = some form ∧
        (form.label.kind = .element → ∀ definition,
          Declaration.contentType schema form.label.origin = .ok (.complex definition) →
          ∃ uses,
            (∀ others, schema.Expands (definition.elements.flatMap attributeEntries) others ↔
              others = uses) ∧
            List.Forall₂ (schema.NodeOf form.label.source) uses
              (form.children.filter fun child => child.label.kind == .attributeUse))) ∧
    ∀ definition, schema.Owns definition → definition.name = "complexType" →
      ((∃ entry ∈ definition.elements.flatMap attributeEntries, schema.Circles entry) →
        ∀ levels (context : Context) declaration path occurrence content,
          context.schema = schema → declaration.content = .complex definition →
          elementContent (levelBelow levels) context declaration path occurrence ≠ .ok content) ∧
      ((∀ entry ∈ definition.elements.flatMap attributeEntries, ¬schema.Circles entry) →
        ∀ entry ∈ definition.elements.flatMap attributeEntries,
        ∀ levels (context : Context) path occurrence state text,
          context.Entered schema settings →
          ¬(buildAttributeEntry (levelBelow levels) (context.insideType definition) entry path
            occurrence).Fails state (.circularDefinition text)) := by
  refine ⟨fun requests id hid => ?_, fun definition howns hname => ⟨?_, ?_⟩⟩
  · obtain ⟨_, _, _, form, -, -, -, hform, hattributes⟩ :=
      property_of_runs (makes_hasAttributes schema settings) requests hid
    refine ⟨form, hform, fun hkind definition htype => ?_⟩
    obtain ⟨uses, huses, hnodes⟩ := hattributes hkind definition htype
    exact ⟨uses, fun others => ⟨huses.unique, fun hsame => hsame ▸ huses⟩, hnodes⟩
  · rintro ⟨entry, hentry, hcircles⟩ levels context declaration path occurrence content
      hcontext hcontent h
    obtain ⟨uses, huses, -⟩ := elementContent_expands hcontext hcontent h
    exact huses.not_circles entry hentry hcircles
  · intro hends entry hentry levels context path occurrence state text hentered
    exact not_entry_fails_circular hschema hentered howns hname hentry (hends entry hentry) state
      text

end

def productDocument : Xml.Document :=
  .ofRoots (.plain "schema" [] [
    .plain "element" [("name", "product"), ("type", "productType")] [],
    .plain "complexType" [("name", "productType")] [
      .plain "simpleContent" [] [
        .plain "extension" [("base", "string")] [
          .plain "attributeGroup" [("ref", "labels")] [],
          .plain "attribute" [("name", "price"), ("use", "required")] []]]],
    .plain "attributeGroup" [("name", "labels")] [
      .plain "attribute" [("name", "shop"), ("default", "corner")] [],
      .plain "attribute" [("name", "shelf"), ("use", "prohibited")] []],
    .plain "complexType" [("name", "packageType")] [
      .plain "attributeGroup" [("ref", "stamps")] []],
    .plain "attributeGroup" [("name", "stamps")] [
      .plain "attribute" [("name", "country")] [],
      .plain "attributeGroup" [("ref", "stamps")] []]]) []

/-- The labels come first, without the shelf. -/
theorem products_expand :
    (Schema.given productDocument).Expands
      ((productDocument.node 2).elements.flatMap attributeEntries)
      [productDocument.node 8, productDocument.node 6] := by
  have hentries : (productDocument.node 2).elements.flatMap attributeEntries =
      [productDocument.node 5, productDocument.node 6] := by decide +kernel
  have hlabels : (productDocument.node 7).elements =
      [productDocument.node 8, productDocument.node 9] := by decide +kernel
  have hgroup : Schema.followReference (Schema.given productDocument).attributeGroup
      (productDocument.node 5) = .ok (productDocument.node 7) := by decide +kernel
  have hinner : (Schema.given productDocument).Expands (productDocument.node 7).elements
      [productDocument.node 8] := by
    rw [hlabels]
    exact .use (by decide +kernel) (by decide +kernel)
      (.prohibited (by decide +kernel) (by decide +kernel) .nil)
  rw [hentries]
  exact .group (by decide +kernel) hgroup hinner
    (.use (by decide +kernel) (by decide +kernel) .nil)

/-- The stamps of a package refer to themselves. -/
theorem packages_circle : (Schema.given productDocument).Circles (productDocument.node 11) := by
  have hgroup : Schema.followReference (Schema.given productDocument).attributeGroup
      (productDocument.node 11) = .ok (productDocument.node 12) := by decide +kernel
  have howns : (Schema.given productDocument).Owns (productDocument.node 12) := by
    unfold Schema.Owns
    decide +kernel
  refine ⟨by decide +kernel, _, _, hgroup, .refl, .single ⟨howns, ?_⟩⟩
  decide +kernel

theorem products_expanded :
    let schema := Schema.given productDocument
    let products := (Workspace.new schema .default).runAll
      [.root none (some (.ofRoots (.plain "product" [("price", "3")] []) []))]
    (∃ form, products.arena.form? ⟨2⟩ = some form ∧
      List.Forall₂ (schema.NodeOf form.label.source)
        [productDocument.node 8, productDocument.node 6]
        (form.children.filter fun child => child.label.kind == .attributeUse)) ∧
    (∀ levels declaration path occurrence content,
      declaration.content = .complex (productDocument.node 10) →
      elementContent (levelBelow levels) (.start schema .default) declaration path occurrence ≠
        .ok content) ∧
    ∀ levels path occurrence state text,
      ¬(buildAttributeEntry (levelBelow levels)
        ((Context.start schema .default).insideType (productDocument.node 2))
        (productDocument.node 5) path occurrence).Fails state (.circularDefinition text) := by
  intro schema products
  have howns : ∀ number ∈ [2, 10], schema.Owns (productDocument.node number) := by
    unfold Schema.Owns
    decide +kernel
  have hschema : Schema.ofDocument productDocument = .ok schema :=
    Schema.ofDocument_eq_given (by decide +kernel)
  obtain ⟨hnodes, htypes⟩ := Workspace.attributes_expanded hschema .default
  refine ⟨?_, ?_, ?_⟩
  · obtain ⟨form, hform, hattributes⟩ := hnodes
      [.root none (some (.ofRoots (.plain "product" [("price", "3")] []) []))] ⟨2⟩
      (by decide +kernel)
    have hlabel : (products.arena.form? ⟨2⟩).any (fun form =>
        decide (form.label.kind = .element) &&
          decide (form.label.origin = productDocument.node 1)) = true := by decide +kernel
    rw [hform, Option.any_some, Bool.and_eq_true, decide_eq_true_eq, decide_eq_true_eq] at hlabel
    obtain ⟨uses, huses, hmade⟩ := hattributes hlabel.1 (productDocument.node 2)
      (by rw [hlabel.2]; decide +kernel)
    rw [← (huses _).mp products_expand] at hmade
    exact ⟨form, hform, hmade⟩
  · intro levels declaration path occurrence content hcontent
    have hentry : productDocument.node 11 ∈
        (productDocument.node 10).elements.flatMap attributeEntries := by decide +kernel
    exact (htypes (productDocument.node 10) (howns 10 (by decide)) (by decide +kernel)).1
      ⟨_, hentry, packages_circle⟩ levels _ declaration path occurrence content rfl hcontent
  · intro levels path occurrence state text
    exact (htypes (productDocument.node 2) (howns 2 (by decide)) (by decide +kernel)).2
      products_expand.not_circles (productDocument.node 5) (by decide +kernel) levels _ path
      occurrence state text .start

end SchemaForms
