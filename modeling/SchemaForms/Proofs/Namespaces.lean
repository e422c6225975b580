import SchemaForms.Proofs.Labels
import SchemaForms.Proofs.Qualification
import SchemaForms.Proofs.SavedForms

/-!
# Namespaces of written elements

A form declares a namespace for an element where it differs from the one around it. So the
name of each element that is written for a compiled form resolves to the namespace that its
declaration gives it, wherever qualified elements stand in unqualified ones and the other
way around. A declared attribute with the name of a namespace declaration breaks this.
-/

namespace SchemaForms

/-! ## Elements in the scope of attributes -/

namespace Xml

namespace Markup

def name : Markup → String
  | .element name _ _ _ => name

def attributes : Markup → List (String × String)
  | .element _ attributes _ _ => attributes

def children : Markup → List Markup
  | .element _ _ _ children => children

end Markup

def declaringName (name : String) : String :=
  if ':' ∈ name.toList then "xmlns:" ++ String.ofList (name.toList.takeWhile (· != ':'))
  else "xmlns"

structure Written where
  markup : Markup
  around : List (String × String)

namespace Written

def scope (written : Written) : List (String × String) :=
  written.markup.attributes ++ written.around

def namespace? (written : Written) : Option String :=
  written.scope.lookup (declaringName written.markup.name)

def elements (written : Written) : List Written :=
  written.markup.children.map (⟨·, written.scope⟩)

theorem namespace?_of_unprefixed {name : String} (h : ':' ∉ name.toList)
    (attributes : List (String × String)) (text : Option String) (children : List Markup)
    (around : List (String × String)) :
    (⟨.element name attributes text children, around⟩ : Written).namespace? =
      (attributes ++ around).lookup "xmlns" := by
  have hname : declaringName name = "xmlns" := if_neg h
  rw [← hname]
  rfl

end Written

/-! ## Scopes that are read -/

def Scope.default? (scope : Scope) : Option String := (scope.find? (·.1 == none)).map (·.2)

theorem Scope.default?_extend (inherited declared : Scope) :
    (inherited.extend declared).default? = declared.default?.or inherited.default? := by
  rw [default?, default?, default?, extend, List.find?_append, List.find?_filter, Option.map_or]
  cases hown : declared.find? (·.1 == none) with
  | some found => rfl
  | none =>
      have hkept : declared.any (·.1 == none) = false := by
        rw [List.any_eq_false]
        exact List.find?_eq_none.mp hown
      rw [Option.map_none, Option.none_or, Option.none_or]
      congr 2
      funext declaration
      obtain ⟨namePrefix, space⟩ := declaration
      cases namePrefix with
      | some namePrefix => exact decide_eq_false fun h => absurd h.2 (by simp)
      | none =>
          simp only [hkept]
          rfl

theorem default?_declaredBy (attributes : List (String × String)) :
    Scope.default? (declaredBy attributes) = attributes.lookup "xmlns" := by
  induction attributes with
  | nil => rfl
  | cons first rest ih =>
      obtain ⟨name, value⟩ := first
      by_cases hname : name = "xmlns"
      · subst hname
        rfl
      · have hother : ("xmlns" == name) = false := beq_eq_false_iff_ne.mpr (Ne.symm hname)
        rw [List.lookup_cons, hother, ← ih, declaredBy,
          List.filter_cons_of_neg (by simpa using hname)]
        rfl

end Xml

open Xml (Markup Written)

/-! ## Expanded names -/

structure Schema.Declares (schema : Schema) (label : FormLabel) : Prop where
  owns : schema.Owns label.origin
  element : label.origin.name = "element"
  named : label.origin.attribute? "name" = some label.tag
  particle : ∃ particle, schema.Owns particle ∧ particle.name = "element" ∧
    Schema.followReference schema.element particle = .ok label.origin ∧
    ((particle.attribute? "ref").isSome = true → label.origin ∈ schema.root.elements)

structure FormLabel.ExpandedAs (schema : Schema) (label : FormLabel) (name : String)
    (space : Option String) : Prop where
  declared : schema.Declares label
  name : name = label.tag
  space : space.getD "" = schema.elementNamespace label.origin

/-- The element that is written for the node has its expanded name, and so have all in it. -/
inductive Form.NamedIn (schema : Schema) : Form → Written → Prop
  | intro {form : Form} {written : Written} :
      form.label.ExpandedAs schema written.markup.name written.namespace? →
      List.Forall₂ (NamedIn schema) form.content written.elements → NamedIn schema form written

/-- The element that is read for the node has its expanded name, and so have all in it. -/
inductive Form.ReadIn (schema : Schema) : Form → Xml.Element → Prop
  | intro {form : Form} {element : Xml.Element} :
      form.label.ExpandedAs schema element.name (element.namespace? none) →
      List.Forall₂ (ReadIn schema) form.content element.elements → ReadIn schema form element

theorem forall₂_trans {α β γ : Type} {first : α → β → Prop} {second : β → γ → Prop}
    {both : α → γ → Prop} {xs : List α} {ys : List β} {zs : List γ}
    (hfirst : List.Forall₂ first xs ys) (hsecond : List.Forall₂ second ys zs)
    (h : ∀ y ∈ ys, ∀ x z, first x y → second y z → both x z) : List.Forall₂ both xs zs := by
  induction hfirst generalizing zs with
  | nil =>
      cases hsecond
      exact .nil
  | cons hone _ ih =>
      cases hsecond with
      | cons htwo hrest =>
          rw [List.forall_mem_cons] at h
          exact .cons (h.1 _ _ hone htwo) (ih hrest h.2)

/-- What is resolved where an element is written is resolved where it is read. -/
theorem Form.NamedIn.readIn {schema : Schema} {form : Form} {markup : Markup}
    {outer : List (String × String)} (h : form.NamedIn schema ⟨markup, outer⟩)
    (hstable : markup.Stable) {around : Xml.Scope}
    (haround : around.default? = outer.lookup "xmlns") {depth : Nat} {element : Xml.Element}
    (hread : markup.ReadUnder around depth element) : form.ReadIn schema element := by
  induction markup using Markup.inChildren generalizing form outer around depth element with
  | element name attributes text children ih =>
      obtain ⟨hname, -, hscope, -, helements⟩ := hread.cases
      obtain ⟨hnc, -, -, hchildren⟩ := hstable
      rw [Markup.allStable_iff] at hchildren
      have hinner : Xml.Scope.default? (around.extend (Xml.declaredBy attributes)) =
          (attributes ++ outer).lookup "xmlns" := by
        rw [Xml.Scope.default?_extend, Xml.default?_declaredBy, haround, List.lookup_append]
      obtain ⟨-, -, -, -, hchars⟩ := Xml.exists_of_isNCName hnc
      have hcolon : ':' ∉ name.toList := fun hcolon => (hchars ':' hcolon).2 rfl
      cases h with
      | intro hexpanded hbelow =>
          refine .intro ⟨hexpanded.declared, hname.trans hexpanded.name, ?_⟩ ?_
          · have hspace := hexpanded.space
            rw [Written.namespace?_of_unprefixed hcolon, ← hinner] at hspace
            rw [Xml.Element.namespace?, hscope]
            exact hspace
          · rw [Written.elements, List.forall₂_map_right_iff] at hbelow
            exact forall₂_trans hbelow helements fun child hin form element hnamed hread =>
              ih child hin hnamed (hchildren child hin) hinner hread

/-! ## What is written for a node -/

namespace Form

structure HasOwnNamespace (schema : Schema) (form : Form) : Prop where
  declared : schema.Declares form.label
  space : form.label.space.getD "" = schema.elementNamespace form.label.origin
  tag : ':' ∉ form.label.tag.toList
  attributes : ∀ written ∈ form.writtenAttributes, written.1 ≠ "xmlns"

theorem lookup_namespaceDeclaration {around own : Option String}
    {attributes scope : List (String × String)}
    (hattributes : ∀ written ∈ attributes, written.1 ≠ "xmlns")
    (hscope : (scope.lookup "xmlns").getD "" = around.getD "") :
    ((namespaceDeclaration around own ++ attributes ++ scope).lookup "xmlns").getD "" =
      own.getD "" := by
  have hnone : attributes.lookup "xmlns" = none :=
    List.lookup_eq_none_iff.mpr fun written hwritten => by
      simpa using (hattributes written hwritten).symm
  rw [namespaceDeclaration, List.append_assoc, List.lookup_append, List.lookup_append, hnone]
  split
  · rename_i hsame
    rw [hsame, ← hscope]
    rfl
  · rfl

/-- With levels for all the nodes below, elements are written with their expanded names,
where the namespace around them is the one in scope. -/
theorem namedIn_markupWithin {schema : Schema} {form : Form}
    (hnodes : ∀ node, form.Writes node → node.HasOwnNamespace schema) {levels : Nat}
    (hsize : form.size ≤ levels) {around : Option String} {scope : List (String × String)}
    (hscope : (scope.lookup "xmlns").getD "" = around.getD "") :
    form.NamedIn schema ⟨form.markupWithin levels around, scope⟩ := by
  induction levels generalizing form around scope with
  | zero => exact absurd hsize (Nat.not_le_of_lt form.size_pos)
  | succ levels ih =>
      have hown := hnodes form .root
      have hinner : ((namespaceDeclaration around form.label.space ++ form.writtenAttributes ++
          scope).lookup "xmlns").getD "" = form.label.space.getD "" :=
        lookup_namespaceDeclaration hown.attributes hscope
      refine .intro ⟨hown.declared, rfl, ?_⟩ ?_
      · rw [markupWithin, Written.namespace?_of_unprefixed hown.tag]
        exact hinner.trans hown.space
      · rw [Written.elements, List.forall₂_map_right_iff, markupWithin, Markup.children,
          List.forall₂_map_right_iff, List.forall₂_same]
        intro child hin
        exact ih (fun node hnode => hnodes node (hnode.of_child hin))
          (Nat.le_of_lt_succ (Nat.lt_of_lt_of_le (size_lt_of_mem_content hin) hsize)) hinner

mutual
theorem of_mem_surface {form shown : Form} (h : shown ∈ form.surface) :
    shown ∈ form.nodes ∧ shown.label.kind = .element := by
  obtain ⟨label, children⟩ := form
  rw [surface] at h
  split at h
  case h_1 hkind =>
    obtain rfl := List.mem_singleton.mp h
    exact ⟨mem_nodes_self _, hkind⟩
  case h_2 => cases h
  case h_3 => exact (of_mem_surfaceAll h).imp_left (List.mem_cons_of_mem _)
  case h_4 => exact (of_mem_surfaceSelected h).imp_left (List.mem_cons_of_mem _)

theorem of_mem_surfaceAll {forms : List Form} {shown : Form} (h : shown ∈ surfaceAll forms) :
    shown ∈ nodesOf forms ∧ shown.label.kind = .element := by
  cases forms with
  | nil => cases h
  | cons form rest =>
      rw [surfaceAll, List.mem_append] at h
      rw [nodesOf]
      rcases h with h | h
      · exact (of_mem_surface h).imp_left (List.mem_append_left _)
      · exact (of_mem_surfaceAll h).imp_left (List.mem_append_right _)

theorem of_mem_surfaceSelected {forms : List Form} {shown : Form}
    (h : shown ∈ surfaceSelected forms) :
    shown ∈ nodesOf forms ∧ shown.label.kind = .element := by
  cases forms with
  | nil => cases h
  | cons form rest =>
      rw [surfaceSelected, List.mem_append] at h
      rw [nodesOf]
      rcases h with h | h
      · split at h
        · exact (of_mem_surface h).imp_left (List.mem_append_left _)
        · cases h
      · exact (of_mem_surfaceSelected h).imp_left (List.mem_append_right _)
end

theorem Writes.mem_nodes {root node : Form} (h : root.Writes node)
    (hkind : root.label.kind = .element) : node ∈ root.nodes ∧ node.label.kind = .element := by
  induction h with
  | root => exact ⟨mem_nodes_self root, hkind⟩
  | @content form child _ hchild ih =>
      obtain ⟨hin, hkind⟩ := of_mem_surfaceAll hchild
      refine ⟨nodes_trans ih.1 ?_, hkind⟩
      rw [nodes_eq]
      exact List.mem_cons_of_mem _ hin

end Form

/-! ## Compiled forms -/

/-- The elements that the schema declares have names without a prefix. -/
def Schema.Unprefixed (schema : Schema) : Prop :=
  ∀ element ∈ schema.document.elements, element.name = "element" →
    ∀ name ∈ element.attribute? "name", ':' ∉ name.toList

instance (schema : Schema) : Decidable schema.Unprefixed :=
  inferInstanceAs (Decidable (∀ element ∈ schema.document.elements, element.name = "element" →
    ∀ name ∈ element.attribute? "name", ':' ∉ name.toList))

/-- No attribute that the schema declares has the name of a namespace declaration. -/
def Schema.SparesXmlns (schema : Schema) : Prop :=
  ∀ element ∈ schema.document.elements, element.name = "attribute" →
    element.attribute? "name" ≠ some "xmlns"

instance (schema : Schema) : Decidable schema.SparesXmlns :=
  inferInstanceAs (Decidable (∀ element ∈ schema.document.elements, element.name = "attribute" →
    element.attribute? "name" ≠ some "xmlns"))

structure FormLabel.OfDeclaration (schema : Schema) (label : FormLabel) : Prop where
  element : label.kind = .element →
    schema.Declares label ∧ label.space = schema.instanceNamespace label.origin
  attributeUse : label.kind = .attributeUse → ∃ declaration, schema.Owns declaration ∧
    declaration.name = "attribute" ∧ declaration.attribute? "name" = some label.tag

theorem Schema.gives_ofDeclaration {document : Xml.Document} {schema : Schema}
    (hschema : Schema.ofDocument document = .ok schema) :
    schema.Gives (FormLabel.OfDeclaration schema) where
  options := by
    rintro label options ⟨helement, hattribute⟩
    refine ⟨fun hkind => ?_, hattribute⟩
    obtain ⟨hdeclares, hspace⟩ := helement hkind
    exact ⟨⟨hdeclares.owns, hdeclares.element, hdeclares.named, hdeclares.particle⟩, hspace⟩
  element := by
    intro settings node declaration howns hname hdeclaration value options path source
    obtain ⟨hreference, hnamed, -, -, -, -, hspace⟩ := Declaration.ofParticle_eq_ok hdeclaration
    have hgrounded := Schema.grounded_of_ofDocument hschema
    refine ⟨fun _ => ⟨⟨?_, ?_, ?_, node, howns, hname, hreference, fun href => ?_⟩, hspace⟩, nofun⟩
    · exact Declaration.owns_of_ofParticle hgrounded howns hdeclaration
    · exact Declaration.name_of_ofParticle hgrounded hname hdeclaration
    · exact demandAttribute_eq_ok.mp hnamed
    · exact Schema.mem_root_of_reference hschema href hreference
  attributeUse := by
    intro use declaration name howns huse hdeclared value options path
    exact ⟨nofun, fun _ => ⟨declaration, declaredAttribute_eq_ok
      (Schema.grounded_of_ofDocument hschema) howns huse hdeclared⟩⟩
  group := by
    intro compositor node howns hname options path
    constructor <;> cases compositor <;> nofun

theorem Form.Labelled.hasOwnNamespace {document : Xml.Document} {schema : Schema}
    (hschema : Schema.ofDocument document = .ok schema) (hunprefixed : schema.Unprefixed)
    (hspares : schema.SparesXmlns) {form : Form}
    (h : form.Labelled (FormLabel.OfDeclaration schema)) (hkind : form.label.kind = .element) :
    form.HasOwnNamespace schema := by
  obtain ⟨label, children⟩ := form
  obtain ⟨hlabel, hchildren⟩ := Form.labelled_node.mp h
  obtain ⟨hdeclares, hspace⟩ := hlabel.element hkind
  refine ⟨hdeclares, ?_, hunprefixed _ hdeclares.owns hdeclares.element _ hdeclares.named, ?_⟩
  · exact hspace ▸ Schema.instanceNamespace_getD hschema hdeclares.owns
  · rintro ⟨name, value⟩ hwritten rfl
    obtain ⟨child, hchild, hattribute⟩ := List.mem_filterMap.mp hwritten
    rw [writtenAttribute?] at hattribute
    split at hattribute
    case isFalse => cases hattribute
    case isTrue huse =>
      obtain ⟨value, -, hsame⟩ := Option.map_eq_some_iff.mp hattribute
      obtain ⟨declaration, howns, hname, hnamed⟩ :=
        (hchildren child hchild).label.attributeUse huse
      rw [(Prod.mk.inj hsame).1] at hnamed
      exact hspares declaration howns hname hnamed

/-- Whatever a request compiles, and over whichever instance, the elements that are written
for an element of the form resolve to the names and the namespaces of their declarations:
the target namespace for global and for qualified ones, and none for the others. If the names
and the values can be read again, so are the namespaces. -/
theorem Request.compile_expandedNames {document : Xml.Document} {schema : Schema}
    (hschema : Schema.ofDocument document = .ok schema) (hunprefixed : schema.Unprefixed)
    (hspares : schema.SparesXmlns) {settings : Settings} {request : Request}
    (hrequest : request.OfSchema schema) {compiled : Compiled}
    (hcompiled : request.compile schema settings = .ok compiled) {root : Form}
    (hroot : root ∈ Form.nodesOf (compiled.answer ++ compiled.surplus))
    (hkind : root.label.kind = .element) :
    root.NamedIn schema ⟨root.markup, []⟩ ∧
      ((∀ node, root.Writes node → node.HasPlainNames) →
        (∀ node, root.Writes node → node.HasStableValues) → ∀ allowDoctype,
          ∃ written, Xml.Document.read allowDoctype root.toXml = .ok written ∧
            root.ReadIn schema written.root) := by
  have hlabelled := Request.labelled_of_compile (Schema.grounded_of_ofDocument hschema)
    (Schema.gives_ofDeclaration hschema) hrequest hcompiled
  have hnodes : ∀ node, root.Writes node → node.HasOwnNamespace schema := by
    intro node hwrites
    rw [Form.nodesOf_eq_flatMap, List.mem_flatMap] at hroot
    obtain ⟨form, hform, hroot⟩ := hroot
    obtain ⟨hnode, hkind⟩ := hwrites.mem_nodes hkind
    have hlabels := ((hlabelled form hform).of_mem_nodes hroot).of_mem_nodes hnode
    exact hlabels.hasOwnNamespace hschema hunprefixed hspares hkind
  have hnamed : root.NamedIn schema ⟨root.markup, []⟩ :=
    Form.namedIn_markupWithin hnodes (Nat.le_refl _) rfl
  refine ⟨hnamed, fun hnames hvalues allowDoctype => ?_⟩
  have hstable : root.markup.Stable := Form.markupWithin_stable hnames (Nat.le_refl _) hvalues none
  obtain ⟨written, hread, -, hunder⟩ := Markup.exists_readUnder hstable allowDoctype
  exact ⟨written, hread, hnamed.readIn hstable rfl hunder⟩

def tripDocument : Xml.Document :=
  .ofRoots (.plain "schema" [("targetNamespace", "urn:trips")] [
    .plain "element" [("name", "trip")] [
      .plain "complexType" [] [
        .plain "sequence" [("maxOccurs", "2")] [
          .plain "element" [("name", "leg")] [
            .plain "complexType" [] [
              .plain "sequence" [] [
                ⟨⟨0, none, "element", [⟨none, "ref", "place"⟩], [(none, "urn:trips")]⟩, []⟩,
                .plain "element" [("name", "fare"), ("default", "9")] []],
              .plain "attribute" [("name", "carrier"), ("default", "rail")] []]],
          .plain "element" [("name", "stay"), ("form", "qualified"), ("minOccurs", "0")] []]]],
    .plain "element" [("name", "place")] [
      .plain "complexType" [] [
        .plain "sequence" [] [.plain "element" [("name", "town")] []]]]]) []

def weekendTrip : Xml.Document :=
  .ofRoots (.plain "trip" [] [
    .plain "leg" [("carrier", "bus")] [.plain "place" [] [.plain "town" [] []]],
    .plain "stay" [] [], .plain "leg" [] []]) []

theorem weekendTrip_expandedNames :
    (Schema.given tripDocument).Unprefixed ∧ (Schema.given tripDocument).SparesXmlns ∧
      ∃ compiled root,
        (Request.root none (some weekendTrip)).compile (Schema.given tripDocument) .default =
          .ok compiled ∧ compiled.answer = [root] ∧
        root.content.map (fun node => (node.label.tag, node.label.space)) =
          [("leg", none), ("stay", some "urn:trips"), ("leg", none)] ∧
        root.NamedIn (Schema.given tripDocument) ⟨root.markup, []⟩ ∧
        ∃ written, Xml.Document.read false root.toXml = .ok written ∧
          root.ReadIn (Schema.given tripDocument) written.root := by
  have hnames : (Schema.given tripDocument).Unprefixed ∧
      (Schema.given tripDocument).SparesXmlns := by decide +kernel
  have hchecked : ((Request.root none (some weekendTrip)).compile (Schema.given tripDocument)
      .default).toOption.any (fun compiled => compiled.answer.any fun root =>
        compiled.answer == [root] && root.label.kind == .element &&
          root.content.map (fun node => (node.label.tag, node.label.space)) ==
            [("leg", none), ("stay", some "urn:trips"), ("leg", none)] &&
          root.allWritten
            (fun node => decide node.HasPlainNames && decide node.HasStableValues) 4) = true := by
    decide +kernel
  obtain ⟨compiled, hcompiled, hchecked⟩ := exists_of_checked hchecked
  obtain ⟨root, -, hchecked⟩ := List.any_eq_true.mp hchecked
  simp only [Bool.and_eq_true, beq_iff_eq] at hchecked
  obtain ⟨⟨⟨hanswer, hkind⟩, hcontent⟩, hwritten⟩ := hchecked
  have hnodes : ∀ node, root.Writes node → node.HasPlainNames ∧ node.HasStableValues := by
    intro node hnode
    have hnode := Form.of_allWritten hwritten hnode
    simpa using hnode
  have hroot : root ∈ Form.nodesOf (compiled.answer ++ compiled.surplus) := by
    rw [hanswer, List.singleton_append, Form.nodesOf]
    exact List.mem_append_left _ (Form.mem_nodes_self root)
  have hrequest : (Request.root none (some weekendTrip)).OfSchema (Schema.given tripDocument) :=
    trivial
  obtain ⟨hnamed, hread⟩ := Request.compile_expandedNames
    (Schema.ofDocument_eq_given (by decide +kernel)) hnames.1 hnames.2 hrequest hcompiled hroot
    hkind
  exact ⟨hnames.1, hnames.2, compiled, root, hcompiled, hanswer, hcontent, hnamed,
    hread (fun node hnode => (hnodes node hnode).1) (fun node hnode => (hnodes node hnode).2) false⟩

def forwardedDocument : Xml.Document :=
  .ofRoots (.plain "schema" [("targetNamespace", "urn:notes"),
      ("elementFormDefault", "qualified")] [
    .plain "element" [("name", "note")] [
      .plain "complexType" [] [
        .plain "sequence" [] [
          .plain "element" [("name", "to")] [
            .plain "complexType" [] [
              .plain "attribute" [("name", "xmlns"), ("default", "urn:other")] []]]]]]]) []

/-- The receiver is qualified, but what is written for it is in another namespace. -/
theorem forwardedNote_not_namedIn :
    (Schema.given forwardedDocument).Unprefixed ∧
      ∃ compiled root,
        (Request.root none none).compile (Schema.given forwardedDocument) .default =
          .ok compiled ∧
        root ∈ Form.nodesOf (compiled.answer ++ compiled.surplus) ∧
        root.label.kind = .element ∧
        root.content.map (·.label.space) = [some "urn:notes"] ∧
        (Xml.Written.elements ⟨root.markup, []⟩).map (·.namespace?) = [some "urn:other"] ∧
        ¬ root.NamedIn (Schema.given forwardedDocument) ⟨root.markup, []⟩ := by
  have hunprefixed : (Schema.given forwardedDocument).Unprefixed := by decide +kernel
  have hchecked : ((Request.root none none).compile (Schema.given forwardedDocument)
      .default).toOption.any (fun compiled => compiled.answer.any fun root =>
        root.label.kind == .element && root.content.map (·.label.space) == [some "urn:notes"] &&
          (Xml.Written.elements ⟨root.markup, []⟩).map (·.namespace?) == [some "urn:other"] &&
          (root.content.map fun node =>
            (Schema.given forwardedDocument).elementNamespace node.label.origin) ==
              ["urn:notes"]) = true := by
    decide +kernel
  obtain ⟨compiled, hcompiled, hchecked⟩ := exists_of_checked hchecked
  obtain ⟨root, hanswer, hchecked⟩ := List.any_eq_true.mp hchecked
  simp only [Bool.and_eq_true, beq_iff_eq] at hchecked
  obtain ⟨⟨⟨hkind, hspaces⟩, hwritten⟩, hdeclared⟩ := hchecked
  have hroot : root ∈ Form.nodesOf (compiled.answer ++ compiled.surplus) := by
    rw [Form.nodesOf_eq_flatMap, List.mem_flatMap]
    exact ⟨root, List.mem_append_left _ hanswer, Form.mem_nodes_self root⟩
  refine ⟨hunprefixed, compiled, root, hcompiled, hroot, hkind, hspaces, hwritten, ?_⟩
  rintro ⟨-, hbelow⟩
  have hsame : (root.content.map fun node =>
      (Schema.given forwardedDocument).elementNamespace node.label.origin) =
        ((Xml.Written.elements ⟨root.markup, []⟩).map (·.namespace?)).map (·.getD "") := by
    rw [List.map_map, ← List.forall₂_eq_eq_eq, List.forall₂_map_left_iff,
      List.forall₂_map_right_iff]
    refine hbelow.imp fun child written hnamed => ?_
    obtain ⟨hexpanded, -⟩ := hnamed
    exact hexpanded.space.symm
  rw [hdeclared, hwritten] at hsame
  exact absurd hsame (by decide)

end SchemaForms
