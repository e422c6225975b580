import SchemaForms.Proofs.Lockstep
import SchemaForms.Proofs.References

/-!
# Incompatible data stays local

Over two instances that differ inside one element the same form is compiled, but
for the node that was compiled from this element: its value, its message about
the instance, and what is below it. If there is no such node, the forms are the
same, whatever the element holds.
-/

namespace SchemaForms

/-! ## Attributes -/

theorem attribute?_congr {element other : Xml.Element}
    (h : element.tag.attributes = other.tag.attributes) (name : String) :
    element.attribute? name = other.attribute? name := by
  rw [Xml.Element.attribute?, Xml.Element.attribute?, h]

theorem attributeForm_congr {occurrence other : Option Xml.Element}
    (h : occurrence.map (·.tag.attributes) = other.map (·.tag.attributes))
    (use declaration : Xml.Element) (name path : String) :
    attributeForm use declaration name path occurrence =
      attributeForm use declaration name path other := by
  have hvalue : attributeValue use declaration name occurrence =
      attributeValue use declaration name other := by
    cases occurrence <;> cases other <;> simp only [Option.map_none, Option.map_some] at h
    · rfl
    · cases h
    · cases h
    · exact attribute?_congr (Option.some.inj h) name
  rw [attributeForm, attributeForm, hvalue]

theorem buildAttribute_lockstep {occurrence other : Option Xml.Element}
    (h : occurrence.map (·.tag.attributes) = other.map (·.tag.attributes)) (number : Nat)
    (context : Context) (use : Xml.Element) (path : String) :
    (buildAttribute context use path occurrence).Lockstep number
      (buildAttribute context use path other) := by
  unfold buildAttribute
  split
  · exact .nothing number
  · refine .ofFault fun ⟨declaration, name⟩ _ => ?_
    simp only [attributeForm_congr h]
    exact .emit number _

/-! ## Levels -/

structure Level.Local (level : Level) (number : Nat) : Prop where
  particle : ∀ context atLeast particle path,
    (level.particle context atLeast particle path).Lockstep number
      (level.particle context atLeast particle path)
  entry : ∀ context entry path (occurrence other : Option Xml.Element),
    occurrence.map (·.tag.attributes) = other.map (·.tag.attributes) →
    (level.attributeEntry context entry path occurrence).Lockstep number
      (level.attributeEntry context entry path other)

section

variable {number : Nat}

theorem buildAttributeEntry_lockstep {deeper : Option Level}
    (hdeeper : ∀ level ∈ deeper, level.Local number) {occurrence other : Option Xml.Element}
    (h : occurrence.map (·.tag.attributes) = other.map (·.tag.attributes))
    (context : Context) (entry : Xml.Element) (path : String) :
    (buildAttributeEntry deeper context entry path occurrence).Lockstep number
      (buildAttributeEntry deeper context entry path other) := by
  by_cases hattribute : entry.name = "attribute"
  · rw [buildAttributeEntry_of_attribute hattribute, buildAttributeEntry_of_attribute hattribute]
    exact buildAttribute_lockstep h number context entry path
  by_cases hgroup : entry.name = "attributeGroup"
  · rw [buildAttributeEntry_of_group hgroup, buildAttributeEntry_of_group hgroup]
    refine .ofFault fun definition _ => .ofFault fun ⟨inner, level⟩ henter => ?_
    obtain ⟨-, hlevel, rfl⟩ := Context.enter_eq_ok.mp henter
    exact .all_map fun child _ => (hdeeper level hlevel).entry _ _ _ _ _ h
  · rw [buildAttributeEntry_of_other hattribute hgroup,
      buildAttributeEntry_of_other hattribute hgroup]
    exact .nothing number

theorem buildItem_lockstep {level : Level} (hlevel : level.Local number)
    {occurrence other : Option Xml.Element}
    (h : occurrence.map (·.tag.attributes) = other.map (·.tag.attributes))
    (context : Context) (item : Xml.Element) (path : String) :
    (buildItem level context item path occurrence).Lockstep number
      (buildItem level context item path other) := by
  by_cases hmodel : item.name ∈ modelItems
  · rw [buildItem_of_model hmodel, buildItem_of_model hmodel]
    refine .ofFault fun found hfound => ?_
    obtain ⟨particle, rfl⟩ := Particle.exists_of_model hmodel hfound
    exact hlevel.particle _ _ _ _
  rcases item_cases hmodel with hattribute | hsimple | hignored | hunsupported
  · rw [buildItem_of_attribute hattribute, buildItem_of_attribute hattribute]
    exact hlevel.entry _ _ _ _ _ h
  · rw [buildItem_of_simpleContent hsimple, buildItem_of_simpleContent hsimple]
    unfold buildSimpleContent
    rw [← List.map_flatMap, ← List.map_flatMap]
    exact .all_map fun child _ => hlevel.entry _ _ _ _ _ h
  · rw [buildItem_of_ignored hignored, buildItem_of_ignored hignored]
    exact .nothing number
  · intro state second forms others after later _ hrun
    rw [buildItem_of_unsupported hunsupported] at hrun
    cases hrun

/-! ## Elements -/

theorem forall₂_takeWhile {elements found : List Xml.Element}
    (h : List.Forall₂ (Xml.Element.SameOutside number) elements found) (name : String) :
    List.Forall₂ (Xml.Element.SameOutside number) (elements.takeWhile (·.name == name))
      (found.takeWhile (·.name == name)) := by
  induction h with
  | nil => exact .nil
  | cons hfirst _ ih =>
      rw [List.takeWhile_cons, List.takeWhile_cons, hfirst.name_eq]
      split
      · exact .cons hfirst ih
      · exact .nil

theorem forall₂_run {cursor other : Cursor}
    (h : List.Forall₂ (Xml.Element.SameOutside number) cursor.ahead other.ahead) (name : String)
    (limit : MaxOccurs) :
    List.Forall₂ (Xml.Element.SameOutside number) (cursor.run name limit)
      (other.run name limit) := by
  have hnamed := forall₂_takeWhile h name
  simp only [Cursor.run]
  rw [hnamed.length_eq]
  exact List.forall₂_take _ hnamed

theorem simpleText_congr {occurrence other : Xml.Element} (hname : occurrence.name = other.name)
    (htext : occurrence.text = other.text)
    (helements : List.Forall₂ (Xml.Element.SameOutside number) occurrence.elements
      other.elements) : simpleText occurrence = simpleText other := by
  have hempty : occurrence.elements.isEmpty = other.elements.isEmpty := by
    rw [Bool.eq_iff_iff, List.isEmpty_iff_length_eq_zero, List.isEmpty_iff_length_eq_zero,
      helements.length_eq]
  rw [simpleText, simpleText, hname, htext, hempty]

theorem contentValue_congr {occurrence other : Xml.Element} (hname : occurrence.name = other.name)
    (htext : simpleText occurrence = simpleText other) {after later : BuildState}
    (hafter : after.Alike number later) (definition : Xml.Element) :
    contentValue definition after (some occurrence) =
      contentValue definition later (some other) := by
  have hnext := Xml.head?_map_name_eq hafter.ahead
  simp only [contentValue]
  rw [htext, hname]
  cases hahead : after.ahead <;> cases hlater : later.ahead <;>
    simp_all

section

variable {deeper : Option Level} {context : Context} {path : String}
  (hdeeper : ∀ level ∈ deeper, level.Local number)
include hdeeper

theorem elementContent_lockstep {declaration : Declaration} {occurrence other : Xml.Element}
    (hname : occurrence.name = other.name)
    (hattributes : occurrence.tag.attributes = other.tag.attributes)
    (htext : occurrence.text = other.text)
    (helements : List.Forall₂ (Xml.Element.SameOutside number) occurrence.elements
      other.elements) {content also : ComplexContent}
    (hcontent : elementContent deeper context declaration path (some occurrence) = .ok content)
    (halso : elementContent deeper context declaration path (some other) = .ok also) :
    content.value = also.value ∧ content.mismatch = also.mismatch ∧
      List.Forall₂ (Form.SameOutside number) content.children also.children := by
  have hsimple := simpleText_congr hname htext helements
  rcases elementContent_eq_ok.mp hcontent with ⟨htype, rfl⟩ |
    ⟨definition, level, children, after, htype, hlevel, -, hitems, rfl⟩ <;>
  rcases elementContent_eq_ok.mp halso with ⟨htype', rfl⟩ |
    ⟨definition', level', children', after', htype', hlevel', -, hitems', rfl⟩ <;>
  cases htype.symm.trans htype'
  · have hsame : simpleContent declaration (some occurrence) =
        simpleContent declaration (some other) := by
      simp only [simpleContent, hsimple]
    rw [hsame]
    exact ⟨rfl, rfl, Form.sameOutside_refl number _⟩
  · obtain rfl := Option.mem_unique hlevel hlevel'
    have hparents : (some occurrence).map (·.tag.attributes) =
        (some other).map (·.tag.attributes) := congrArg some hattributes
    have halike : (BuildState.start (some occurrence)).Alike number (.start (some other)) :=
      ⟨rfl, hparents, helements⟩
    have hbuild : (buildItems level (context.insideType definition) definition path
        (some occurrence)).Lockstep number (buildItems level (context.insideType definition)
          definition path (some other)) :=
      .all_map fun item _ => buildItem_lockstep (hdeeper level hlevel) hparents _ item path
    obtain ⟨hchildren, hafter⟩ := hbuild _ _ _ _ _ _ halike hitems hitems'
    have hvalue := contentValue_congr hname hsimple hafter definition
    exact ⟨congrArg Prod.fst hvalue, congrArg Prod.snd hvalue, hchildren⟩

theorem elementForm_sameOutside {declaration : Declaration} (bounds : Bounds)
    {occurrence other : Xml.Element} (h : occurrence.SameOutside number other)
    {content also : ComplexContent}
    (hcontent : elementContent deeper context declaration path (some occurrence) = .ok content)
    (halso : elementContent deeper context declaration path (some other) = .ok also) :
    (elementForm declaration bounds path (some occurrence) content).SameOutside number
      (elementForm declaration bounds path (some other) also) := by
  rcases h.cases with ⟨hnumber, hother⟩ | ⟨hnumber, hother, hattributes, htext, helements⟩
  · -- The contents of the element itself may differ in everything, also in their messages.
    have hremarked : ∀ (mismatch : Option Mismatch) (label : FormLabel) (children : List Form),
        ∃ options, remarkWith mismatch (.node label children) =
            .node { label with options := options } children ∧
          options.SameButMessage label.options := by
      intro mismatch label children
      cases mismatch with
      | none => exact ⟨label.options, rfl, fun _ _ => rfl⟩
      | some error => exact ⟨_, rfl, fun key hkey => Options.get?_remark _ _ hkey⟩
    obtain ⟨options, hform, hoptions⟩ := hremarked content.mismatch _ content.children
    obtain ⟨options', hform', hoptions'⟩ := hremarked also.mismatch _ also.children
    rw [elementForm, elementForm, hform, hform']
    refine .replaced (by simpa [FormLabel.isFrom] using hnumber)
      (by simpa [FormLabel.isFrom] using hother) ⟨rfl, rfl, rfl, rfl, rfl, fun key hkey => ?_⟩
    exact (hoptions key hkey).trans (hoptions' key hkey).symm
  · obtain ⟨hvalue, hmismatch, hchildren⟩ := elementContent_lockstep hdeeper h.name_eq hattributes
      htext helements hcontent halso
    rw [elementForm, elementForm, hvalue, hmismatch]
    refine Form.SameOutside.remarkWith ?_ _
    exact .kept (by simpa [FormLabel.isFrom] using hnumber)
      (by simpa [FormLabel.isFrom] using hother) rfl hchildren

theorem buildOccurrence_lockstep (declaration : Declaration) (bounds : Bounds) (path : String)
    {occurrence other : Xml.Element} (h : occurrence.SameOutside number other) :
    (buildOccurrence deeper context declaration bounds path (some occurrence)).Lockstep number
      (buildOccurrence deeper context declaration bounds path (some other)) := by
  intro state second forms others after later halike hrun hother
  obtain ⟨content, hcontent, rfl, rfl⟩ := buildOccurrence_eq_ok.mp hrun
  obtain ⟨also, halso, rfl, rfl⟩ := buildOccurrence_eq_ok.mp hother
  rw [halike.nextPlace_eq] at hcontent ⊢
  exact ⟨.cons (elementForm_sameOutside hdeeper bounds h hcontent halso) .nil, halike.givePlace _⟩

omit hdeeper in
theorem buildCopies_lockstep (declaration : Declaration) (bounds : Bounds) (path : String)
    (count : Nat) :
    (buildCopies deeper context declaration bounds path count).Lockstep number
      (buildCopies deeper context declaration bounds path count) := by
  refine Build.Lockstep.replicate ?_ count
  intro state second forms others after later halike hrun hother
  obtain ⟨content, hcontent, rfl, rfl⟩ := buildOccurrence_eq_ok.mp hrun
  obtain ⟨also, halso, rfl, rfl⟩ := buildOccurrence_eq_ok.mp hother
  rw [halike.nextPlace_eq] at hcontent ⊢
  cases hcontent.symm.trans halso
  exact ⟨Form.sameOutside_refl number _, halike.givePlace _⟩

theorem buildTaken_lockstep (declaration : Declaration) (bounds : Bounds) (path : String)
    {taken found : List Xml.Element}
    (h : List.Forall₂ (Xml.Element.SameOutside number) taken found) :
    (buildTaken deeper context declaration bounds path taken).Lockstep number
      (buildTaken deeper context declaration bounds path found) := by
  refine .all ?_
  generalize 0 = start
  induction h generalizing start with
  | nil => exact .nil
  | cons hfirst _ ih =>
      exact .cons ((buildOccurrence_lockstep hdeeper declaration bounds path hfirst).remarked _)
        (ih (start + 1))

theorem buildElement_lockstep (node : Xml.Element) (bounds : Bounds) (atLeast : Nat)
    (path : String) :
    (buildElement deeper context node bounds atLeast path).Lockstep number
      (buildElement deeper context node bounds atLeast path) := by
  intro state second forms others after later halike hrun hother
  obtain ⟨declaration, hdeclaration, hbuild⟩ := buildElement_eq_ok.mp hrun
  obtain ⟨same, hsame, hbuild'⟩ := buildElement_eq_ok.mp hother
  cases hdeclaration.symm.trans hsame
  simp only [buildDeclared] at hbuild hbuild'
  rcases halike.cursors with ⟨hcursor, hcursor'⟩ | ⟨cursor, cursor', hcursor, hcursor', hahead⟩
  · rw [hcursor] at hbuild
    rw [hcursor'] at hbuild'
    exact buildCopies_lockstep _ _ _ _ _ _ _ _ _ _ halike hbuild hbuild'
  · rw [hcursor] at hbuild
    rw [hcursor'] at hbuild'
    have htaken := forall₂_run hahead declaration.name (takingLimit context bounds)
    have hattributes : cursor.parent.tag.attributes = cursor'.parent.tag.attributes := by
      simpa [hcursor, hcursor'] using halike.attributes
    simp only [Cursor.takeRun, ← htaken.length_eq] at hbuild hbuild'
    refine ((buildTaken_lockstep hdeeper declaration bounds path htaken).andThen
      (buildCopies_lockstep _ _ _ _)) _ _ _ _ _ _ ?_ hbuild hbuild'
    exact ⟨halike.steps, congrArg some hattributes, List.forall₂_drop _ hahead⟩

end

/-! ## Groups -/

theorem instantiate_lockstep {one : Build} (hone : one.Lockstep number one) (context : Context)
    (group : Particle) (compositor : Compositor) (bounds : Bounds) :
    (instantiate context group compositor bounds one).Lockstep number
      (instantiate context group compositor bounds one) := by
  intro state second forms others after later halike hrun hother
  simp only [instantiate] at hrun hother
  split at hrun <;> rename_i hmax
  · rw [if_pos hmax] at hother
    cases hrun
    cases hother
    exact ⟨.nil, halike⟩
  · rw [if_neg hmax] at hother
    rcases halike.cursors with ⟨hcursor, hcursor'⟩ | ⟨cursor, cursor', hcursor, hcursor', hahead⟩
    · rw [hcursor] at hrun
      rw [hcursor'] at hother
      exact hone.replicate _ _ _ _ _ _ _ halike hrun hother
    · rw [hcursor] at hrun
      rw [hcursor'] at hother
      simp only [← hahead.length_eq] at hother
      exact Build.Lockstep.ofFault (fun names _ => hone.repeatOver _ names bounds _ _ _)
        _ _ _ _ _ _ halike hrun hother

section

variable {level : Level} (hlevel : level.Local number) {context : Context} {path : String}
include hlevel

theorem buildAlternative_lockstep (matched selected : Option Nat) (alternative : Particle)
    (index : Nat) :
    (buildAlternative level context path matched selected alternative index).Lockstep number
      (buildAlternative level context path matched selected alternative index) := by
  unfold buildAlternative
  split
  · exact (hlevel.particle _ _ _ _).mapForms fun _ _ hsame => hsame.insertOption _ _
  · exact (Build.Lockstep.withoutInstance number _).mapForms
      fun _ _ hsame => hsame.insertOption _ _

theorem buildMembers_lockstep (compositor : Compositor) (members : List Particle) :
    (buildMembers level context compositor members path).Lockstep number
      (buildMembers level context compositor members path) := by
  cases compositor with
  | sequence => exact .all_map fun member _ => hlevel.particle _ _ _ _
  | choice =>
      intro state second forms others after later halike hrun hother
      simp only [buildMembers, buildChoice] at hrun hother
      rw [alternativeFor_congr halike.map_next?_eq] at hrun
      refine Build.Lockstep.ofFault (fun matched _ => ?_) _ _ _ _ _ _ halike hrun hother
      exact .all_map fun ⟨alternative, index⟩ _ =>
        buildAlternative_lockstep hlevel matched _ alternative index

end

section

variable {deeper : Option Level} (hdeeper : ∀ level ∈ deeper, level.Local number)
include hdeeper

theorem buildGroup_lockstep (context : Context) (compositor : Compositor) (node : Xml.Element)
    (bounds : Bounds) (path : String) :
    (buildGroup deeper context compositor node bounds path).Lockstep number
      (buildGroup deeper context compositor node bounds path) := by
  intro state second forms others after later halike hrun hother
  obtain ⟨level, members, hlevel, -, hmembers, hrun⟩ := buildGroup_eq_ok.mp hrun
  obtain ⟨level', members', hlevel', -, hmembers', hother⟩ := buildGroup_eq_ok.mp hother
  obtain rfl := Option.mem_unique hlevel hlevel'
  cases hmembers.symm.trans hmembers'
  exact instantiate_lockstep ((buildMembers_lockstep (hdeeper level hlevel) _ _).grouped _ _ _ _)
    _ _ _ _ _ _ _ _ _ _ halike hrun hother

theorem buildParticle_lockstep (context : Context) (atLeast : Nat) (particle : Particle)
    (path : String) :
    (buildParticle deeper context atLeast particle path).Lockstep number
      (buildParticle deeper context atLeast particle path) := by
  cases particle with
  | element node bounds => exact buildElement_lockstep hdeeper node bounds atLeast path
  | group compositor node bounds =>
      exact buildGroup_lockstep hdeeper context compositor node bounds path
  | attributeUse node =>
      intro state second forms others after later halike hrun hother
      refine buildAttribute_lockstep ?_ number context node path _ _ _ _ _ _ halike hrun hother
      rw [Option.map_map, Option.map_map]
      exact halike.attributes

end

theorem levelBelow_local (number depth : Nat) : ∀ level ∈ levelBelow depth, level.Local number :=
  level_induction (fun _ hdeeper => ⟨buildParticle_lockstep hdeeper,
    fun context entry path _ _ h => buildAttributeEntry_lockstep hdeeper h context entry path⟩)
    depth

end

/-! ## Whole forms -/

/-- If something else stands in one element of an instance, the forms are the same but for the
node that is compiled from it, and there is at most one. -/
theorem compileForm_replaced {schema : Schema} {settings : Settings} {name : Option String}
    {document : Xml.Document} {number : Nat} {inside : Xml.Inside} {forms others : RootForms}
    (hforms : compileForm schema settings name (some document) = .ok forms)
    (hothers : compileForm schema settings name (some (document.replaced number inside)) =
      .ok others) :
    List.Forall₂ (Form.SameOutside number) (forms.root :: forms.surplus)
        (others.root :: others.surplus) ∧
      (Form.labelsOf (forms.root :: forms.surplus)).countP (·.isFrom number) ≤ 1 ∧
      ((∀ label ∈ forms.root.labels, label.isFrom number = false) →
        forms.root.unsourced = others.root.unsourced) := by
  have hcount := countP_isFrom_le_one hforms number
  obtain ⟨element, root, after, helement, hbuild, hroot⟩ := compileForm_eq_ok hforms
  obtain ⟨same, root', after', hsame, hbuild', hroot'⟩ := compileForm_eq_ok hothers
  cases helement.symm.trans hsame
  have halike : (BuildState.start ((some document).map Xml.Document.holder)).Alike number
      (.start ((some (document.replaced number inside)).map Xml.Document.holder)) := by
    refine ⟨rfl, rfl, ?_⟩
    have hroots := document.sameOutside_replaced inside number
    rw [← Xml.Document.holder_elements, ← Xml.Document.holder_elements] at hroots
    exact hroots
  obtain ⟨hmade, hafter⟩ := buildElement_lockstep (levelBelow_local number settings.maxDepth)
    element .single 1 "" _ _ _ _ _ _ halike hbuild hbuild'
  cases hmade with
  | cons hfirst hrest =>
      have herror : rootError root after = rootError root' after' := by
        have hnext := Xml.head?_map_name_eq hafter.ahead
        rw [rootError, rootError, hfirst.tag_eq]
        cases hahead : after.ahead <;> cases hahead' : after'.ahead <;> simp_all
      have hroots : forms.root.SameOutside number others.root := by
        rw [hroot, hroot', herror]
        exact hfirst.remarkWith _
      exact ⟨.cons hroots hrest, hcount, fun hnone => hroots.unsourced_eq hnone⟩

def cabinetDocument : Xml.Document :=
  .ofRoots (.plain "schema" [] [
    .plain "element" [("name", "cabinet")] [
      .plain "complexType" [] [
        .plain "sequence" [] [
          .plain "element" [("name", "room")] [],
          .plain "choice" [("minOccurs", "0"), ("maxOccurs", "unbounded")] [
            .plain "element" [("name", "book"), ("type", "bookType")] [],
            .plain "element" [("name", "disc")] []]]]],
    .plain "complexType" [("name", "bookType")] [
      .plain "sequence" [] [.plain "element" [("name", "title")] []],
      .plain "attribute" [("name", "year")] []]]) []

def fullCabinet : Xml.Document :=
  .ofRoots (.plain "cabinet" [] [
    .leaf "room" "Attic", .leaf "disc" "Etudes",
    .plain "book" [("year", "1859")] [.leaf "title" "Origins"],
    .leaf "disc" "Nocturnes"]) []

def discsInside : Xml.Inside :=
  ⟨[⟨none, "colour", "red"⟩], [], [.text "not a book", (Xml.Element.leaf "disc" "One").node,
    (Xml.Element.leaf "disc" "Two").node, (Xml.Element.leaf "disc" "Three").node]⟩

theorem fullCabinet_replaced :
    ∃ forms others,
      compileForm (Schema.given cabinetDocument) .default none (some fullCabinet) = .ok forms ∧
      compileForm (Schema.given cabinetDocument) .default none
        (some (fullCabinet.replaced 3 discsInside)) = .ok others ∧
      (others.root.labels.filter (·.options.mismatch?.isSome)).map (·.tag) = ["book"] ∧
      List.Forall₂ (Form.SameOutside 3) (forms.root :: forms.surplus)
        (others.root :: others.surplus) ∧
      (Form.labelsOf (forms.root :: forms.surplus)).countP (·.isFrom 3) ≤ 1 ∧
      ((∀ label ∈ forms.root.labels, label.isFrom 3 = false) →
        forms.root.unsourced = others.root.unsourced) := by
  have hcompiles : (compileForm (Schema.given cabinetDocument) .default none
      (some fullCabinet)).toOption.any (fun _ => true) = true := by decide +kernel
  have hreplaced : (compileForm (Schema.given cabinetDocument) .default none
      (some (fullCabinet.replaced 3 discsInside))).toOption.any (fun others =>
        (others.root.labels.filter (·.options.mismatch?.isSome)).map (·.tag) == ["book"]) =
          true := by
    decide +kernel
  obtain ⟨forms, hforms, -⟩ := exists_of_checked hcompiles
  obtain ⟨others, hothers, hmessages⟩ := exists_of_checked hreplaced
  exact ⟨forms, others, hforms, hothers, by simpa using hmessages,
    compileForm_replaced hforms hothers⟩

end SchemaForms
