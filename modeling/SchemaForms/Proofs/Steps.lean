import Mathlib.Data.List.Forall2
import SchemaForms.Proofs.Forms
import SchemaForms.Proofs.Runs

/-!
# The steps of a compilation

One statement for each operation: what it has done when it succeeds. Attributes
make nodes without children and leave the instance alone; an element particle
makes one node for each occurrence it takes and then the copies that are still
required; a group makes one node for each instantiation.
-/

namespace SchemaForms

/-! ## Attributes -/

structure Form.IsAttribute (form : Form) : Prop where
  kind : form.label.kind = .attributeUse
  children : form.children = []
  unremarked : form.Unremarked

theorem isAttribute_attributeForm (use declaration : Xml.Element) (name path : String)
    (occurrence : Option Xml.Element) :
    (attributeForm use declaration name path occurrence).IsAttribute :=
  ⟨rfl, rfl, remarksIn_attributeForm _ _ _ _ _ _⟩

def AttributesOnly (state : BuildState) (forms : List Form) (after : BuildState) : Prop :=
  after = state ∧ ∀ form ∈ forms, form.IsAttribute

theorem attributesOnly_additive : Build.Additive AttributesOnly where
  nothing := fun state => ⟨rfl, by simp⟩
  append := by
    rintro state middle after before rest ⟨rfl, hbefore⟩ ⟨rfl, hrest⟩
    refine ⟨rfl, fun form hform => ?_⟩
    rcases List.mem_append.mp hform with hform | hform
    · exact hbefore form hform
    · exact hrest form hform

theorem Build.Additive.attribute {relation : BuildState → List Form → BuildState → Prop}
    (h : Additive relation) {context : Context} {use : Xml.Element} {path : String}
    {occurrence : Option Xml.Element}
    (huse : ∀ state declaration name,
      declaredAttribute context.schema use = .ok (declaration, name) →
        relation state [attributeForm use declaration name path occurrence] state) :
    (buildAttribute context use path occurrence).Ensures relation := by
  intro state forms after hrun
  simp only [buildAttribute] at hrun
  split at hrun
  · obtain ⟨rfl, rfl⟩ := nothing_eq_ok.mp hrun
    exact h.nothing after
  · obtain ⟨⟨declaration, name⟩, hdeclared, hemit⟩ := ofFault_eq_ok.mp hrun
    obtain ⟨rfl, rfl⟩ := emit_eq_ok.mp hemit
    exact huse after declaration name hdeclared

theorem buildAttribute_attributesOnly (context : Context) (use : Xml.Element) (path : String)
    (occurrence : Option Xml.Element) :
    (buildAttribute context use path occurrence).Ensures AttributesOnly :=
  attributesOnly_additive.attribute fun _ _ _ _ =>
    ⟨rfl, by simpa using isAttribute_attributeForm _ _ _ _ _⟩

def Level.AttributesOnly (level : Level) : Prop :=
  ∀ context item path occurrence,
    (level.attributeEntry context item path occurrence).Ensures SchemaForms.AttributesOnly

theorem buildAttributeEntry_of_attribute {deeper : Option Level} {context : Context}
    {item : Xml.Element} (h : item.name = "attribute") (path : String)
    (occurrence : Option Xml.Element) :
    buildAttributeEntry deeper context item path occurrence =
      buildAttribute context item path occurrence := by
  simp [buildAttributeEntry, h]

theorem buildAttributeEntry_of_group {deeper : Option Level} {context : Context}
    {item : Xml.Element} (h : item.name = "attributeGroup") (path : String)
    (occurrence : Option Xml.Element) :
    buildAttributeEntry deeper context item path occurrence =
      .ofFault (Schema.followReference context.schema.attributeGroup item) fun definition =>
        .ofFault (context.enter deeper definition false) fun (context, level) =>
          .all (definition.elements.map fun child =>
            level.attributeEntry context child path occurrence) := by
  simp [buildAttributeEntry, h]

theorem buildAttributeEntry_of_other {deeper : Option Level} {context : Context}
    {item : Xml.Element} (hattribute : item.name ≠ "attribute")
    (hgroup : item.name ≠ "attributeGroup") (path : String)
    (occurrence : Option Xml.Element) :
    buildAttributeEntry deeper context item path occurrence = .nothing := by
  unfold buildAttributeEntry
  split <;> first | contradiction | rfl

theorem buildAttributeEntry_attributesOnly {deeper : Option Level}
    (hdeeper : ∀ level ∈ deeper, level.AttributesOnly) (context : Context) (item : Xml.Element)
    (path : String) (occurrence : Option Xml.Element) :
    (buildAttributeEntry deeper context item path occurrence).Ensures AttributesOnly := by
  by_cases hattribute : item.name = "attribute"
  · rw [buildAttributeEntry_of_attribute hattribute]
    exact buildAttribute_attributesOnly _ _ _ _
  by_cases hgroup : item.name = "attributeGroup"
  · rw [buildAttributeEntry_of_group hgroup]
    intro state forms after hrun
    obtain ⟨definition, -, hrun⟩ := Build.ofFault_eq_ok.mp hrun
    obtain ⟨⟨inner, level⟩, henter, hrun⟩ := Build.ofFault_eq_ok.mp hrun
    have hlevel := (Context.enter_eq_ok.mp henter).2.1
    refine Build.Ensures.all attributesOnly_additive (fun build hbuild => ?_) _ _ _ hrun
    obtain ⟨child, -, rfl⟩ := List.mem_map.mp hbuild
    exact hdeeper level hlevel _ _ _ _
  · rw [buildAttributeEntry_of_other hattribute hgroup]
    intro state forms after hrun
    obtain ⟨rfl, rfl⟩ := Build.nothing_eq_ok.mp hrun
    exact attributesOnly_additive.nothing after

theorem levelBelow_attributesOnly (depth : Nat) :
    ∀ level ∈ levelBelow depth, level.AttributesOnly :=
  level_induction (fun _ hdeeper => buildAttributeEntry_attributesOnly hdeeper) depth

/-! ## Items of complex types -/

def modelItems : List String := ["sequence", "choice", "group", "all", "complexContent"]

theorem buildItem_of_model {level : Level} {context : Context} {item : Xml.Element}
    (h : item.name ∈ modelItems) (path : String) (occurrence : Option Xml.Element) :
    buildItem level context item path occurrence =
      .ofFault (Particle.ofElement? context.schema item) fun
        | some particle => level.particle context 0 particle path
        | none => .nothing := by
  unfold buildItem
  split <;> first | rfl | simp_all [modelItems]

theorem buildItem_of_attribute {level : Level} {context : Context} {item : Xml.Element}
    (h : item.name = "attribute" ∨ item.name = "attributeGroup") (path : String)
    (occurrence : Option Xml.Element) :
    buildItem level context item path occurrence =
      level.attributeEntry context item path occurrence := by
  rcases h with h | h <;> simp only [buildItem, h]

theorem buildItem_of_simpleContent {level : Level} {context : Context} {item : Xml.Element}
    (h : item.name = "simpleContent") (path : String) (occurrence : Option Xml.Element) :
    buildItem level context item path occurrence =
      buildSimpleContent level context item path occurrence := by
  simp only [buildItem, h]

theorem buildItem_of_ignored {level : Level} {context : Context} {item : Xml.Element}
    (h : item.name = "annotation" ∨ item.name = "anyAttribute") (path : String)
    (occurrence : Option Xml.Element) :
    buildItem level context item path occurrence = .nothing := by
  rcases h with h | h <;> simp only [buildItem, h]

def supportedItems : List String :=
  modelItems ++ ["attribute", "attributeGroup", "simpleContent", "annotation", "anyAttribute"]

theorem buildItem_of_unsupported {level : Level} {context : Context} {item : Xml.Element}
    (h : item.name ∉ supportedItems) (path : String) (occurrence : Option Xml.Element) :
    buildItem level context item path occurrence =
      .fail (.ofFault (.unsupported item.name)) := by
  simp only [supportedItems, modelItems, List.cons_append, List.nil_append, List.mem_cons,
    List.not_mem_nil, or_false, not_or] at h
  unfold buildItem
  split <;> simp_all

theorem mem_supportedItems {tag : String} :
    tag ∈ supportedItems ↔ tag ∈ modelItems ∨ (tag = "attribute" ∨ tag = "attributeGroup") ∨
      tag = "simpleContent" ∨ tag = "annotation" ∨ tag = "anyAttribute" := by
  simp [supportedItems, or_assoc]

theorem item_cases {item : Xml.Element} (hmodel : item.name ∉ modelItems) :
    (item.name = "attribute" ∨ item.name = "attributeGroup") ∨ item.name = "simpleContent" ∨
      (item.name = "annotation" ∨ item.name = "anyAttribute") ∨ item.name ∉ supportedItems := by
  by_cases hsupported : item.name ∈ supportedItems
  · rcases (mem_supportedItems.mp hsupported).resolve_left hmodel with
      hattribute | hsimple | hignored
    · exact .inl hattribute
    · exact .inr (.inl hsimple)
    · exact .inr (.inr (.inl hignored))
  · exact .inr (.inr (.inr hsupported))

theorem Particle.exists_of_model {schema : Schema} {item : Xml.Element}
    (hmodel : item.name ∈ modelItems) {found : Option Particle}
    (h : Particle.ofElement? schema item = .ok found) : ∃ particle, found = some particle := by
  simp only [modelItems, List.mem_cons, List.not_mem_nil, or_false] at hmodel
  cases found with
  | some particle => exact ⟨particle, rfl⟩
  | none =>
      rcases hmodel with hname | hname | hname | hname | hname <;>
        simp only [Particle.ofElement?, hname] at h
      · cases hbounds : Bounds.resolve item <;> rw [hbounds] at h <;> cases h
      · cases hbounds : Bounds.resolve item <;> rw [hbounds] at h <;> cases h
      · cases hgroup : Particle.ofGroupReference schema item <;> rw [hgroup] at h <;> cases h
      · cases h
      · cases h

theorem Particle.membersOf_cons_eq_ok {schema : Schema} {item : Xml.Element}
    (hmodel : item.name ∈ modelItems) {rest : List Xml.Element} {model : List Particle}
    (h : membersOf schema (item :: rest) = .ok model) :
    ∃ particle others, ofElement? schema item = .ok (some particle) ∧
      membersOf schema rest = .ok others ∧ model = particle :: others := by
  rw [membersOf] at h
  cases hfound : ofElement? schema item with
  | error fault => rw [hfound] at h; cases h
  | ok found =>
      obtain ⟨particle, rfl⟩ := exists_of_model hmodel hfound
      rw [hfound] at h
      cases hothers : membersOf schema rest with
      | error fault => rw [hothers] at h; cases h
      | ok others =>
          rw [hothers] at h
          cases h
          exact ⟨particle, others, rfl, rfl, rfl⟩

theorem buildItem_of_particle {level : Level} {context : Context} {item : Xml.Element}
    (hmodel : item.name ∈ modelItems) {particle : Particle}
    (h : Particle.ofElement? context.schema item = .ok (some particle)) (path : String)
    (occurrence : Option Xml.Element) :
    buildItem level context item path occurrence = level.particle context 0 particle path := by
  rw [buildItem_of_model hmodel, h]
  rfl

theorem buildSimpleContent_attributesOnly {level : Level} (hlevel : level.AttributesOnly)
    (context : Context) (item : Xml.Element) (path : String) (occurrence : Option Xml.Element) :
    (buildSimpleContent level context item path occurrence).Ensures AttributesOnly := by
  refine Build.Ensures.all attributesOnly_additive fun build hbuild => ?_
  obtain ⟨derivation, -, hbuild⟩ := List.mem_flatMap.mp hbuild
  obtain ⟨child, -, rfl⟩ := List.mem_map.mp hbuild
  exact hlevel _ _ _ _

theorem buildItem_eq_ok {level : Level} (hlevel : level.AttributesOnly) {context : Context}
    {item : Xml.Element} {path : String} {occurrence : Option Xml.Element}
    {state after : BuildState} {forms : List Form}
    (hrun : buildItem level context item path occurrence state = .ok (forms, after)) :
    (item.name ∈ modelItems ∧ ∃ particle,
      Particle.ofElement? context.schema item = .ok (some particle) ∧
        level.particle context 0 particle path state = .ok (forms, after)) ∨
      (item.name ∉ modelItems ∧ AttributesOnly state forms after) := by
  by_cases hmodel : item.name ∈ modelItems
  · rw [buildItem_of_model hmodel] at hrun
    obtain ⟨found, hfound, hrun⟩ := Build.ofFault_eq_ok.mp hrun
    obtain ⟨particle, rfl⟩ := Particle.exists_of_model hmodel hfound
    exact .inl ⟨hmodel, particle, hfound, hrun⟩
  refine .inr ⟨hmodel, ?_⟩
  rcases item_cases hmodel with hattribute | hsimple | hignored | hunsupported
  · rw [buildItem_of_attribute hattribute] at hrun
    exact hlevel _ _ _ _ _ _ _ hrun
  · rw [buildItem_of_simpleContent hsimple] at hrun
    exact buildSimpleContent_attributesOnly hlevel _ _ _ _ _ _ _ hrun
  · rw [buildItem_of_ignored hignored] at hrun
    obtain ⟨rfl, rfl⟩ := Build.nothing_eq_ok.mp hrun
    exact attributesOnly_additive.nothing after
  · rw [buildItem_of_unsupported hunsupported] at hrun
    cases hrun

/-! ## Occurrences of elements -/

theorem simpleContent_children (declaration : Declaration) (occurrence : Option Xml.Element) :
    (simpleContent declaration occurrence).children = [] := by
  unfold simpleContent
  split
  · rfl
  · split <;> rfl

theorem elementContent_eq_ok {deeper : Option Level} {context : Context}
    {declaration : Declaration} {path : String} {occurrence : Option Xml.Element}
    {content : ComplexContent} :
    elementContent deeper context declaration path occurrence = .ok content ↔
      (declaration.content = .simple ∧ content = simpleContent declaration occurrence) ∨
      ∃ definition level children after, declaration.content = .complex definition ∧
        level ∈ deeper ∧ (occurrence.isSome = true ∨ context.encloses definition = false) ∧
        buildItems level (context.insideType definition) definition path occurrence
          (.start occurrence) = .ok (children, after) ∧
        content = ⟨(contentValue definition after occurrence).1, children,
          (contentValue definition after occurrence).2⟩ := by
  simp only [elementContent]
  cases hcontent : declaration.content with
  | simple =>
      constructor
      · intro h
        cases h
        exact .inl ⟨rfl, rfl⟩
      · rintro (⟨-, rfl⟩ | ⟨_, _, _, _, h, _⟩)
        · rfl
        · cases h
  | complex definition =>
      simp only [reduceCtorEq, false_and, false_or, complexContent, ContentType.complex.injEq]
      cases henter : context.enter deeper definition occurrence.isSome with
      | error fault =>
          simp only [reduceCtorEq, false_iff, not_exists, not_and]
          rintro definition level children after rfl hlevel hfree
          have := Context.enter_eq_ok.mpr ⟨hfree, hlevel, rfl⟩
          rw [henter] at this
          cases this
      | ok entered =>
          obtain ⟨inner, level⟩ := entered
          obtain ⟨hfree, hlevel, rfl⟩ := Context.enter_eq_ok.mp henter
          simp only
          constructor
          · intro h
            split at h
            · cases h
            · rename_i children after hitems
              cases h
              exact ⟨definition, level, children, after, rfl, hlevel, hfree, hitems, rfl⟩
          · rintro ⟨_, other, children, after, rfl, hother, -, hitems, rfl⟩
            rw [Option.mem_unique hother hlevel, Context.insideType] at hitems
            rw [hitems]

def CompiledFrom (deeper : Option Level) (context : Context) (declaration : Declaration)
    (bounds : Bounds) (error : Option Mismatch) (occurrence : Option Xml.Element)
    (form : Form) : Prop :=
  ∃ path content, elementContent deeper context declaration path occurrence = .ok content ∧
    form = remarkWith error (elementForm declaration bounds path occurrence content)

theorem CompiledFrom.shown {deeper : Option Level} {context : Context}
    {declaration : Declaration} {bounds : Bounds}
    {error : Option Mismatch} {occurrence : Option Xml.Element} {form : Form}
    (h : CompiledFrom deeper context declaration bounds error occurrence form) :
    form.label.kind = .element ∧ form.label.tag = declaration.name := by
  obtain ⟨place, content, -, rfl⟩ := h
  rw [elementForm]
  cases error <;> cases content.mismatch <;> exact ⟨rfl, rfl⟩

theorem buildOccurrence_eq_ok {deeper : Option Level} {context : Context}
    {declaration : Declaration} {bounds : Bounds} {path : String}
    {occurrence : Option Xml.Element} {state after : BuildState} {forms : List Form} :
    buildOccurrence deeper context declaration bounds path occurrence state =
        .ok (forms, after) ↔
      ∃ content, elementContent deeper context declaration
          (placePath path declaration.name (state.nextPlace declaration.name)) occurrence =
            .ok content ∧
        forms = [elementForm declaration bounds
          (placePath path declaration.name (state.nextPlace declaration.name)) occurrence
          content] ∧
        after = state.givePlace declaration.name := by
  simp only [buildOccurrence]
  cases elementContent deeper context declaration
      (placePath path declaration.name (state.nextPlace declaration.name)) occurrence with
  | error failure => simp
  | ok content => simp [eq_comm]

section

variable {deeper : Option Level} {context : Context} {declaration : Declaration}
  {bounds : Bounds} {path : String} {state after : BuildState} {forms : List Form}

theorem buildCopies_eq_ok {count : Nat}
    (hrun : buildCopies deeper context declaration bounds path count state =
      .ok (forms, after)) :
    forms.length = count ∧ after.cursor = state.cursor ∧
      ∀ form ∈ forms, CompiledFrom deeper context declaration bounds none none form := by
  induction count generalizing state forms with
  | zero =>
      obtain ⟨rfl, rfl⟩ := Build.nothing_eq_ok.mp hrun
      simp
  | succ count ih =>
      obtain ⟨before, middle, rest, hbefore, hrest, rfl⟩ := Build.andThen_eq_ok.mp hrun
      obtain ⟨content, hcontent, rfl, rfl⟩ := buildOccurrence_eq_ok.mp hbefore
      obtain ⟨hlength, hcursor, hall⟩ := ih hrest
      refine ⟨by simp [hlength], hcursor, fun form hform => ?_⟩
      rcases List.mem_append.mp hform with hform | hform
      · rw [List.mem_singleton] at hform
        exact ⟨_, content, hcontent, hform⟩
      · exact hall form hform

theorem buildTaken_eq_ok {taken : List Xml.Element}
    (hrun : buildTaken deeper context declaration bounds path taken state =
      .ok (forms, after)) :
    after.cursor = state.cursor ∧
      List.Forall₂ (fun occurrence form => CompiledFrom deeper context declaration bounds
        (surplusError declaration.name bounds.max (occurrence.2 + 1)) (some occurrence.1) form)
        taken.zipIdx forms := by
  rw [buildTaken] at hrun
  generalize taken.zipIdx = numbered at hrun
  induction numbered generalizing state forms with
  | nil =>
      obtain ⟨rfl, rfl⟩ := Build.nothing_eq_ok.mp hrun
      exact ⟨rfl, .nil⟩
  | cons occurrence rest ih =>
      obtain ⟨before, middle, others, hbefore, hothers, rfl⟩ := Build.andThen_eq_ok.mp hrun
      obtain ⟨made, hmade, rfl⟩ := Build.mapForms_eq_ok.mp hbefore
      obtain ⟨content, hcontent, rfl, rfl⟩ := buildOccurrence_eq_ok.mp hmade
      obtain ⟨hcursor, hall⟩ := ih hothers
      exact ⟨hcursor, .cons ⟨_, content, hcontent, rfl⟩ hall⟩

theorem buildDeclared_eq_ok_of_none {atLeast : Nat} (hcursor : state.cursor = none)
    (hrun : buildDeclared deeper context declaration bounds atLeast path state =
      .ok (forms, after)) :
    forms.length = copiesWithoutInstance context declaration bounds atLeast ∧
      after.cursor = none ∧
      ∀ form ∈ forms, CompiledFrom deeper context declaration bounds none none form := by
  rw [buildDeclared, hcursor] at hrun
  obtain ⟨hlength, hafter, hall⟩ := buildCopies_eq_ok hrun
  exact ⟨hlength, hafter.trans hcursor, hall⟩

theorem buildDeclared_eq_ok_of_some {atLeast : Nat} {cursor : Cursor}
    (hcursor : state.cursor = some cursor)
    (hrun : buildDeclared deeper context declaration bounds atLeast path state =
      .ok (forms, after)) :
    ∃ made copies, forms = made ++ copies ∧
      List.Forall₂ (fun occurrence form => CompiledFrom deeper context declaration bounds
        (surplusError declaration.name bounds.max (occurrence.2 + 1)) (some occurrence.1) form)
        (cursor.run declaration.name (takingLimit context bounds)).zipIdx made ∧
      copies.length = max bounds.min atLeast -
        (cursor.run declaration.name (takingLimit context bounds)).length ∧
      (∀ form ∈ copies, CompiledFrom deeper context declaration bounds none none form) ∧
      after.cursor = some (cursor.takeRun declaration.name (takingLimit context bounds)).2 := by
  rw [buildDeclared, hcursor] at hrun
  obtain ⟨made, middle, copies, hmade, hcopies, rfl⟩ := Build.andThen_eq_ok.mp hrun
  obtain ⟨hmiddle, htaken⟩ := buildTaken_eq_ok hmade
  obtain ⟨hlength, hafter, hall⟩ := buildCopies_eq_ok hcopies
  exact ⟨made, copies, rfl, htaken, hlength, hall, hafter.trans hmiddle⟩

theorem compiledFrom_of_buildDeclared {atLeast : Nat}
    (hrun : buildDeclared deeper context declaration bounds atLeast path state =
      .ok (forms, after)) :
    ∀ form ∈ forms, ∃ error occurrence,
      CompiledFrom deeper context declaration bounds error occurrence form := by
  intro form hform
  cases hcursor : state.cursor with
  | none =>
      obtain ⟨-, -, hcopies⟩ := buildDeclared_eq_ok_of_none hcursor hrun
      exact ⟨none, none, hcopies form hform⟩
  | some cursor =>
      obtain ⟨made, copies, rfl, hmade, -, hcopies, -⟩ := buildDeclared_eq_ok_of_some hcursor hrun
      rcases List.mem_append.mp hform with hform | hform
      · obtain ⟨occurrence, -, hfrom⟩ := exists_of_forall₂ hmade hform
        exact ⟨_, _, hfrom⟩
      · exact ⟨none, none, hcopies form hform⟩

theorem buildElement_eq_ok {particle : Xml.Element} {atLeast : Nat} :
    buildElement deeper context particle bounds atLeast path state = .ok (forms, after) ↔
      ∃ declaration,
        Declaration.ofParticle context.schema context.settings particle = .ok declaration ∧
        buildDeclared deeper context declaration bounds (bounds.max.cap atLeast) path state =
          .ok (forms, after) := by
  simp only [buildElement]
  cases Declaration.ofParticle context.schema context.settings particle with
  | error fault => simp [Build.fail]
  | ok declaration => simp

/-! ## Groups -/

/-- The matched alternative works on the instance, and any other is compiled as without one. -/
theorem buildAlternative_eq_ok {level : Level} {matched selected : Option Nat}
    {alternative : Particle} {index : Nat} :
    buildAlternative level context path matched selected alternative index state =
        .ok (forms, after) ↔
      ∃ made, forms = made.map
          (·.insertOption OptionKey.selected (.bool (decide (selected = some index)))) ∧
        ((matched = some index ∧
            level.particle context 1 alternative path state = .ok (made, after)) ∨
          (matched ≠ some index ∧ ∃ last,
            level.particle context 1 alternative path { state with cursor := none } =
                .ok (made, last) ∧
              after = { last with cursor := state.cursor })) := by
  rw [buildAlternative, Build.mapForms_eq_ok]
  refine exists_congr fun made => and_comm.trans (and_congr_right fun _ => ?_)
  by_cases hmatched : matched = some index
  · simp [hmatched]
  · simp [hmatched, Build.withoutInstance_eq_ok]

theorem alternatives_hidden {level : Level} {matched selected : Option Nat}
    {members : List Particle} {start : Nat}
    (hselected : ∀ index, start ≤ index → selected ≠ some index)
    (hrun : Build.all ((members.zipIdx start).map fun numbered =>
      buildAlternative level context path matched selected numbered.1 numbered.2) state =
        .ok (forms, after)) : Form.surfaceSelected forms = [] := by
  induction members generalizing start state forms with
  | nil =>
      obtain ⟨rfl, -⟩ := Build.nothing_eq_ok.mp hrun
      rfl
  | cons member rest ih =>
      obtain ⟨made, middle, others, hmade, hothers, rfl⟩ := Build.andThen_eq_ok.mp hrun
      obtain ⟨single, rfl, -⟩ := buildAlternative_eq_ok.mp hmade
      have hfirst : decide (selected = some start) = false :=
        decide_eq_false (hselected start (Nat.le_refl _))
      rw [Form.surfaceSelected_append, Form.surfaceSelected_select, hfirst,
        ih (fun index hindex => hselected index (Nat.le_of_succ_le hindex)) hothers]
      rfl

def oneInstantiation (level : Level) (context : Context) (compositor : Compositor)
    (members : List Particle) (node : Xml.Element) (bounds : Bounds) (path : String) : Build :=
  (buildMembers level (context.insideGroup node bounds) compositor members path).grouped
    compositor node bounds path

theorem buildGroup_eq_ok {compositor : Compositor} {node : Xml.Element} :
    buildGroup deeper context compositor node bounds path state = .ok (forms, after) ↔
      ∃ level members, level ∈ deeper ∧
        (state.cursor.isSome = true ∨ context.encloses node = false) ∧
        Particle.members context.schema node = .ok members ∧
        instantiate (context.inside node) (.group compositor node bounds) compositor bounds
          (oneInstantiation level context compositor members node bounds path) state =
            .ok (forms, after) := by
  simp only [buildGroup, Build.ofFault_eq_ok, Prod.exists, Context.enter_eq_ok]
  constructor
  · rintro ⟨inner, level, ⟨hfree, hlevel, rfl⟩, members, hmembers, hrun⟩
    exact ⟨level, members, hlevel, hfree, hmembers, hrun⟩
  · rintro ⟨level, members, hlevel, hfree, hmembers, hrun⟩
    exact ⟨context.inside node, level, ⟨hfree, hlevel, rfl⟩, members, hmembers, hrun⟩

end

/-! ## Whole forms -/

theorem compileForm_eq_ok {schema : Schema} {settings : Settings} {name : Option String}
    {document : Option Xml.Document} {forms : RootForms}
    (h : compileForm schema settings name document = .ok forms) :
    ∃ element root after, schema.selectGlobal name = .ok element ∧
      buildElement (levelBelow settings.maxDepth) (.start schema settings) element .single 1 ""
        (.start (document.map Xml.Document.holder)) = .ok (root :: forms.surplus, after) ∧
      forms.root = remarkWith (rootError root after) root := by
  simp only [compileForm] at h
  split at h
  · cases h
  rename_i element hglobal
  split at h
  · cases h
  · rename_i root surplus after hbuild
    cases h
    exact ⟨element, root, after, hglobal, hbuild, rfl⟩
  · cases h

theorem compileParticle_eq_ok {schema : Schema} {settings : Settings} {tag path : String}
    {node : Xml.Element} {parent : Option Xml.Element} {forms : List Form}
    (h : compileParticle schema settings tag node path parent = .ok forms) :
    ∃ particle after, Particle.ofElement? schema node = .ok (some particle) ∧
      buildAtTop schema settings 0 particle path parent = .ok (forms, after) := by
  simp only [compileParticle] at h
  split at h
  · split at h
    · cases h
    · cases h
    · rename_i particle hparticle
      cases hrun : buildAtTop schema settings 0 particle path parent with
      | error failure =>
          rw [hrun] at h
          cases h
      | ok result =>
          rw [hrun] at h
          cases h
          exact ⟨particle, result.2, hparticle, hrun⟩
  · cases h

end SchemaForms
