import SchemaForms.Proofs.FailingBuilds
import SchemaForms.Proofs.References

/-!
# Faults

Where the fault of a failing build comes from. A fault about the descent, that a
definition is circular or lies too deep, is found on entering a definition or
in the search for first names; every other fault is found at one place of the
schema by itself.
-/

namespace SchemaForms

def SchemaFault.OfDescent : SchemaFault → Prop
  | .circularDefinition _ => True
  | .tooDeep _ => True
  | _ => False

def IsLocal {α : Type} (outcome : Except SchemaFault α) : Prop :=
  ∀ fault, outcome = .error fault → ¬fault.OfDescent

namespace IsLocal

theorem ok {α : Type} (value : α) : IsLocal (.ok value : Except SchemaFault α) := by
  intro fault h
  cases h

theorem error {α : Type} {fault : SchemaFault} (h : ¬fault.OfDescent) :
    IsLocal (.error fault : Except SchemaFault α) := by
  intro other hother
  cases hother
  exact h

theorem bind {α β : Type} {outcome : Except SchemaFault α} {next : α → Except SchemaFault β}
    (houtcome : IsLocal outcome) (hnext : ∀ value, IsLocal (next value)) :
    IsLocal (outcome >>= next) := by
  intro fault h
  rcases bind_eq_error.mp h with h | ⟨value, -, h⟩
  · exact houtcome fault h
  · exact hnext value fault h

theorem demandAttribute (element : Xml.Element) (name : String) :
    IsLocal (demandAttribute element name) := by
  unfold SchemaForms.demandAttribute
  split
  · exact ok _
  · exact error id

theorem referredName (source : String) (context : Xml.Element) :
    IsLocal (Schema.referredName source context) := by
  unfold Schema.referredName
  split
  · exact ok _
  · exact error id

theorem lookup (schema : Schema) (kind : ComponentKind) (reference : ReferenceKind)
    (name : ExpandedName) : IsLocal (schema.lookup kind reference name) := by
  unfold Schema.lookup
  split
  · exact ok _
  · exact error id

theorem followReference (schema : Schema) (kind : ComponentKind) (reference : ReferenceKind)
    (element : Xml.Element) :
    IsLocal (Schema.followReference (schema.lookup kind reference) element) := by
  unfold Schema.followReference
  split
  · exact (referredName _ _).bind fun name => lookup _ _ _ name
  · exact ok _

theorem typeDefinition (schema : Schema) (name : ExpandedName) :
    IsLocal (schema.typeDefinition name) := by
  unfold Schema.typeDefinition
  split
  · exact ok _
  · split
    · exact ok _
    · have hlookup := lookup schema .simpleType .typeName name
      cases h : schema.lookup .simpleType .typeName name with
      | ok definition => exact ok _
      | error fault =>
          rw [h] at hlookup
          exact error (hlookup fault rfl)

theorem contentType (schema : Schema) (declaration : Xml.Element) :
    IsLocal (Declaration.contentType schema declaration) := by
  unfold Declaration.contentType
  split
  · exact ok _
  · split
    · exact ok _
    · split
      · exact ok _
      · refine (referredName _ _).bind fun name => (typeDefinition _ _).bind fun found => ?_
        cases found <;> exact ok _

theorem ofParticle (schema : Schema) (settings : Settings) (particle : Xml.Element) :
    IsLocal (Declaration.ofParticle schema settings particle) :=
  (followReference _ _ _ _).bind fun _ => (demandAttribute _ _).bind fun _ =>
    (contentType _ _).bind fun _ => ok _

theorem declaredName (schema : Schema) (node : Xml.Element) :
    IsLocal (declaredName schema node) :=
  (followReference _ _ _ _).bind fun _ => demandAttribute _ _

theorem declaredAttribute (schema : Schema) (use : Xml.Element) :
    IsLocal (declaredAttribute schema use) :=
  (followReference _ _ _ _).bind fun _ => (demandAttribute _ _).bind fun _ => ok _

theorem number (source : String) : IsLocal (Bounds.number source) := by
  unfold Bounds.number
  split
  · exact ok _
  · exact error id

theorem resolve (particle : Xml.Element) : IsLocal (Bounds.resolve particle) := by
  have hmin : IsLocal (Bounds.minimum particle) := by
    unfold Bounds.minimum
    split
    · exact number _
    · exact ok _
  have hmax : IsLocal (Bounds.maximum particle) := by
    unfold Bounds.maximum
    split
    · split
      · exact ok _
      · rename_i source _ _
        have hnumber := number source
        cases h : Bounds.number source with
        | ok value => exact ok _
        | error fault =>
            rw [h] at hnumber
            exact error (hnumber fault rfl)
    · exact ok _
  refine hmin.bind fun min => hmax.bind fun max => ?_
  split
  · exact ok _
  · split
    · exact error id
    · exact ok _

theorem compositorOf (definition : Xml.Element) (bounds : Bounds) :
    IsLocal (Particle.compositorOf definition bounds) := by
  unfold Particle.compositorOf
  split
  · exact error id
  · split
    · exact ok _
    · exact ok _
    · exact error id

theorem ofGroupReference (schema : Schema) (reference : Xml.Element) :
    IsLocal (Particle.ofGroupReference schema reference) :=
  (demandAttribute _ _).bind fun _ => (resolve _).bind fun _ =>
    (followReference _ _ _ _).bind fun _ => compositorOf _ _

theorem ofElement? (schema : Schema) (node : Xml.Element) :
    IsLocal (Particle.ofElement? schema node) := by
  unfold Particle.ofElement?
  split
  · exact (resolve _).bind fun _ => ok _
  · exact (resolve _).bind fun _ => ok _
  · exact (resolve _).bind fun _ => ok _
  · exact ok _
  · exact (ofGroupReference _ _).bind fun _ => ok _
  · exact error id
  · exact error id
  · exact error id
  · exact ok _

theorem membersOf (schema : Schema) (nodes : List Xml.Element) :
    IsLocal (Particle.membersOf schema nodes) := by
  induction nodes with
  | nil => exact ok _
  | cons node rest ih => exact (ofElement? _ _).bind fun _ => ih.bind fun _ => ok _

end IsLocal

/-! ## Entering definitions -/

theorem Context.enter_eq_error {context : Context} {deeper : Option Level}
    {definition : Xml.Element} {editing : Bool} {fault : SchemaFault} :
    context.enter deeper definition editing = .error fault ↔
      (editing = false ∧ context.encloses definition = true ∧
        fault = .circularDefinition (context.schema.describe definition)) ∨
      ((editing = true ∨ context.encloses definition = false) ∧ deeper = none ∧
        fault = .tooDeep context.settings.maxDepth) := by
  simp only [enter]
  cases editing <;> cases context.encloses definition <;> cases deeper <;> simp [eq_comm]

/-! ## Attributes -/

section

variable {deeper : Option Level} {context : Context} {path : String} {state : BuildState}
  {fault : SchemaFault}

theorem buildAttribute_fails {use : Xml.Element} {occurrence : Option Xml.Element}
    (h : (buildAttribute context use path occurrence).Fails state fault) :
    useOf use ≠ "prohibited" ∧ declaredAttribute context.schema use = .error fault := by
  unfold buildAttribute at h
  split at h
  · exact absurd h Build.not_nothing_fails
  · rename_i huse
    rcases Build.ofFault_fails.mp h with h | ⟨⟨declaration, name⟩, -, h⟩
    · exact ⟨huse, h⟩
    · exact absurd h Build.not_emit_fails

theorem buildAttributeEntry_fails (hdeeper : ∀ level ∈ deeper, level.AttributesOnly)
    {item : Xml.Element} {occurrence : Option Xml.Element}
    (h : (buildAttributeEntry deeper context item path occurrence).Fails state fault) :
    (item.name = "attribute" ∧ useOf item ≠ "prohibited" ∧
        declaredAttribute context.schema item = .error fault) ∨
      (item.name = "attributeGroup" ∧
        (Schema.followReference context.schema.attributeGroup item = .error fault ∨
          ∃ definition, Schema.followReference context.schema.attributeGroup item =
            .ok definition ∧
            (context.enter deeper definition false = .error fault ∨
              context.encloses definition = false ∧ ∃ level ∈ deeper,
                ∃ child ∈ definition.elements,
                  (level.attributeEntry (context.inside definition) child path
                    occurrence).Fails state fault))) := by
  by_cases hattribute : item.name = "attribute"
  · rw [buildAttributeEntry_of_attribute hattribute] at h
    exact .inl ⟨hattribute, buildAttribute_fails h⟩
  by_cases hgroup : item.name = "attributeGroup"
  · refine .inr ⟨hgroup, ?_⟩
    rw [buildAttributeEntry_of_group hgroup] at h
    rcases Build.ofFault_fails.mp h with h | ⟨definition, hdefinition, h⟩
    · exact .inl h
    refine .inr ⟨definition, hdefinition, ?_⟩
    rcases Build.ofFault_fails.mp h with h | ⟨⟨inner, level⟩, henter, h⟩
    · exact .inl h
    obtain ⟨hfree, hlevel, rfl⟩ := Context.enter_eq_ok.mp henter
    have hadvancing : ∀ build ∈ definition.elements.map (fun child =>
        level.attributeEntry (context.inside definition) child path occurrence),
        build.Ensures AttributesOnly := by
      intro build hbuild
      obtain ⟨child, -, rfl⟩ := List.mem_map.mp hbuild
      exact hdeeper level hlevel _ _ _ _
    obtain ⟨build, hbuild, hfails⟩ := Build.all_fails_of_attributesOnly hadvancing h
    obtain ⟨child, hchild, rfl⟩ := List.mem_map.mp hbuild
    exact .inr ⟨by simpa using hfree, level, hlevel, child, hchild, hfails⟩
  · rw [buildAttributeEntry_of_other hattribute hgroup] at h
    exact absurd h Build.not_nothing_fails

/-! ## Elements -/

def AttributeEntryOf (item entry : Xml.Element) : Prop :=
  ((item.name = "attribute" ∨ item.name = "attributeGroup") ∧ entry = item) ∨
    (item.name = "simpleContent" ∧ ∃ derivation ∈ item.elements, entry ∈ derivation.elements)

theorem buildItem_fails {level : Level} (hlevel : level.AttributesOnly) {item : Xml.Element}
    {occurrence : Option Xml.Element}
    (h : (buildItem level context item path occurrence).Fails state fault) :
    (item.name ∈ modelItems ∧ Particle.ofElement? context.schema item = .error fault) ∨
      (∃ particle, Particle.ofElement? context.schema item = .ok (some particle) ∧
        item.name ∈ modelItems ∧ (level.particle context 0 particle path).Fails state fault) ∨
      (∃ entry, AttributeEntryOf item entry ∧
        (level.attributeEntry context entry path occurrence).Fails state fault) ∨
      (item.name ∉ supportedItems ∧ fault = .unsupported item.name) := by
  by_cases hmodel : item.name ∈ modelItems
  · rw [buildItem_of_model hmodel] at h
    rcases Build.ofFault_fails.mp h with h | ⟨found, hfound, h⟩
    · exact .inl ⟨hmodel, h⟩
    · obtain ⟨particle, rfl⟩ := Particle.exists_of_model hmodel hfound
      exact .inr (.inl ⟨particle, hfound, hmodel, h⟩)
  refine .inr (.inr ?_)
  rcases item_cases hmodel with hattribute | hsimple | hignored | hunsupported
  · rw [buildItem_of_attribute hattribute] at h
    exact .inl ⟨item, .inl ⟨hattribute, rfl⟩, h⟩
  · rw [buildItem_of_simpleContent hsimple] at h
    have hattributes : ∀ build ∈ item.elements.flatMap (fun derivation =>
        derivation.elements.map fun child => level.attributeEntry context child path occurrence),
        build.Ensures AttributesOnly := by
      intro build hbuild
      obtain ⟨derivation, -, hbuild⟩ := List.mem_flatMap.mp hbuild
      obtain ⟨child, -, rfl⟩ := List.mem_map.mp hbuild
      exact hlevel _ _ _ _
    obtain ⟨build, hbuild, hfails⟩ := Build.all_fails_of_attributesOnly hattributes h
    obtain ⟨derivation, hderivation, hbuild⟩ := List.mem_flatMap.mp hbuild
    obtain ⟨child, hchild, rfl⟩ := List.mem_map.mp hbuild
    exact .inl ⟨child, .inr ⟨hsimple, derivation, hderivation, hchild⟩, hfails⟩
  · rw [buildItem_of_ignored hignored] at h
    exact absurd h Build.not_nothing_fails
  · rw [buildItem_of_unsupported hunsupported] at h
    exact .inr ⟨hunsupported, (Build.fail_fails.mp h).symm⟩

def ContentFails (deeper : Option Level) (context : Context) (declaration : Declaration)
    (occurrence : Option Xml.Element) (fault : SchemaFault) : Prop :=
  ∃ path failure, elementContent deeper context declaration path occurrence = .error failure ∧
    failure.error.fault = fault

theorem elementContent_eq_error {declaration : Declaration} {occurrence : Option Xml.Element} :
    (∃ failure, elementContent deeper context declaration path occurrence = .error failure ∧
        failure.error.fault = fault) ↔
      ∃ definition, declaration.content = .complex definition ∧
        (context.enter deeper definition occurrence.isSome = .error fault ∨
          (occurrence.isSome = true ∨ context.encloses definition = false) ∧ ∃ level ∈ deeper,
            (buildItems level (context.insideType definition) definition path
              occurrence).Fails (.start occurrence) fault) := by
  cases hcontent : declaration.content with
  | simple => simp [elementContent, hcontent]
  | complex definition =>
      simp only [elementContent, hcontent, complexContent]
      cases henter : context.enter deeper definition occurrence.isSome with
      | error other =>
          constructor
          · rintro ⟨_, ⟨⟩, rfl⟩
            exact ⟨definition, rfl, .inl henter⟩
          · rintro ⟨_, ⟨⟩, h | ⟨hfree, level, hlevel, -⟩⟩
            · obtain rfl := Except.error.inj (henter.symm.trans h)
              exact ⟨_, rfl, rfl⟩
            · exact absurd (henter.symm.trans (Context.enter_eq_ok.mpr ⟨hfree, hlevel, rfl⟩))
                (by simp)
      | ok entered =>
          obtain ⟨inner, level⟩ := entered
          obtain ⟨hfree, hlevel, rfl⟩ := Context.enter_eq_ok.mp henter
          constructor
          · rintro ⟨failure, h, rfl⟩
            simp only at h
            split at h
            · rename_i hitems
              cases h
              exact ⟨definition, rfl, .inr ⟨hfree, level, hlevel, failure, hitems, rfl⟩⟩
            · cases h
          · rintro ⟨_, ⟨⟩, h | ⟨-, other, hother, failure, hitems, rfl⟩⟩
            · exact absurd (henter.symm.trans h) (by simp)
            · obtain rfl := Option.mem_unique hlevel hother
              refine ⟨failure, ?_, rfl⟩
              simp only
              rw [Context.insideType] at hitems
              rw [hitems]

theorem items_advancing {level : Level} (hparticle : level.Advancing)
    (hattribute : level.AttributesOnly) (context : Context) (items : List Xml.Element)
    (path : String) (occurrence : Option Xml.Element) :
    (Build.all (items.map fun item =>
      buildItem level context item path occurrence)).Advancing := by
  refine Build.Advancing.all fun build hbuild => ?_
  obtain ⟨item, -, rfl⟩ := List.mem_map.mp hbuild
  exact buildItem_advancing hparticle hattribute _ _ _ _

theorem ContentFails.cases (hparticles : ∀ level ∈ deeper, level.Advancing)
    (hattributes : ∀ level ∈ deeper, level.AttributesOnly) {declaration : Declaration}
    {occurrence : Option Xml.Element}
    (h : ContentFails deeper context declaration occurrence fault) :
    ∃ definition, declaration.content = .complex definition ∧
      (context.enter deeper definition occurrence.isSome = .error fault ∨
        (occurrence.isSome = true ∨ context.encloses definition = false) ∧
          ∃ level ∈ deeper, ∃ item ∈ definition.elements, ∃ path middle,
            (BuildState.start occurrence).Advances middle ∧
              (buildItem level (context.insideType definition) item path occurrence).Fails
                middle fault) := by
  obtain ⟨path, h⟩ := h
  obtain ⟨definition, hcontent, h⟩ := elementContent_eq_error.mp h
  refine ⟨definition, hcontent, h.imp_right fun ⟨hfree, level, hlevel, h⟩ => ?_⟩
  obtain ⟨before, item, rest, middle, hitems, hbefore, h⟩ := Build.all_map_fails.mp h
  have hadvancing := items_advancing (hparticles level hlevel) (hattributes level hlevel)
    (context.insideType definition) before path occurrence
  exact ⟨hfree, level, hlevel, item, hitems ▸ List.mem_append_cons_self, path, middle,
    hadvancing.advances hbefore, h⟩

theorem buildOccurrence_fails_iff {declaration : Declaration} {bounds : Bounds}
    {occurrence : Option Xml.Element} :
    (buildOccurrence deeper context declaration bounds path occurrence).Fails state fault ↔
      ∃ failure, elementContent deeper context declaration
        (placePath path declaration.name (state.nextPlace declaration.name)) occurrence =
          .error failure ∧ failure.error.fault = fault := by
  simp only [Build.Fails, buildOccurrence]
  cases elementContent deeper context declaration
    (placePath path declaration.name (state.nextPlace declaration.name)) occurrence with
  | error failure => simp [Diagnostic.located]
  | ok content => simp

theorem buildCopies_fails_iff {declaration : Declaration} {bounds : Bounds} {count : Nat} :
    (buildCopies deeper context declaration bounds path count).Fails state fault ↔
      ∃ done < count, ∃ middle,
        (buildCopies deeper context declaration bounds path done).Reaches state middle ∧
          (buildOccurrence deeper context declaration bounds path none).Fails middle fault :=
  Build.all_replicate_fails

theorem buildTaken_fails_iff {declaration : Declaration} {bounds : Bounds}
    {taken : List Xml.Element} :
    (buildTaken deeper context declaration bounds path taken).Fails state fault ↔
      ∃ before occurrence rest middle, taken = before ++ occurrence :: rest ∧
        (buildTaken deeper context declaration bounds path before).Reaches state middle ∧
          (buildOccurrence deeper context declaration bounds path
            (some occurrence)).Fails middle fault := by
  simp only [buildTaken, Build.all_zipIdx_fails, Build.mapForms_fails]

def BuildState.pastRun (state : BuildState) (cursor : Cursor) (name : String)
    (limit : MaxOccurs) : BuildState :=
  { state with cursor := (cursor.takeRun name limit).2 }

theorem buildDeclared_fails_iff {declaration : Declaration} {bounds : Bounds} {atLeast : Nat}
    {cursor : Cursor} {taken : List Xml.Element} (hcursor : state.cursor = some cursor)
    (htaken : cursor.run declaration.name (takingLimit context bounds) = taken) :
    (buildDeclared deeper context declaration bounds atLeast path).Fails state fault ↔
      (buildTaken deeper context declaration bounds path taken).Fails
        (state.pastRun cursor declaration.name (takingLimit context bounds)) fault ∨
      ∃ middle, (buildTaken deeper context declaration bounds path taken).Reaches
          (state.pastRun cursor declaration.name (takingLimit context bounds)) middle ∧
        (buildCopies deeper context declaration bounds path
          (max bounds.min atLeast - taken.length)).Fails middle fault := by
  have hrun : (buildDeclared deeper context declaration bounds atLeast path).Fails state fault ↔
      ((buildTaken deeper context declaration bounds path taken).andThen
        (buildCopies deeper context declaration bounds path
          (max bounds.min atLeast - taken.length))).Fails
        (state.pastRun cursor declaration.name (takingLimit context bounds)) fault := by
    simp only [Build.Fails, buildDeclared, hcursor, Cursor.takeRun, htaken, BuildState.pastRun]
  simp only [hrun, Build.andThen_fails, Build.Reaches]
  grind

theorem buildElement_fails_iff {node : Xml.Element} {bounds : Bounds} {atLeast : Nat} :
    (buildElement deeper context node bounds atLeast path).Fails state fault ↔
      Declaration.ofParticle context.schema context.settings node = .error fault ∨
        ∃ declaration,
          Declaration.ofParticle context.schema context.settings node = .ok declaration ∧
            (buildDeclared deeper context declaration bounds (bounds.max.cap atLeast)
              path).Fails state fault := by
  simp only [buildElement]
  cases Declaration.ofParticle context.schema context.settings node with
  | error other => simp [Build.fail_fails, Diagnostic.located, Diagnostic.ofFault]
  | ok declaration => simp

theorem buildElement_fails {node : Xml.Element} {bounds : Bounds} {atLeast : Nat}
    (h : (buildElement deeper context node bounds atLeast path).Fails state fault) :
    Declaration.ofParticle context.schema context.settings node = .error fault ∨
      ∃ declaration,
        Declaration.ofParticle context.schema context.settings node = .ok declaration ∧
          ((state.cursor = none ∧
              0 < copiesWithoutInstance context declaration bounds (bounds.max.cap atLeast) ∧
              ContentFails deeper context declaration none fault) ∨
            ∃ cursor, state.cursor = some cursor ∧
              (ContentFails deeper context declaration none fault ∨
                ∃ occurrence ∈ cursor.ahead,
                  ContentFails deeper context declaration (some occurrence) fault)) := by
  refine (buildElement_fails_iff.mp h).imp_right fun ⟨declaration, hdeclaration, h⟩ =>
    ⟨declaration, hdeclaration, ?_⟩
  cases hcursor : state.cursor with
  | none =>
      have hcopies : (buildCopies deeper context declaration bounds path
          (copiesWithoutInstance context declaration bounds
            (bounds.max.cap atLeast))).Fails state fault := by
        simpa only [Build.Fails, buildDeclared, hcursor] using h
      obtain ⟨done, hdone, middle, -, h⟩ := buildCopies_fails_iff.mp hcopies
      exact .inl ⟨rfl, by omega, _, buildOccurrence_fails_iff.mp h⟩
  | some cursor =>
      refine .inr ⟨cursor, rfl, ?_⟩
      rcases (buildDeclared_fails_iff hcursor rfl).mp h with h | ⟨taken, -, h⟩
      · obtain ⟨before, occurrence, rest, middle, htaken, -, h⟩ := buildTaken_fails_iff.mp h
        have hin : occurrence ∈ cursor.run declaration.name (takingLimit context bounds) :=
          htaken ▸ List.mem_append_cons_self
        exact .inr ⟨occurrence, (Cursor.mem_run hin).1, _, buildOccurrence_fails_iff.mp h⟩
      · obtain ⟨done, -, middle, -, h⟩ := buildCopies_fails_iff.mp h
        exact .inl ⟨_, buildOccurrence_fails_iff.mp h⟩

/-! ## Groups -/

theorem alternativeFor_eq_error {schema : Schema} {alternatives : List Particle}
    {next : Option Xml.Element} (h : alternativeFor schema alternatives next = .error fault) :
    next.isSome = true ∧ ∃ alternative ∈ alternatives,
      firstNames schema alternative = .error fault := by
  cases next with
  | none => cases h
  | some element =>
      refine ⟨rfl, ?_⟩
      simp only [alternativeFor] at h
      induction alternatives with
      | nil => cases h
      | cons alternative rest ih =>
          simp only [firstBeginning] at h
          rcases bind_eq_error.mp h with h | ⟨names, -, h⟩
          · exact ⟨alternative, List.mem_cons_self, h⟩
          · split at h
            · cases h
            · rcases bind_eq_error.mp h with h | ⟨found, -, h⟩
              · obtain ⟨other, hother, hfails⟩ := ih h
                exact ⟨other, List.mem_cons_of_mem _ hother, hfails⟩
              · cases h

def Compositor.memberCount : Compositor → Nat
  | .sequence => 0
  | .choice => 1

theorem buildSequence_fails_iff {level : Level} {members : List Particle} :
    (buildSequence level context members path).Fails state fault ↔
      ∃ before member rest middle, members = before ++ member :: rest ∧
        (buildSequence level context before path).Reaches state middle ∧
          (level.particle context 0 member path).Fails middle fault :=
  Build.all_map_fails

def buildAlternativesBefore (level : Level) (context : Context) (path : String)
    (matched : Option Nat) (alternatives before : List Particle) : Build :=
  .all (before.zipIdx.map fun (alternative, index) =>
    buildAlternative level context path matched
      (selectedIndex context.settings alternatives matched) alternative index)

theorem buildAlternativesBefore_advancing {level : Level} (hlevel : level.Advancing)
    (matched : Option Nat) (alternatives before : List Particle) :
    (buildAlternativesBefore level context path matched alternatives before).Advancing := by
  refine Build.Advancing.all fun build hbuild => ?_
  obtain ⟨⟨alternative, index⟩, -, rfl⟩ := List.mem_map.mp hbuild
  exact buildAlternative_advancing hlevel _ _ _ _

theorem buildChoice_fails_iff {level : Level} {members : List Particle} :
    (buildChoice level context members path).Fails state fault ↔
      alternativeFor context.schema members state.next? = .error fault ∨
        ∃ matched before alternative rest middle,
          alternativeFor context.schema members state.next? = .ok matched ∧
          members = before ++ alternative :: rest ∧
          (buildAlternativesBefore level context path matched members before).Reaches state
            middle ∧
          (level.particle context 1 alternative path).Fails
            (if matched = some before.length then middle else { middle with cursor := none })
            fault := by
  have hone : ∀ matched alternative index middle,
      (buildAlternative level context path matched
          (selectedIndex context.settings members matched) alternative index).Fails middle fault ↔
        (level.particle context 1 alternative path).Fails
          (if matched = some index then middle else { middle with cursor := none }) fault := by
    intro matched alternative index middle
    rw [buildAlternative, Build.mapForms_fails]
    split
    · rfl
    · exact Build.withoutInstance_fails
  rw [Build.Fails, buildChoice, ← Build.Fails, Build.ofFault_fails]
  refine or_congr_right (exists_congr fun matched => ?_)
  simp only [Build.all_zipIdx_fails, hone, buildAlternativesBefore]
  grind

theorem buildMembers_fails {level : Level} (hlevel : level.Advancing) {compositor : Compositor}
    {members : List Particle}
    (h : (buildMembers level context compositor members path).Fails state fault) :
    (state.cursor.isSome = true ∧ ∃ alternative ∈ members,
        firstNames context.schema alternative = .error fault) ∨
      ∃ member ∈ members, ∃ middle, (state.Advances middle ∨ middle.cursor = none) ∧
        (level.particle context compositor.memberCount member path).Fails middle fault := by
  cases compositor with
  | sequence =>
      obtain ⟨before, member, rest, middle, rfl, hbefore, h⟩ := buildSequence_fails_iff.mp h
      exact .inr ⟨member, List.mem_append_cons_self, middle,
        .inl ((buildMembers_advancing hlevel .sequence before).advances hbefore), h⟩
  | choice =>
      rcases buildChoice_fails_iff.mp h with h |
        ⟨matched, before, alternative, rest, middle, -, rfl, hbefore, h⟩
      · obtain ⟨hnext, halternative⟩ := alternativeFor_eq_error h
        refine .inl ⟨?_, halternative⟩
        cases hcursor : state.cursor with
        | none => simp [BuildState.next?, hcursor] at hnext
        | some cursor => rfl
      refine .inr ⟨alternative, List.mem_append_cons_self, _, ?_, h⟩
      split
      · exact .inl ((buildAlternativesBefore_advancing hlevel _ _ _).advances hbefore)
      · exact .inr rfl

theorem buildGroup_fails_iff {compositor : Compositor} {node : Xml.Element} {bounds : Bounds} :
    (buildGroup deeper context compositor node bounds path).Fails state fault ↔
      context.enter deeper node state.cursor.isSome = .error fault ∨
        (state.cursor.isSome = true ∨ context.encloses node = false) ∧ ∃ level ∈ deeper,
          Particle.members context.schema node = .error fault ∨
            ∃ members, Particle.members context.schema node = .ok members ∧
              (instantiate (context.inside node) (.group compositor node bounds) compositor bounds
                (oneInstantiation level context compositor members node bounds path)).Fails
                state fault := by
  rw [Build.Fails, buildGroup, ← Build.Fails, Build.ofFault_fails]
  refine or_congr_right ?_
  simp only [Prod.exists, Context.enter_eq_ok, Build.ofFault_fails]
  constructor
  · rintro ⟨inner, level, ⟨hfree, hlevel, rfl⟩, h⟩
    exact ⟨hfree, level, hlevel, h⟩
  · rintro ⟨hfree, level, hlevel, h⟩
    exact ⟨context.inside node, level, ⟨hfree, hlevel, rfl⟩, h⟩

theorem buildGroup_fails (hdeeper : ∀ level ∈ deeper, level.Advancing) {compositor : Compositor}
    {node : Xml.Element} {bounds : Bounds}
    (h : (buildGroup deeper context compositor node bounds path).Fails state fault) :
    context.enter deeper node state.cursor.isSome = .error fault ∨
      (state.cursor.isSome = true ∨ context.encloses node = false) ∧ ∃ level ∈ deeper,
        Particle.members context.schema node = .error fault ∨
          bounds.max ≠ .count 0 ∧
            ((state.cursor.isSome = true ∧
                firstNames context.schema (.group compositor node bounds) = .error fault) ∨
              ∃ members, Particle.members context.schema node = .ok members ∧
                (state.cursor.isSome = true → ∃ names,
                  firstNames context.schema (.group compositor node bounds) = .ok names) ∧
                ∃ middle, state.Advances middle ∧
                  (buildMembers level (context.insideGroup node bounds) compositor members
                    path).Fails middle fault) := by
  refine (buildGroup_fails_iff.mp h).imp_right fun ⟨hfree, level, hlevel, h⟩ =>
    ⟨hfree, level, hlevel, h.imp_right ?_⟩
  rintro ⟨members, hmembers, h⟩
  have hone : (oneInstantiation level context compositor members node bounds path).Advancing :=
    oneInstantiation_advancing (hdeeper level hlevel) compositor members node bounds
  cases hcursor : state.cursor with
  | none =>
      by_cases hmax : bounds.max = .count 0
      · simp [Build.Fails, instantiate, hmax] at h
      have hall : (Build.all (List.replicate (requiredCount bounds)
          (oneInstantiation level context compositor members node bounds path))).Fails
          state fault := by
        simpa only [Build.Fails, instantiate, if_neg hmax, hcursor] using h
      obtain ⟨build, hbuild, middle, hmiddle, hfails⟩ := Build.all_fails (fun build hbuild => by
        rw [List.eq_of_mem_replicate hbuild]
        exact hone) hall
      rw [List.eq_of_mem_replicate hbuild] at hfails
      exact ⟨hmax, .inr ⟨members, hmembers, by simp, middle, hmiddle,
        Build.grouped_fails.mp hfails⟩⟩
  | some cursor =>
      obtain ⟨hmax, h⟩ := (Build.instantiate_fails_iff hone (by simp [hcursor])).mp h
      refine ⟨hmax, h.imp (fun h => ⟨rfl, h⟩) ?_⟩
      rintro ⟨names, middle, hnames, hcomes, h⟩
      exact ⟨members, hmembers, fun _ => ⟨names, hnames⟩, middle, hcomes.advances hone,
        Build.grouped_fails.mp h⟩

end

/-! ## Whole forms -/

/-- The fault that a compilation ends with, if it fails. -/
def faultOf {α : Type} : Except Failure α → Option SchemaFault
  | .ok _ => none
  | .error failure => some failure.error.fault

theorem faultOf_eq_some {α : Type} {outcome : Except Failure α} {fault : SchemaFault} :
    faultOf outcome = some fault ↔
      ∃ failure, outcome = .error failure ∧ failure.error.fault = fault := by
  cases outcome <;> simp [faultOf]

theorem compileForm_eq_error {schema : Schema} {settings : Settings} {name : Option String}
    {document : Option Xml.Document} {failure : Failure}
    (h : compileForm schema settings name document = .error failure) :
    schema.selectGlobal name = .error failure.error.fault ∨
      ∃ element, schema.selectGlobal name = .ok element ∧
        ((buildElement (levelBelow settings.maxDepth) (.start schema settings) element .single 1
            "").Fails (.start (document.map Xml.Document.holder)) failure.error.fault ∨
          failure.error.fault = .noGlobals) := by
  simp only [compileForm] at h
  split at h
  · rename_i fault hglobal
    cases h
    exact .inl hglobal
  · rename_i element hglobal
    refine .inr ⟨element, hglobal, ?_⟩
    split at h
    · rename_i found hbuild
      cases h
      exact .inl ⟨failure, hbuild, rfl⟩
    · cases h
    · cases h
      exact .inr rfl

theorem compileForm_fails {schema : Schema} {settings : Settings} {name : Option String}
    {element : Xml.Element} {document : Option Xml.Document} {fault : SchemaFault}
    (hglobal : schema.selectGlobal name = .ok element)
    (h : (buildElement (levelBelow settings.maxDepth) (.start schema settings) element .single 1
      "").Fails (.start (document.map Xml.Document.holder)) fault) :
    faultOf (compileForm schema settings name document) = some fault := by
  obtain ⟨failure, hbuild, hfault⟩ := h
  have hrun : buildAtTop schema settings 1 (.element element .single) ""
      (document.map Xml.Document.holder) = .error failure := hbuild
  simp only [compileForm, hglobal, hrun, faultOf, hfault]

theorem IsLocal.selectGlobal (schema : Schema) (name : Option String) :
    IsLocal (schema.selectGlobal name) := by
  cases name <;> simp only [Schema.selectGlobal] <;> split <;> first | exact ok _ | exact error id

end SchemaForms
