import SchemaForms.Proofs.Steps

/-!
# Invariants of compilations

A relation between the states before and after a build and the forms it makes
holds of a group if it holds of its members, whatever alternatives are selected
and whichever instantiations are remarked on. The items of a complex type are
particles, attributes, or nothing.
-/

namespace SchemaForms

namespace Build

/-- A relation that holds of a run if it holds of the parts of the run, that does not look
at options, and that a part which is built without the instance keeps. -/
structure Invariant (relation : BuildState → List Form → BuildState → Prop) : Prop
    extends Additive relation where
  mapOptions : ∀ {state after forms} (change : Options → Options), relation state forms after →
    relation state (forms.map (·.mapOptions change)) after
  withoutInstance : ∀ {state last forms}, relation { state with cursor := none } forms last →
    relation state forms { last with cursor := state.cursor }

variable {relation : BuildState → List Form → BuildState → Prop}

theorem Invariant.remarkWith (h : Invariant relation) {state after : BuildState}
    {forms : List Form} (hforms : relation state forms after) (error : Option Mismatch) :
    relation state (forms.map (SchemaForms.remarkWith error)) after := by
  cases error with
  | none =>
      have hsame : SchemaForms.remarkWith none = id := rfl
      rwa [hsame, List.map_id]
  | some error => exact h.mapOptions (·.remark error.message) hforms

theorem Invariant.remarked (h : Invariant relation) {build : Build}
    (hbuild : build.Ensures relation) (error : Option Mismatch) :
    (build.mapForms (SchemaForms.remarkWith error)).Ensures relation := by
  intro state forms after hrun
  obtain ⟨made, hmade, rfl⟩ := mapForms_eq_ok.mp hrun
  exact h.remarkWith (hbuild _ _ _ hmade) error

theorem Invariant.instantiate (h : Invariant relation) {one : Build} (hone : one.Ensures relation)
    (context : Context) (group : Particle) (compositor : Compositor) (bounds : Bounds) :
    (SchemaForms.instantiate context group compositor bounds one).Ensures relation :=
  hone.instantiate h.toAdditive (h.remarked hone) context group compositor bounds

theorem Invariant.and {other : BuildState → List Form → BuildState → Prop}
    (h : Invariant relation) (hother : Invariant other) :
    Invariant fun state forms after => relation state forms after ∧ other state forms after where
  nothing := fun state => ⟨h.nothing state, hother.nothing state⟩
  append := fun hbefore hrest => ⟨h.append hbefore.1 hrest.1, hother.append hbefore.2 hrest.2⟩
  mapOptions := fun change hforms =>
    ⟨h.mapOptions change hforms.1, hother.mapOptions change hforms.2⟩
  withoutInstance := fun hforms =>
    ⟨h.withoutInstance hforms.1, hother.withoutInstance hforms.2⟩

theorem each_invariant {property : Form → Prop}
    (hoptions : ∀ form, property form → ∀ change, property (form.mapOptions change)) :
    Invariant (Each property) where
  toAdditive := each_additive property
  mapOptions := by
    intro state after forms change h form hform
    obtain ⟨made, hmade, rfl⟩ := List.mem_map.mp hform
    exact hoptions made (h made hmade) change
  withoutInstance := fun h => h

section

variable {level : Level} {context : Context} {path : String} {members : List Particle}

theorem Invariant.alternative (h : Invariant relation) {alternative : Particle}
    (hparticle : (level.particle context 1 alternative path).Ensures relation)
    (matched selected : Option Nat) (index : Nat) :
    (buildAlternative level context path matched selected alternative index).Ensures
      relation := by
  intro state forms after hrun
  obtain ⟨made, rfl, ⟨-, hmade⟩ | ⟨-, last, hmade, rfl⟩⟩ := buildAlternative_eq_ok.mp hrun
  · exact h.mapOptions _ (hparticle _ _ _ hmade)
  · exact h.mapOptions _ (h.withoutInstance (hparticle _ _ _ hmade))

theorem Invariant.buildMembers (h : Invariant relation)
    (hmembers : ∀ member ∈ members, ∀ atLeast,
      (level.particle context atLeast member path).Ensures relation)
    (compositor : Compositor) :
    (SchemaForms.buildMembers level context compositor members path).Ensures relation := by
  cases compositor with
  | sequence =>
      refine Ensures.all h.toAdditive fun build hbuild => ?_
      obtain ⟨member, hmember, rfl⟩ := List.mem_map.mp hbuild
      exact hmembers member hmember _
  | choice =>
      intro state forms after hrun
      obtain ⟨matched, -, hall⟩ := ofFault_eq_ok.mp hrun
      refine Ensures.all h.toAdditive (fun build hbuild => ?_) _ _ _ hall
      obtain ⟨⟨alternative, index⟩, hin, rfl⟩ := List.mem_map.mp hbuild
      exact h.alternative (hmembers alternative (List.fst_mem_of_mem_zipIdx hin) _) _ _ _

theorem Invariant.group (h : Invariant relation) {deeper : Option Level}
    {compositor : Compositor} {node : Xml.Element} {bounds : Bounds}
    (hmembers : ∀ level ∈ deeper, ∀ members,
      Particle.members context.schema node = .ok members → ∀ member ∈ members, ∀ atLeast,
        (level.particle (context.insideGroup node bounds) atLeast member path).Ensures relation)
    (hgrouped : ∀ state children last, relation state children last →
      relation state [groupForm compositor node bounds
        (placePath path compositor.step (last.nextPlace compositor.step)) children]
        (last.givePlace compositor.step)) :
    (buildGroup deeper context compositor node bounds path).Ensures relation := by
  intro state forms after hrun
  obtain ⟨level, members, hlevel, -, hin, hinstantiate⟩ := buildGroup_eq_ok.mp hrun
  refine h.instantiate (fun state forms after hone => ?_) _ _ _ _ _ _ _ hinstantiate
  obtain ⟨children, last, hchildren, rfl, rfl⟩ := grouped_eq_ok.mp hone
  exact hgrouped _ _ _
    (h.buildMembers (hmembers level hlevel members hin) compositor _ _ _ hchildren)

/-! ## Items of complex types -/

def IsEntryOf (entry item : Xml.Element) : Prop :=
  entry = item ∨ ∃ derivation ∈ item.elements, entry ∈ derivation.elements

theorem Additive.item (h : Additive relation) {item : Xml.Element}
    {occurrence : Option Xml.Element}
    (hparticle : ∀ particle, Particle.ofElement? context.schema item = .ok (some particle) →
      (level.particle context 0 particle path).Ensures relation)
    (hentry : ∀ entry, IsEntryOf entry item →
      (level.attributeEntry context entry path occurrence).Ensures relation) :
    (buildItem level context item path occurrence).Ensures relation := by
  intro state forms after hrun
  by_cases hmodel : item.name ∈ modelItems
  · rw [buildItem_of_model hmodel] at hrun
    obtain ⟨found, hfound, hrun⟩ := ofFault_eq_ok.mp hrun
    obtain ⟨particle, rfl⟩ := Particle.exists_of_model hmodel hfound
    exact hparticle particle hfound _ _ _ hrun
  rcases item_cases hmodel with hattribute | hsimple | hignored | hunsupported
  · rw [buildItem_of_attribute hattribute] at hrun
    exact hentry item (.inl rfl) _ _ _ hrun
  · rw [buildItem_of_simpleContent hsimple] at hrun
    refine Ensures.all h (fun build hbuild => ?_) _ _ _ hrun
    obtain ⟨derivation, hderivation, hbuild⟩ := List.mem_flatMap.mp hbuild
    obtain ⟨child, hchild, rfl⟩ := List.mem_map.mp hbuild
    exact hentry child (.inr ⟨derivation, hderivation, hchild⟩)
  · rw [buildItem_of_ignored hignored] at hrun
    obtain ⟨rfl, rfl⟩ := nothing_eq_ok.mp hrun
    exact h.nothing after
  · rw [buildItem_of_unsupported hunsupported] at hrun
    cases hrun

theorem Additive.attributeEntry (h : Additive relation) {deeper : Option Level}
    {entry : Xml.Element} {occurrence : Option Xml.Element}
    (huse : entry.name = "attribute" →
      (buildAttribute context entry path occurrence).Ensures relation)
    (hdeeper : ∀ level ∈ deeper, ∀ definition,
      Schema.followReference context.schema.attributeGroup entry = .ok definition →
        ∀ child ∈ definition.elements,
          (level.attributeEntry (context.inside definition) child path occurrence).Ensures
            relation) :
    (buildAttributeEntry deeper context entry path occurrence).Ensures relation := by
  intro state forms after hrun
  by_cases hattribute : entry.name = "attribute"
  · rw [buildAttributeEntry_of_attribute hattribute] at hrun
    exact huse hattribute _ _ _ hrun
  by_cases hgroup : entry.name = "attributeGroup"
  · rw [buildAttributeEntry_of_group hgroup] at hrun
    obtain ⟨definition, hdefinition, hrun⟩ := ofFault_eq_ok.mp hrun
    obtain ⟨⟨inner, level⟩, henter, hrun⟩ := ofFault_eq_ok.mp hrun
    obtain ⟨-, hlevel, rfl⟩ := Context.enter_eq_ok.mp henter
    refine Ensures.all h (fun build hbuild => ?_) _ _ _ hrun
    obtain ⟨child, hchild, rfl⟩ := List.mem_map.mp hbuild
    exact hdeeper level hlevel definition hdefinition child hchild
  · rw [buildAttributeEntry_of_other hattribute hgroup] at hrun
    obtain ⟨rfl, rfl⟩ := nothing_eq_ok.mp hrun
    exact h.nothing after

end

end Build

theorem buildParticle_kind {deeper : Option Level} {context : Context} {particle : Particle}
    (hparticle : ∀ node, particle ≠ .attributeUse node) (atLeast : Nat) (path : String) :
    (buildParticle deeper context atLeast particle path).Ensures
      (Build.Each fun form => form.label.kind ≠ .attributeUse) := by
  intro state forms after hrun
  cases particle with
  | element node bounds =>
      obtain ⟨declaration, -, hrun⟩ := buildElement_eq_ok.mp hrun
      intro form hform
      obtain ⟨_, _, hfrom⟩ := compiledFrom_of_buildDeclared hrun form hform
      simp [hfrom.shown.1]
  | group compositor node bounds =>
      obtain ⟨level, members, -, -, -, hrun⟩ := buildGroup_eq_ok.mp hrun
      have hoptions : ∀ form : Form, form.label.kind ≠ .attributeUse → ∀ change,
          (form.mapOptions change).label.kind ≠ .attributeUse := by
        intro form hkind change
        rw [Form.label_mapOptions]
        exact hkind
      refine (Build.each_invariant hoptions).instantiate ?_ _ _ _ _ _ _ _ hrun
      intro before made last hmade
      obtain ⟨children, _, -, rfl, -⟩ := Build.grouped_eq_ok.mp hmade
      refine List.forall_mem_singleton.mpr ?_
      cases compositor <;> exact nofun
  | attributeUse node => exact (hparticle node rfl).elim

end SchemaForms
