import SchemaForms.Proofs.Depth
import SchemaForms.Proofs.Invariants

/-!
# Smaller and larger depth limits

Two compilations that differ in the depth limit alone are run side by side. The
one with the smaller limit reaches it, or it goes on like the other one and ends
in the same way. Whatever it compiles enters no more definitions on the way down
to a node than its limit allows.
-/

namespace SchemaForms

def CutOff {α : Type} (limit : Nat) (outcome other : Except Failure α) : Prop :=
  faultOf outcome = some (.tooDeep limit) ∨ outcome = other

/-- From every state, the build reaches the limit or does what the other one does. -/
def Build.CutOff (limit : Nat) (build other : Build) : Prop :=
  ∀ state, SchemaForms.CutOff limit (build state) (other state)

namespace Build.CutOff

variable {limit : Nat} {build other first second next : Build}

theorem refl (limit : Nat) (build : Build) : build.CutOff limit build := fun _ => .inr rfl

theorem ofFault {α : Type} (outcome : Except SchemaFault α) {next others : α → Build}
    (h : ∀ value, (next value).CutOff limit (others value)) :
    (Build.ofFault outcome next).CutOff limit (.ofFault outcome others) := by
  cases outcome with
  | error fault => exact refl limit _
  | ok value => exact h value

theorem andThen {followed : Build} (hfirst : first.CutOff limit second)
    (hnext : next.CutOff limit followed) :
    (first.andThen next).CutOff limit (second.andThen followed) := by
  intro state
  rcases hfirst state with hfails | hsame
  · exact .inl (faultOf_eq_some.mpr (andThen_fails.mpr (.inl (faultOf_eq_some.mp hfails))))
  cases hrun : first state with
  | error failure =>
      rw [hrun] at hsame
      exact .inr (by simp only [Build.andThen, hrun, ← hsame])
  | ok result =>
      obtain ⟨forms, middle⟩ := result
      rw [hrun] at hsame
      rcases hnext middle with hfails | hrest
      · exact .inl (faultOf_eq_some.mpr
          (andThen_fails.mpr (.inr ⟨forms, middle, hrun, faultOf_eq_some.mp hfails⟩)))
      · exact .inr (by simp only [Build.andThen, hrun, ← hsame, hrest])

theorem all {α : Type} {items : List α} {build other : α → Build}
    (h : ∀ item ∈ items, (build item).CutOff limit (other item)) :
    (Build.all (items.map build)).CutOff limit (.all (items.map other)) := by
  induction items with
  | nil => exact refl limit _
  | cons item rest ih =>
      rw [List.forall_mem_cons] at h
      exact h.1.andThen (ih h.2)

theorem replicate (h : build.CutOff limit other) (count : Nat) :
    (Build.all (List.replicate count build)).CutOff limit (.all (List.replicate count other)) := by
  induction count with
  | zero => exact refl limit _
  | succ count ih => exact h.andThen ih

theorem mapForms (h : build.CutOff limit other) (change : Form → Form) :
    (build.mapForms change).CutOff limit (other.mapForms change) := by
  intro state
  rcases h state with hfails | hsame
  · exact .inl (faultOf_eq_some.mpr (mapForms_fails.mpr (faultOf_eq_some.mp hfails)))
  · exact .inr (by simp only [Build.mapForms, hsame])

theorem withoutInstance (h : build.CutOff limit other) :
    build.withoutInstance.CutOff limit other.withoutInstance := by
  intro state
  rcases h { state with cursor := none } with hfails | hsame
  · exact .inl (faultOf_eq_some.mpr (withoutInstance_fails.mpr (faultOf_eq_some.mp hfails)))
  · exact .inr (by simp only [Build.withoutInstance, hsame])

theorem grouped (h : build.CutOff limit other) (compositor : Compositor) (node : Xml.Element)
    (bounds : Bounds) (path : String) :
    (build.grouped compositor node bounds path).CutOff limit
      (other.grouped compositor node bounds path) := by
  intro state
  rcases h state with hfails | hsame
  · exact .inl (faultOf_eq_some.mpr (grouped_fails.mpr (faultOf_eq_some.mp hfails)))
  · exact .inr (by simp only [Build.grouped, hsame])

theorem repeatOver (h : build.CutOff limit other) (repeated : Bool) (names : List String)
    (bounds : Bounds) (tag : String) (fuel count : Nat) :
    (SchemaForms.repeatOver repeated names bounds tag build fuel count).CutOff limit
      (SchemaForms.repeatOver repeated names bounds tag other fuel count) := by
  induction fuel generalizing count with
  | zero => exact refl limit _
  | succ fuel ih =>
      intro state
      simp only [SchemaForms.repeatOver]
      split
      · exact .inr rfl
      · refine andThen (h.mapForms _) (fun after => ?_) state
        split
        · exact .inr rfl
        · exact ih _ after

theorem instantiate (h : build.CutOff limit other) (context : Context) (group : Particle)
    (compositor : Compositor) (bounds : Bounds) :
    (SchemaForms.instantiate context group compositor bounds build).CutOff limit
      (SchemaForms.instantiate context group compositor bounds other) := by
  intro state
  simp only [SchemaForms.instantiate]
  split
  · exact .inr rfl
  · split
    · exact h.replicate _ state
    · exact ofFault _ (fun names => h.repeatOver _ _ _ _ _ _) state

end Build.CutOff

theorem CutOff.map {α β : Type} {limit : Nat} {outcome other : Except Failure α}
    (h : CutOff limit outcome other) (change : α → β) :
    CutOff limit (outcome.map change) (other.map change) := by
  rcases h with hfails | rfl
  · obtain ⟨failure, rfl, hfault⟩ := faultOf_eq_some.mp hfails
    exact .inl (congrArg some hfault)
  · exact .inr rfl

/-! ## Two limits -/

def Context.limited (context : Context) (limit : Nat) : Context :=
  { context with settings := { context.settings with maxDepth := limit } }

structure Level.CutOff (limit larger : Nat) (level other : Level) : Prop where
  particle : ∀ (context : Context) (atLeast : Nat) (particle : Particle) (path : String),
    (level.particle (context.limited limit) atLeast particle path).CutOff limit
      (other.particle (context.limited larger) atLeast particle path)
  attributeEntry : ∀ (context : Context) (entry : Xml.Element) (path : String)
    (occurrence : Option Xml.Element),
    (level.attributeEntry (context.limited limit) entry path occurrence).CutOff limit
      (other.attributeEntry (context.limited larger) entry path occurrence)

section

variable {limit larger : Nat} {deeper others : Option Level}
  (hdeeper : ∀ level ∈ deeper, ∃ other ∈ others, level.CutOff limit larger other)
include hdeeper

theorem enter_cutOff (context : Context) (definition : Xml.Element) (editing : Bool) :
    (context.limited limit).enter deeper definition editing = .error (.tooDeep limit) ∨
      (∃ fault, (context.limited limit).enter deeper definition editing = .error fault ∧
        (context.limited larger).enter others definition editing = .error fault) ∨
      ∃ level other, level.CutOff limit larger other ∧
        (context.limited limit).enter deeper definition editing =
          .ok ((context.inside definition).limited limit, level) ∧
        (context.limited larger).enter others definition editing =
          .ok ((context.inside definition).limited larger, other) := by
  cases henter : (context.limited limit).enter deeper definition editing with
  | error fault =>
      rcases Context.enter_eq_error.mp henter with ⟨hediting, hencloses, rfl⟩ | ⟨-, -, rfl⟩
      · exact .inr (.inl ⟨_, rfl, Context.enter_eq_error.mpr (.inl ⟨hediting, hencloses, rfl⟩)⟩)
      · exact .inl rfl
  | ok entered =>
      obtain ⟨inner, level⟩ := entered
      obtain ⟨hfree, hlevel, rfl⟩ := Context.enter_eq_ok.mp henter
      obtain ⟨other, hother, hcut⟩ := hdeeper level hlevel
      exact .inr (.inr ⟨level, other, hcut, rfl, Context.enter_eq_ok.mpr ⟨hfree, hother, rfl⟩⟩)

theorem Build.CutOff.ofEnter (context : Context) (definition : Xml.Element) (editing : Bool)
    {next following : Context × Level → Build}
    (hnext : ∀ level other, level.CutOff limit larger other →
      (next ((context.inside definition).limited limit, level)).CutOff limit
        (following ((context.inside definition).limited larger, other))) :
    (Build.ofFault ((context.limited limit).enter deeper definition editing) next).CutOff limit
      (.ofFault ((context.limited larger).enter others definition editing) following) := by
  rcases enter_cutOff hdeeper context definition editing with
    h | ⟨fault, h, hother⟩ | ⟨level, other, hcut, h, hother⟩
  · intro state
    exact .inl (faultOf_eq_some.mpr (Build.ofFault_fails.mpr (.inl h)))
  · rw [h, hother]
    exact .refl limit _
  · rw [h, hother]
    exact hnext level other hcut

/-! ### Attributes -/

theorem buildAttributeEntry_cutOff (context : Context) (entry : Xml.Element) (path : String)
    (occurrence : Option Xml.Element) :
    (buildAttributeEntry deeper (context.limited limit) entry path occurrence).CutOff limit
      (buildAttributeEntry others (context.limited larger) entry path occurrence) := by
  by_cases hattribute : entry.name = "attribute"
  · rw [buildAttributeEntry_of_attribute hattribute, buildAttributeEntry_of_attribute hattribute]
    exact .refl limit _
  by_cases hgroup : entry.name = "attributeGroup"
  · rw [buildAttributeEntry_of_group hgroup, buildAttributeEntry_of_group hgroup]
    refine .ofFault _ fun definition => ?_
    refine .ofEnter hdeeper context definition false fun level other hcut => ?_
    exact .all fun child _ => hcut.attributeEntry (context.inside definition) child path occurrence
  · rw [buildAttributeEntry_of_other hattribute hgroup,
      buildAttributeEntry_of_other hattribute hgroup]
    exact .refl limit _

/-! ### Elements -/

omit hdeeper in
theorem buildItem_cutOff {level other : Level} (hcut : level.CutOff limit larger other)
    (context : Context) (item : Xml.Element) (path : String) (occurrence : Option Xml.Element) :
    (buildItem level (context.limited limit) item path occurrence).CutOff limit
      (buildItem other (context.limited larger) item path occurrence) := by
  by_cases hmodel : item.name ∈ modelItems
  · rw [buildItem_of_model hmodel, buildItem_of_model hmodel]
    refine .ofFault _ fun found => ?_
    cases found with
    | none => exact .refl limit _
    | some particle => exact hcut.particle context 0 particle path
  rcases item_cases hmodel with hattribute | hsimple | hignored | hunsupported
  · rw [buildItem_of_attribute hattribute, buildItem_of_attribute hattribute]
    exact hcut.attributeEntry context item path occurrence
  · rw [buildItem_of_simpleContent hsimple, buildItem_of_simpleContent hsimple,
      buildSimpleContent, buildSimpleContent, ← List.map_flatMap, ← List.map_flatMap]
    exact .all fun child _ => hcut.attributeEntry context child path occurrence
  · rw [buildItem_of_ignored hignored, buildItem_of_ignored hignored]
    exact .refl limit _
  · rw [buildItem_of_unsupported hunsupported, buildItem_of_unsupported hunsupported]
    exact .refl limit _

omit hdeeper in
theorem complexContent_of_error {context : Context} {definition : Xml.Element}
    {occurrence : Option Xml.Element} {fault : SchemaFault} (path : String)
    (henter : context.enter deeper definition occurrence.isSome = .error fault) :
    complexContent deeper context definition path occurrence = .error ⟨.ofFault fault, []⟩ := by
  simp only [complexContent, henter]

omit hdeeper in
theorem complexContent_of_enter {context : Context} {definition : Xml.Element} {level : Level}
    {occurrence : Option Xml.Element} (path : String)
    (henter : context.enter deeper definition occurrence.isSome =
      .ok (context.inside definition, level)) :
    complexContent deeper context definition path occurrence =
      (buildItems level (context.insideType definition) definition path occurrence
        (.start occurrence)).map fun (children, after) =>
          ⟨(contentValue definition after occurrence).1, children,
            (contentValue definition after occurrence).2⟩ := by
  simp only [complexContent, henter, Context.insideType]
  cases buildItems level { context.inside definition with repeated := false } definition path
    occurrence (.start occurrence) <;> rfl

theorem complexContent_cutOff (context : Context) (definition : Xml.Element) (path : String)
    (occurrence : Option Xml.Element) :
    CutOff limit (complexContent deeper (context.limited limit) definition path occurrence)
      (complexContent others (context.limited larger) definition path occurrence) := by
  rcases enter_cutOff hdeeper context definition occurrence.isSome with
    hlimit | ⟨fault, hfault, hother⟩ | ⟨level, other, hcut, henter, hother⟩
  · rw [complexContent_of_error path hlimit]
    exact .inl rfl
  · rw [complexContent_of_error path hfault, complexContent_of_error path hother]
    exact .inr rfl
  · rw [complexContent_of_enter path henter, complexContent_of_enter path hother]
    have hitems : (buildItems level ((context.insideType definition).limited limit) definition
        path occurrence).CutOff limit (buildItems other
          ((context.insideType definition).limited larger) definition path occurrence) :=
      .all fun item _ => buildItem_cutOff hcut _ item path occurrence
    exact (hitems (.start occurrence)).map _

theorem elementContent_cutOff (context : Context) (declaration : Declaration) (path : String)
    (occurrence : Option Xml.Element) :
    CutOff limit (elementContent deeper (context.limited limit) declaration path occurrence)
      (elementContent others (context.limited larger) declaration path occurrence) := by
  unfold elementContent
  cases declaration.content with
  | simple => exact .inr rfl
  | complex definition => exact complexContent_cutOff hdeeper context definition path occurrence

theorem buildOccurrence_cutOff (context : Context) (declaration : Declaration) (bounds : Bounds)
    (path : String) (occurrence : Option Xml.Element) :
    (buildOccurrence deeper (context.limited limit) declaration bounds path occurrence).CutOff
      limit (buildOccurrence others (context.limited larger) declaration bounds path
        occurrence) := by
  intro state
  rcases elementContent_cutOff hdeeper context declaration
    (placePath path declaration.name (state.nextPlace declaration.name)) occurrence with
    hfails | hsame
  · obtain ⟨failure, hcontent, hfault⟩ := faultOf_eq_some.mp hfails
    exact .inl (by simp only [buildOccurrence, hcontent, faultOf, Diagnostic.fault_located, hfault])
  · exact .inr (by simp only [buildOccurrence, hsame])

theorem buildElement_cutOff (context : Context) (node : Xml.Element) (bounds : Bounds)
    (atLeast : Nat) (path : String) :
    (buildElement deeper (context.limited limit) node bounds atLeast path).CutOff limit
      (buildElement others (context.limited larger) node bounds atLeast path) := by
  have hdeclared : Declaration.ofParticle (context.limited larger).schema
      (context.limited larger).settings node =
        Declaration.ofParticle (context.limited limit).schema (context.limited limit).settings
          node := rfl
  unfold buildElement
  rw [hdeclared]
  split
  · exact .refl limit _
  rename_i declaration _
  have hcopies := fun count =>
    (buildOccurrence_cutOff hdeeper context declaration bounds path none).replicate count
  intro state
  simp only [buildDeclared]
  split
  · exact hcopies _ state
  · refine Build.CutOff.andThen (.all fun occurrence _ => ?_) (hcopies _) _
    exact (buildOccurrence_cutOff hdeeper context declaration bounds path _).mapForms _

/-! ### Groups -/

omit hdeeper in
theorem buildMembers_cutOff {level other : Level} (hcut : level.CutOff limit larger other)
    (context : Context) (compositor : Compositor) (members : List Particle) (path : String) :
    (buildMembers level (context.limited limit) compositor members path).CutOff limit
      (buildMembers other (context.limited larger) compositor members path) := by
  cases compositor with
  | sequence => exact .all fun member _ => hcut.particle context 0 member path
  | choice =>
      intro state
      refine Build.CutOff.ofFault _ (fun matched => ?_) state
      refine .all fun alternative _ => ?_
      have halternative := hcut.particle context 1 alternative.1 path
      refine Build.CutOff.mapForms ?_ _
      split
      · exact halternative
      · exact halternative.withoutInstance

theorem buildGroup_cutOff (context : Context) (compositor : Compositor) (node : Xml.Element)
    (bounds : Bounds) (path : String) :
    (buildGroup deeper (context.limited limit) compositor node bounds path).CutOff limit
      (buildGroup others (context.limited larger) compositor node bounds path) := by
  intro state
  refine Build.CutOff.ofEnter hdeeper context node state.cursor.isSome
    (fun level other hcut => ?_) state
  refine .ofFault _ fun members => ?_
  have hone := (buildMembers_cutOff hcut (context.insideGroup node bounds) compositor members
    path).grouped compositor node bounds path
  exact hone.instantiate (context.inside node) _ compositor bounds

theorem buildParticle_cutOff (context : Context) (atLeast : Nat) (particle : Particle)
    (path : String) :
    (buildParticle deeper (context.limited limit) atLeast particle path).CutOff limit
      (buildParticle others (context.limited larger) atLeast particle path) := by
  cases particle with
  | element node bounds => exact buildElement_cutOff hdeeper context node bounds atLeast path
  | group compositor node bounds =>
      exact buildGroup_cutOff hdeeper context compositor node bounds path
  | attributeUse node => exact fun state => .inr rfl

end

theorem levelBelow_cutOff {limit larger depth other : Nat} (hle : depth ≤ other) :
    ∀ level ∈ levelBelow depth, ∃ above ∈ levelBelow other, level.CutOff limit larger above := by
  induction depth generalizing other with
  | zero => simp
  | succ depth ih =>
      obtain ⟨other, rfl⟩ : ∃ left, other = left + 1 := ⟨other - 1, by omega⟩
      have hbelow := ih (Nat.le_of_succ_le_succ hle)
      intro level hlevel
      rw [levelBelow_succ, Option.mem_some_iff] at hlevel
      subst hlevel
      exact ⟨_, levelBelow_succ other, buildParticle_cutOff hbelow,
        buildAttributeEntry_cutOff hbelow⟩

theorem buildAtTop_cutOff {limit larger : Nat} (hle : limit ≤ larger) (schema : Schema)
    (settings : Settings) (atLeast : Nat) (particle : Particle) (path : String)
    (parent : Option Xml.Element) :
    CutOff limit
      (buildAtTop schema { settings with maxDepth := limit } atLeast particle path parent)
      (buildAtTop schema { settings with maxDepth := larger } atLeast particle path parent) :=
  buildParticle_cutOff (levelBelow_cutOff hle) (.start schema settings) atLeast particle path
    (.start parent)

/-! ## Definitions on the way down -/

def FormLabel.entersDefinition (schema : Schema) (label : FormLabel) : Bool :=
  match label.kind with
  | .sequence => true
  | .choice => true
  | .attributeUse => false
  | .element =>
      match Declaration.contentType schema label.origin with
      | .ok (.complex _) => true
      | _ => false

namespace Form

inductive Descent : Form → List FormLabel → Prop
  | stop (form : Form) : Descent form [form.label]
  | step {form child : Form} {chain : List FormLabel} :
      child ∈ form.children → Descent child chain → Descent form (form.label :: chain)

/-- On every way down, at most so many definitions are entered. -/
def NestsWithin (schema : Schema) (limit : Nat) (form : Form) : Prop :=
  ∀ chain, form.Descent chain → chain.countP (·.entersDefinition schema) ≤ limit

section

variable {schema : Schema} {levels : Nat} {form : Form} {label : FormLabel}
  {children : List Form}

theorem NestsWithin.enter (h : ∀ child ∈ children, child.NestsWithin schema levels) :
    (node label children).NestsWithin schema (levels + 1) := by
  intro chain hchain
  cases hchain with
  | stop => exact List.countP_le_length.trans (Nat.le_add_left 1 levels)
  | step hchild hrest =>
      have hbelow := h _ hchild _ hrest
      rw [List.countP_cons]
      split <;> omega

theorem NestsWithin.of_leaf (hlabel : label.entersDefinition schema = false) (levels : Nat) :
    (node label []).NestsWithin schema levels := by
  intro chain hchain
  cases hchain with
  | stop =>
      have hnone : [label].countP (·.entersDefinition schema) = 0 := by simp [hlabel]
      exact hnone.le.trans (Nat.zero_le levels)
  | step hchild => cases hchild

theorem NestsWithin.mapOptions (h : form.NestsWithin schema levels)
    (change : Options → Options) : (form.mapOptions change).NestsWithin schema levels := by
  obtain ⟨label, children⟩ := form
  intro chain hchain
  cases hchain with
  | stop => exact h [label] (.stop _)
  | @step _ child rest hchild hrest => exact h (label :: rest) (.step hchild hrest)

theorem NestsWithin.remarkWith (h : form.NestsWithin schema levels) (error : Option Mismatch) :
    (remarkWith error form).NestsWithin schema levels := by
  cases error with
  | none => exact h
  | some error => exact h.mapOptions (·.remark error.message)

theorem IsAttribute.nestsWithin (h : form.IsAttribute) (schema : Schema) (levels : Nat) :
    form.NestsWithin schema levels := by
  obtain ⟨label, children⟩ := form
  obtain rfl : children = [] := h.children
  have hkind : label.kind = .attributeUse := h.kind
  exact .of_leaf (by simp only [FormLabel.entersDefinition, hkind]) levels

end

end Form

def NestedWithin (schema : Schema) (levels : Nat) (_ : BuildState) (forms : List Form)
    (_ : BuildState) : Prop :=
  ∀ form ∈ forms, form.NestsWithin schema levels

theorem nestedWithin_invariant (schema : Schema) (levels : Nat) :
    Build.Invariant (NestedWithin schema levels) :=
  Build.each_invariant fun _ h change => h.mapOptions change

theorem AttributesOnly.nestedWithin {state after : BuildState} {forms : List Form}
    (h : AttributesOnly state forms after) (schema : Schema) (levels : Nat) :
    NestedWithin schema levels state forms after :=
  fun form hform => (h.2 form hform).nestsWithin schema levels

structure Level.NestsWithin (schema : Schema) (levels : Nat) (level : Level) : Prop where
  particle : ∀ (context : Context) (atLeast : Nat) (particle : Particle) (path : String),
    context.schema = schema →
      (level.particle context atLeast particle path).Ensures (NestedWithin schema levels)
  attributesOnly : level.AttributesOnly

section

variable {schema : Schema} {levels : Nat} {deeper : Option Level} {context : Context}
  {path : String} (hschema : context.schema = schema)
  (hdeeper : ∀ level ∈ deeper, ∃ left, levels = left + 1 ∧ level.NestsWithin schema left)
include hschema hdeeper

theorem CompiledFrom.nestsWithin {node : Xml.Element} {declaration : Declaration}
    (hdeclaration : Declaration.ofParticle context.schema context.settings node = .ok declaration)
    {bounds : Bounds} {error : Option Mismatch} {occurrence : Option Xml.Element} {form : Form}
    (h : CompiledFrom deeper context declaration bounds error occurrence form) :
    form.NestsWithin schema levels := by
  obtain ⟨place, content, hcontent, rfl⟩ := h
  refine Form.NestsWithin.remarkWith (Form.NestsWithin.remarkWith ?_ _) _
  have htype := (Declaration.ofParticle_eq_ok hdeclaration).2.2.1
  rw [hschema] at htype
  rcases elementContent_eq_ok.mp hcontent with ⟨hsimple, rfl⟩ |
    ⟨definition, level, children, after, -, hlevel, -, hitems, rfl⟩
  · rw [hsimple] at htype
    rw [simpleContent_children]
    exact .of_leaf (by simp only [FormLabel.entersDefinition, htype]) levels
  · obtain ⟨left, rfl, hnests⟩ := hdeeper level hlevel
    refine .enter fun child hchild => ?_
    have hbuild : (buildItems level (context.insideType definition) definition place
        occurrence).Ensures (NestedWithin schema left) := by
      have hadditive := (nestedWithin_invariant schema left).toAdditive
      refine Build.Ensures.all hadditive fun build hbuild => ?_
      obtain ⟨item, -, rfl⟩ := List.mem_map.mp hbuild
      refine hadditive.item (fun particle _ => hnests.particle _ _ _ _ hschema) fun entry _ => ?_
      exact fun state forms after hrun =>
        (hnests.attributesOnly _ _ _ _ _ _ _ hrun).nestedWithin schema left
    exact hbuild _ _ _ hitems child hchild

theorem buildParticle_nestedWithin (atLeast : Nat) (particle : Particle) :
    (buildParticle deeper context atLeast particle path).Ensures (NestedWithin schema levels) := by
  cases particle with
  | element node bounds =>
      intro state forms after hrun form hform
      obtain ⟨declaration, hdeclaration, hbuild⟩ := buildElement_eq_ok.mp hrun
      obtain ⟨error, occurrence, hfrom⟩ := compiledFrom_of_buildDeclared hbuild form hform
      exact hfrom.nestsWithin hschema hdeeper hdeclaration
  | group compositor node bounds =>
      intro state forms after hrun
      obtain ⟨level, members, hlevel, -, -, hinstantiate⟩ := buildGroup_eq_ok.mp hrun
      obtain ⟨left, rfl, hnests⟩ := hdeeper level hlevel
      refine (nestedWithin_invariant schema (left + 1)).instantiate
        (fun state forms after hone => ?_) _ _ _ _ _ _ _ hinstantiate
      obtain ⟨children, last, hchildren, rfl, rfl⟩ := Build.grouped_eq_ok.mp hone
      have hmembers := (nestedWithin_invariant schema left).buildMembers
        (fun member _ atLeast => hnests.particle (context.insideGroup node bounds) atLeast member
          path hschema) compositor _ _ _ hchildren
      intro form hform
      rw [List.mem_singleton] at hform
      rw [hform]
      exact .enter hmembers
  | attributeUse node =>
      exact fun state forms after hrun =>
        (buildAttribute_attributesOnly _ _ _ _ _ _ _ hrun).nestedWithin schema levels

end

theorem levelBelow_nestsWithin (schema : Schema) (depth : Nat) :
    ∀ level ∈ levelBelow depth, ∃ left, depth = left + 1 ∧ level.NestsWithin schema left := by
  induction depth with
  | zero => simp
  | succ depth ih =>
      intro level hlevel
      have hattributes := levelBelow_attributesOnly (depth + 1) level hlevel
      rw [levelBelow_succ, Option.mem_some_iff] at hlevel
      subst hlevel
      exact ⟨depth, rfl, fun context atLeast particle path hschema =>
        buildParticle_nestedWithin hschema ih atLeast particle, hattributes⟩

theorem buildAtTop_nestedWithin {schema : Schema} {settings : Settings} {atLeast : Nat}
    {particle : Particle} {path : String} {parent : Option Xml.Element} {forms : List Form}
    {after : BuildState}
    (hrun : buildAtTop schema settings atLeast particle path parent = .ok (forms, after)) :
    ∀ form ∈ forms, form.NestsWithin schema settings.maxDepth := by
  have hnested : (buildParticle (levelBelow settings.maxDepth) (.start schema settings) atLeast
      particle path).Ensures (NestedWithin schema settings.maxDepth) :=
    buildParticle_nestedWithin rfl (levelBelow_nestsWithin schema settings.maxDepth) _ _
  exact hnested _ _ _ hrun

/-! ## Requests -/

section

variable {limit larger : Nat} (hle : limit ≤ larger) (schema : Schema) (settings : Settings)
include hle

theorem compileForm_cutOff (name : Option String) (document : Option Xml.Document) :
    CutOff limit (compileForm schema { settings with maxDepth := limit } name document)
      (compileForm schema { settings with maxDepth := larger } name document) := by
  simp only [compileForm]
  split
  · exact .inr rfl
  rename_i element _
  rcases buildAtTop_cutOff hle schema settings 1 (.element element .single) ""
    (document.map Xml.Document.holder) with hfails | hsame
  · obtain ⟨failure, hrun, hfault⟩ := faultOf_eq_some.mp hfails
    rw [hrun]
    exact .inl (congrArg some hfault)
  · rw [hsame]
    exact .inr rfl

theorem compileParticle_cutOff (tag : String) (node : Xml.Element) (path : String)
    (parent : Option Xml.Element) :
    CutOff limit (compileParticle schema { settings with maxDepth := limit } tag node path parent)
      (compileParticle schema { settings with maxDepth := larger } tag node path parent) := by
  simp only [compileParticle]
  split
  · split
    · exact .inr rfl
    · exact .inr rfl
    · exact (buildAtTop_cutOff hle schema settings 0 _ path parent).map _
  · exact .inr rfl

end

theorem compileForm_nestsWithin {schema : Schema} {settings : Settings} {name : Option String}
    {document : Option Xml.Document} {forms : RootForms}
    (hforms : compileForm schema settings name document = .ok forms) :
    ∀ form ∈ forms.root :: forms.surplus, form.NestsWithin schema settings.maxDepth := by
  obtain ⟨element, root, after, -, hbuild, hroot⟩ := compileForm_eq_ok hforms
  have hrun : buildAtTop schema settings 1 (.element element .single) ""
      (document.map Xml.Document.holder) = .ok (root :: forms.surplus, after) := hbuild
  have hall := buildAtTop_nestedWithin hrun
  rw [List.forall_mem_cons] at hall ⊢
  exact ⟨hroot ▸ hall.1.remarkWith _, hall.2⟩

theorem compileParticle_nestsWithin {schema : Schema} {settings : Settings} {tag path : String}
    {node : Xml.Element} {parent : Option Xml.Element} {forms : List Form}
    (hforms : compileParticle schema settings tag node path parent = .ok forms) :
    ∀ form ∈ forms, form.NestsWithin schema settings.maxDepth := by
  obtain ⟨particle, after, -, hrun⟩ := compileParticle_eq_ok hforms
  exact buildAtTop_nestedWithin hrun

/-- A request that is answered under some depth limit ends with an error about this limit,
or in the same way as under any larger one. No way down from the top of a form that was
compiled leads through more sequences, choices and elements with complex types than the
limit. -/
theorem Request.compile_under_limit {limit larger : Nat} (hle : limit ≤ larger)
    (schema : Schema) (settings : Settings) (request : Request) :
    CutOff limit (request.compile schema { settings with maxDepth := limit })
      (request.compile schema { settings with maxDepth := larger }) ∧
    ∀ compiled, request.compile schema { settings with maxDepth := limit } = .ok compiled →
      ∀ form ∈ compiled.answer ++ compiled.surplus, form.NestsWithin schema limit := by
  cases request with
  | root name document =>
      refine ⟨(compileForm_cutOff hle schema settings name document).map _, ?_⟩
      intro compiled hcompiled
      obtain ⟨forms, hforms, rfl⟩ := map_eq_ok.mp hcompiled
      exact compileForm_nestsWithin hforms
  | particle tag node path parent =>
      refine ⟨(compileParticle_cutOff hle schema settings tag node path parent).map _, ?_⟩
      intro compiled hcompiled
      obtain ⟨forms, hforms, rfl⟩ := map_eq_ok.mp hcompiled
      rw [List.append_nil]
      exact compileParticle_nestsWithin hforms

theorem nestedNodes_under_limit :
    6 ≤ 64 ∧ ∃ compiled,
      (Request.root none (some nestedNodes)).compile (Schema.given nodeDocument)
          { Settings.default with maxDepth := 6 } = .ok compiled ∧
        (Request.root none (some nestedNodes)).compile (Schema.given nodeDocument)
          { Settings.default with maxDepth := 64 } = .ok compiled ∧
        ∀ form ∈ compiled.answer ++ compiled.surplus,
          form.NestsWithin (Schema.given nodeDocument) 6 := by
  have hlimits : 6 ≤ 64 := by decide
  obtain ⟨compiled, hcompiled⟩ : ∃ compiled, (Request.root none (some nestedNodes)).compile
      (Schema.given nodeDocument) { Settings.default with maxDepth := 6 } = .ok compiled :=
    exists_of_isOk (by decide +kernel)
  obtain ⟨hcut, hnests⟩ := Request.compile_under_limit hlimits (Schema.given nodeDocument)
    Settings.default (.root none (some nestedNodes))
  rw [hcompiled] at hcut
  rcases hcut with hfails | hsame
  · cases hfails
  · exact ⟨hlimits, compiled, hcompiled, hsame.symm, hnests compiled hcompiled⟩

end SchemaForms
