import SchemaForms.Proofs.ContentModels
import SchemaForms.Proofs.Invariants
import SchemaForms.Proofs.Paths

/-!
# Selected alternatives

The children of a choice are marked: those of the selected alternative, and then the
others. The alternative that the instance selects is the first one that the next element
can begin, and it alone is compiled from the instance. No other node is marked.
-/

namespace SchemaForms

/-! ## The search for an alternative -/

def Particle.begins (schema : Schema) (next : Option Xml.Element) (particle : Particle) : Bool :=
  next.any fun element => (firstNames schema particle).toOption.any (·.contains element.name)

theorem Particle.begins_eq_true {schema : Schema} {next : Option Xml.Element}
    {particle : Particle} {names : List String}
    (hnames : firstNames schema particle = .ok names) :
    particle.begins schema next = true ↔
      ∃ element ∈ next, particle.Names schema element.name := by
  cases next with
  | none => simp [begins]
  | some element => simp [begins, hnames, Except.toOption, mem_firstNames hnames]

theorem firstBeginning_eq_findIdx? {schema : Schema} {element : Xml.Element}
    {alternatives : List Particle} {matched : Option Nat}
    (h : firstBeginning schema element.name alternatives = .ok matched) :
    matched = alternatives.findIdx? (·.begins schema (some element)) := by
  induction alternatives generalizing matched with
  | nil =>
      cases h
      rfl
  | cons alternative rest ih =>
      obtain ⟨names, hnames, h⟩ := bind_eq_ok.mp h
      have hbegins : alternative.begins schema (some element) = names.contains element.name := by
        rw [Particle.begins, hnames]
        rfl
      rw [List.findIdx?_cons, hbegins]
      split at h
      · rename_i hcontains
        cases h
        rw [if_pos hcontains]
      · rename_i hcontains
        obtain ⟨found, hfound, h⟩ := bind_eq_ok.mp h
        cases h
        rw [if_neg hcontains, ih hfound]

theorem alternativeFor_eq_findIdx? {schema : Schema} {alternatives : List Particle}
    {next : Option Xml.Element} {matched : Option Nat}
    (h : alternativeFor schema alternatives next = .ok matched) :
    matched = alternatives.findIdx? (·.begins schema next) := by
  cases next with
  | none =>
      cases h
      exact (List.findIdx?_eq_none_iff.mpr fun _ _ => rfl).symm
  | some element => exact firstBeginning_eq_findIdx? h

/-! ## One instantiation of a choice -/

/-- The alternatives from `index` on, compiled one after the other: the matched one over the
instance, and any other as without one. -/
inductive AlternativesRun (level : Level) (context : Context) (path : String)
    (matched : Option Nat) :
    Nat → List Particle → BuildState → List (List Form) → BuildState → Prop
  | nil {index : Nat} {state : BuildState} :
      AlternativesRun level context path matched index [] state [] state
  | overInstance {index : Nat} {alternative : Particle} {rest : List Particle}
      {state middle after : BuildState} {made : List Form} {parts : List (List Form)} :
      matched = some index →
      level.particle context 1 alternative path state = .ok (made, middle) →
      AlternativesRun level context path matched (index + 1) rest middle parts after →
      AlternativesRun level context path matched index (alternative :: rest) state
        (made :: parts) after
  | fresh {index : Nat} {alternative : Particle} {rest : List Particle}
      {state last after : BuildState} {made : List Form} {parts : List (List Form)} :
      matched ≠ some index →
      level.particle context 1 alternative path { state with cursor := none } =
        .ok (made, last) →
      AlternativesRun level context path matched (index + 1) rest
        { last with cursor := state.cursor } parts after →
      AlternativesRun level context path matched index (alternative :: rest) state
        (made :: parts) after

def markedForms (selected : Option Nat) (index : Nat) (parts : List (List Form)) : List Form :=
  (parts.zipIdx index).flatMap fun part =>
    part.1.map (·.insertOption OptionKey.selected (.bool (decide (selected = some part.2))))

/-- One instantiation of a choice. The matched alternative is the first that the next
element can begin. It is selected, or else the one that the settings tell. -/
structure ChosenFrom (level : Level) (context : Context) (path : String)
    (alternatives : List Particle) (state : BuildState) (children : List Form)
    (after : BuildState) (matched selected : Option Nat) (parts : List (List Form)) : Prop where
  first : matched = alternatives.findIdx? (·.begins context.schema state.next?)
  compiled : AlternativesRun level context path matched 0 alternatives state parts after
  children : children = markedForms selected 0 parts
  ofMatched : ∀ index, matched = some index → selected = some index
  ofFirst : matched = none → context.settings.defaultChoice = .first → alternatives ≠ [] →
    selected = some 0
  ofNone : matched = none → context.settings.defaultChoice = .none → selected = none

theorem buildAlternatives_eq_ok {level : Level} {context : Context} {path : String}
    {matched selected : Option Nat} {alternatives : List Particle} {index : Nat}
    {state after : BuildState} {forms : List Form}
    (hrun : Build.all ((alternatives.zipIdx index).map fun numbered =>
      buildAlternative level context path matched selected numbered.1 numbered.2) state =
        .ok (forms, after)) :
    ∃ parts, AlternativesRun level context path matched index alternatives state parts after ∧
      forms = markedForms selected index parts := by
  induction alternatives generalizing index state forms with
  | nil =>
      obtain ⟨rfl, rfl⟩ := Build.nothing_eq_ok.mp hrun
      exact ⟨[], .nil, rfl⟩
  | cons alternative rest ih =>
      obtain ⟨marked, middle, others, hmarked, hothers, rfl⟩ := Build.andThen_eq_ok.mp hrun
      obtain ⟨parts, hparts, rfl⟩ := ih hothers
      obtain ⟨made, rfl, ⟨hindex, hmade⟩ | ⟨hindex, last, hmade, rfl⟩⟩ :=
        buildAlternative_eq_ok.mp hmarked
      · exact ⟨made :: parts, .overInstance hindex hmade hparts, rfl⟩
      · exact ⟨made :: parts, .fresh hindex hmade hparts, rfl⟩

theorem buildChoice_eq_ok {level : Level} {context : Context} {path : String}
    {alternatives : List Particle} {state after : BuildState} {children : List Form}
    (hrun : buildChoice level context alternatives path state = .ok (children, after)) :
    ∃ matched selected parts,
      ChosenFrom level context path alternatives state children after matched selected parts := by
  obtain ⟨matched, hmatched, hrun⟩ := Build.ofFault_eq_ok.mp hrun
  obtain ⟨parts, hparts, rfl⟩ := buildAlternatives_eq_ok hrun
  refine ⟨matched, selectedIndex context.settings alternatives matched, parts,
    alternativeFor_eq_findIdx? hmatched, hparts, rfl, ?_, ?_, ?_⟩
  · rintro index rfl
    rfl
  · rintro rfl hfirst halternatives
    simp [selectedIndex, hfirst, halternatives]
  · rintro rfl hnone
    simp [selectedIndex, hnone]

/-! ## Marks -/

namespace Form

def IsMarked (form : Form) : Prop :=
  (form.label.options.get? OptionKey.selected).isSome = true

structure ChildrenMarked (schema : Schema) (settings : Settings) (node : Form) : Prop where
  marked : ∀ child ∈ node.children, child.IsMarked ↔ node.label.kind = .choice
  chosen : node.label.kind = .choice →
    ∃ depth level context path alternatives state after matched selected parts,
      level ∈ levelBelow depth ∧ context.schema = schema ∧ context.settings = settings ∧
      Particle.members schema node.label.origin = .ok alternatives ∧
      ChosenFrom level context path alternatives state node.children after matched selected
        parts

/-- The form is not marked, and in it the children of choices are, and no other nodes. -/
structure MarksChoices (schema : Schema) (settings : Settings) (form : Form) : Prop where
  unmarked : ¬form.IsMarked
  children : ∀ node ∈ form.nodes, node.ChildrenMarked schema settings

variable {schema : Schema} {settings : Settings} {form : Form}

theorem isMarked_insertOption (form : Form) (value : Scalar) :
    (form.insertOption OptionKey.selected value).IsMarked := by
  simp [IsMarked, insertOption]

theorem childrenMarked_nodes_mapOptions
    (h : ∀ node ∈ form.nodes, node.ChildrenMarked schema settings) (change : Options → Options) :
    ∀ node ∈ (form.mapOptions change).nodes, node.ChildrenMarked schema settings := by
  obtain ⟨label, children⟩ := form
  simp only [mapOptions, mapLabel, nodes, List.forall_mem_cons] at h ⊢
  exact ⟨⟨h.1.marked, h.1.chosen⟩, h.2⟩

theorem MarksChoices.remarkWith (h : form.MarksChoices schema settings)
    (error : Option Mismatch) : (remarkWith error form).MarksChoices schema settings := by
  cases error with
  | none => exact h
  | some error =>
      refine ⟨?_, childrenMarked_nodes_mapOptions h.children (·.remark error.message)⟩
      rw [SchemaForms.remarkWith, remark, IsMarked, label_mapOptions,
        Options.get?_remark _ _ (by decide)]
      exact h.unmarked

theorem MarksChoices.of_childrenMarked {label : FormLabel} {children : List Form}
    (hlabel : label.options.get? OptionKey.selected = none)
    (hnode : (node label children).ChildrenMarked schema settings)
    (hbelow : ∀ child ∈ children, ∀ inner ∈ child.nodes, inner.ChildrenMarked schema settings) :
    (node label children).MarksChoices schema settings := by
  refine ⟨by simp [IsMarked, Form.label, hlabel], ?_⟩
  simp only [nodes, nodesOf_eq_flatMap, List.forall_mem_cons, List.mem_flatMap,
    forall_exists_index, and_imp]
  exact ⟨hnode, fun inner child hchild => hbelow child hchild inner⟩

theorem MarksChoices.node {label : FormLabel} {children : List Form}
    (hlabel : label.options.get? OptionKey.selected = none) (hkind : label.kind ≠ .choice)
    (hchildren : ∀ child ∈ children, child.MarksChoices schema settings) :
    (node label children).MarksChoices schema settings := by
  refine .of_childrenMarked hlabel ⟨fun child hchild => ?_, fun hchoice => (hkind hchoice).elim⟩
    fun child hchild => (hchildren child hchild).children
  exact iff_of_false (hchildren child hchild).unmarked hkind

end Form

/-! ## What a compilation marks -/

theorem get?_withOption (options : Options) {key other : String} (h : other ≠ key)
    (value : Option String) : (withOption options key value).get? other = options.get? other := by
  cases value with
  | none => rfl
  | some value => exact Text.Dictionary.get?_insert_of_ne _ h _

theorem selected_boundsOptions (bounds : Bounds) :
    (boundsOptions bounds).get? OptionKey.selected = none := by
  simp [boundsOptions, OptionKey.selected, OptionKey.min, OptionKey.max]

theorem selected_declaration_options (declaration : Declaration) (bounds : Bounds) :
    (declaration.options bounds).get? OptionKey.selected = none := by
  rw [Declaration.options, get?_withOption _ (by decide), get?_withOption _ (by decide),
    selected_boundsOptions]

theorem selected_attributeOptions (use declaration : Xml.Element) :
    (attributeOptions use declaration).get? OptionKey.selected = none := by
  simp only [attributeOptions]
  split <;> simp [OptionKey.selected, OptionKey.use, OptionKey.type]

theorem marked_of_mem_markedForms {parts : List (List Form)} {schema : Schema}
    {settings : Settings}
    (hparts : ∀ part ∈ parts, ∀ form ∈ part, form.MarksChoices schema settings)
    (selected : Option Nat) (index : Nat) :
    ∀ form ∈ markedForms selected index parts,
      form.IsMarked ∧ ∀ node ∈ form.nodes, node.ChildrenMarked schema settings := by
  intro form hform
  obtain ⟨⟨part, number⟩, hpart, hform⟩ := List.mem_flatMap.mp hform
  obtain ⟨made, hmade, rfl⟩ := List.mem_map.mp hform
  have hbelow := (hparts part (List.fst_mem_of_mem_zipIdx hpart) made hmade).children
  exact ⟨made.isMarked_insertOption _, Form.childrenMarked_nodes_mapOptions hbelow _⟩

structure Level.MarksChoices (schema : Schema) (settings : Settings) (level : Level) : Prop where
  particle : ∀ (context : Context) (atLeast : Nat) (particle : Particle) (path : String),
    context.schema = schema → context.settings = settings →
      (level.particle context atLeast particle path).Ensures
        (Build.Each (·.MarksChoices schema settings))
  entry : ∀ context entry path occurrence,
    (level.attributeEntry context entry path occurrence).Ensures
      (Build.Each (·.MarksChoices schema settings))

section

variable {schema : Schema} {settings : Settings} {context : Context} {path : String}

theorem buildAttribute_marksChoices (use : Xml.Element) (occurrence : Option Xml.Element) :
    (buildAttribute context use path occurrence).Ensures
      (Build.Each (·.MarksChoices schema settings)) := by
  refine (Build.each_additive _).attribute fun state declaration name _ form hform => ?_
  rw [List.mem_singleton] at hform
  rw [hform]
  exact .node (selected_attributeOptions use declaration) (by simp) (by simp)

theorem AlternativesRun.marksChoices {level : Level} (hlevel : level.MarksChoices schema settings)
    (hschema : context.schema = schema) (hsettings : context.settings = settings)
    {matched : Option Nat} {index : Nat} {alternatives : List Particle}
    {state after : BuildState} {parts : List (List Form)}
    (h : AlternativesRun level context path matched index alternatives state parts after) :
    ∀ part ∈ parts, ∀ form ∈ part, form.MarksChoices schema settings := by
  induction h with
  | nil => simp
  | overInstance _ hmade _ ih =>
      exact List.forall_mem_cons.mpr
        ⟨hlevel.particle _ _ _ _ hschema hsettings _ _ _ hmade, ih⟩
  | fresh _ hmade _ ih =>
      exact List.forall_mem_cons.mpr
        ⟨hlevel.particle _ _ _ _ hschema hsettings _ _ _ hmade, ih⟩

variable {depth : Nat}
  (hdeeper : ∀ level ∈ levelBelow depth, level.MarksChoices schema settings)
  (hschema : context.schema = schema) (hsettings : context.settings = settings)
include hdeeper hschema hsettings

theorem CompiledFrom.marksChoices {declaration : Declaration} {bounds : Bounds}
    {error : Option Mismatch} {occurrence : Option Xml.Element} {form : Form}
    (h : CompiledFrom (levelBelow depth) context declaration bounds error occurrence form) :
    form.MarksChoices schema settings := by
  obtain ⟨place, content, hcontent, rfl⟩ := h
  refine Form.MarksChoices.remarkWith (Form.MarksChoices.remarkWith ?_ _) _
  refine .node (selected_declaration_options declaration bounds) (by simp) ?_
  rcases elementContent_eq_ok.mp hcontent with ⟨-, rfl⟩ |
    ⟨definition, level, children, after, -, hlevel, -, hitems, rfl⟩
  · simp [simpleContent_children]
  · have hbuild : (buildItems level (context.insideType definition) definition place
        occurrence).Ensures (Build.Each (·.MarksChoices schema settings)) := by
      refine Build.Ensures.all (Build.each_additive _) fun build hbuild => ?_
      obtain ⟨item, -, rfl⟩ := List.mem_map.mp hbuild
      exact (Build.each_additive _).item
        (fun particle _ => (hdeeper level hlevel).particle _ _ _ _ hschema hsettings)
        fun entry _ => (hdeeper level hlevel).entry _ _ _ _
    exact hbuild _ _ _ hitems

theorem oneInstantiation_marksChoices {level : Level} (hlevel : level ∈ levelBelow depth)
    {node : Xml.Element} {members : List Particle}
    (hmembers : Particle.members context.schema node = .ok members)
    (compositor : Compositor) (bounds : Bounds) (path : String) :
    (oneInstantiation level context compositor members node bounds path).Ensures
      (Build.Each (·.MarksChoices schema settings)) := by
  intro state forms after hrun
  obtain ⟨children, last, hchildren, rfl, rfl⟩ := Build.grouped_eq_ok.mp hrun
  intro form hform
  rw [List.mem_singleton] at hform
  subst hform
  cases compositor with
  | sequence =>
      refine .node (selected_boundsOptions bounds) (by simp [Compositor.kind]) ?_
      have hbuild : (buildSequence level (context.insideGroup node bounds) members path).Ensures
          (Build.Each (·.MarksChoices schema settings)) := by
        refine Build.Ensures.all (Build.each_additive _) fun build hbuild => ?_
        obtain ⟨member, -, rfl⟩ := List.mem_map.mp hbuild
        exact (hdeeper level hlevel).particle _ _ _ _ hschema hsettings
      exact hbuild _ _ _ hchildren
  | choice =>
      obtain ⟨matched, selected, parts, hchosen⟩ := buildChoice_eq_ok hchildren
      have hinner : (context.insideGroup node bounds).schema = schema := hschema
      have hparts := hchosen.compiled.marksChoices (hdeeper level hlevel) hinner hsettings
      have hmarked := marked_of_mem_markedForms hparts selected 0
      rw [← hchosen.children] at hmarked
      refine .of_childrenMarked (selected_boundsOptions bounds)
        ⟨fun child hchild => iff_of_true (hmarked child hchild).1 rfl, fun _ => ?_⟩
        fun child hchild => (hmarked child hchild).2
      exact ⟨depth, level, context.insideGroup node bounds, path, members, state, last, matched,
        selected, parts, hlevel, hschema, hsettings, hschema ▸ hmembers, hchosen⟩

theorem buildParticle_marksChoices (atLeast : Nat) (particle : Particle) :
    (buildParticle (levelBelow depth) context atLeast particle path).Ensures
      (Build.Each (·.MarksChoices schema settings)) := by
  cases particle with
  | element node bounds =>
      intro state forms after hrun form hform
      obtain ⟨declaration, -, hbuild⟩ := buildElement_eq_ok.mp hrun
      obtain ⟨error, occurrence, hfrom⟩ := compiledFrom_of_buildDeclared hbuild form hform
      exact hfrom.marksChoices hdeeper hschema hsettings
  | group compositor node bounds =>
      intro state forms after hrun
      obtain ⟨level, members, hlevel, -, hmembers, hinstantiate⟩ := buildGroup_eq_ok.mp hrun
      have hone := oneInstantiation_marksChoices hdeeper hschema hsettings hlevel hmembers
        compositor bounds path
      refine hone.instantiate (Build.each_additive _) (fun error => ?_) _ _ _ _ _ _ _ hinstantiate
      intro state forms after hremarked form hform
      obtain ⟨made, hmade, rfl⟩ := Build.mapForms_eq_ok.mp hremarked
      obtain ⟨single, hsingle, rfl⟩ := List.mem_map.mp hform
      exact (hone _ _ _ hmade single hsingle).remarkWith error
  | attributeUse node =>
      exact fun state => buildAttribute_marksChoices node _ state

end

theorem levelBelow_marksChoices (schema : Schema) (settings : Settings) (depth : Nat) :
    ∀ level ∈ levelBelow depth, level.MarksChoices schema settings := by
  induction depth with
  | zero => simp
  | succ depth ih =>
      intro level hlevel
      rw [levelBelow_succ, Option.mem_some_iff] at hlevel
      subst hlevel
      refine ⟨fun context atLeast particle path hschema hsettings =>
        buildParticle_marksChoices ih hschema hsettings atLeast particle, ?_⟩
      intro context entry path occurrence
      exact (Build.each_additive _).attributeEntry
        (fun _ => buildAttribute_marksChoices entry occurrence)
        fun level hlevel _ _ child _ => (ih level hlevel).entry _ _ _ _

/-! ## Requests -/

theorem buildAtTop_marksChoices {schema : Schema} {settings : Settings} {atLeast : Nat}
    {particle : Particle} {path : String} {parent : Option Xml.Element} {forms : List Form}
    {after : BuildState}
    (hrun : buildAtTop schema settings atLeast particle path parent = .ok (forms, after)) :
    ∀ form ∈ forms, form.MarksChoices schema settings :=
  buildParticle_marksChoices (levelBelow_marksChoices schema settings settings.maxDepth)
    rfl rfl atLeast particle _ _ _ hrun

theorem compileForm_marksChoices {schema : Schema} {settings : Settings} {name : Option String}
    {document : Option Xml.Document} {forms : RootForms}
    (hforms : compileForm schema settings name document = .ok forms) :
    ∀ form ∈ forms.root :: forms.surplus, form.MarksChoices schema settings := by
  obtain ⟨element, root, after, -, hbuild, hroot⟩ := compileForm_eq_ok hforms
  have hrun : buildAtTop schema settings 1 (.element element .single) ""
      (document.map Xml.Document.holder) = .ok (root :: forms.surplus, after) := hbuild
  have hall := buildAtTop_marksChoices hrun
  rw [List.forall_mem_cons] at hall ⊢
  exact ⟨hroot ▸ hall.1.remarkWith _, hall.2⟩

theorem compileParticle_marksChoices {schema : Schema} {settings : Settings} {tag path : String}
    {node : Xml.Element} {parent : Option Xml.Element} {forms : List Form}
    (hforms : compileParticle schema settings tag node path parent = .ok forms) :
    ∀ form ∈ forms, form.MarksChoices schema settings := by
  obtain ⟨particle, after, -, hrun⟩ := compileParticle_eq_ok hforms
  exact buildAtTop_marksChoices hrun

/-- The children of choices are marked, and no other nodes of the forms that answer a request.
Each instantiation of a choice selects the first alternative that the next element can begin
and compiles it from the instance; without one the settings select, and all alternatives are
compiled as without an instance. -/
theorem Request.compile_marksChoices (schema : Schema) (settings : Settings) :
    (∀ (request : Request) (compiled : Compiled),
      request.compile schema settings = .ok compiled →
        ∀ form ∈ compiled.answer ++ compiled.surplus, form.MarksChoices schema settings) ∧
    ∀ (level : Level) (context : Context) (alternatives : List Particle) (path : String)
      (state after : BuildState) (children : List Form),
      buildChoice level context alternatives path state = .ok (children, after) →
        ∃ matched selected parts,
          ChosenFrom level context path alternatives state children after matched selected
            parts := by
  refine ⟨fun request compiled hcompiled => ?_,
    fun _ _ _ _ _ _ _ hrun => buildChoice_eq_ok hrun⟩
  cases request with
  | root name document =>
      obtain ⟨forms, hforms, rfl⟩ := map_eq_ok.mp hcompiled
      exact compileForm_marksChoices hforms
  | particle tag node path parent =>
      obtain ⟨forms, hforms, rfl⟩ := map_eq_ok.mp hcompiled
      rw [List.append_nil]
      exact compileParticle_marksChoices hforms

def mealDocument : Xml.Document :=
  .ofRoots (.plain "schema" [] [
    .plain "element" [("name", "meal")] [
      .plain "complexType" [] [
        .plain "choice" [("maxOccurs", "unbounded")] [
          .plain "element" [("name", "dish")] [],
          .plain "sequence" [] [
            .plain "element" [("name", "drink")] [],
            .plain "element" [("name", "straw"), ("minOccurs", "0")] []]]]]]) []

def drinkFirst : Xml.Document :=
  .ofRoots (.plain "meal" [] [.plain "drink" [] [], .plain "dish" [] []]) []

def mealAlternatives : List Particle :=
  [.element (mealDocument.node 4) .single, .group .sequence (mealDocument.node 5) .single]

theorem drinkFirst_marked :
    (∃ compiled, (Request.root none (some drinkFirst)).compile (Schema.given mealDocument)
        .default = .ok compiled ∧
      (compiled.answer.flatMap (·.children)).map
          (·.children.map (·.label.options.selected?)) =
        [[some false, some true], [some true, some false]] ∧
      ∀ form ∈ compiled.answer ++ compiled.surplus,
        form.MarksChoices (Schema.given mealDocument) .default) ∧
    ∃ children after,
      buildChoice ⟨buildParticle (levelBelow 2), buildAttributeEntry (levelBelow 2)⟩
        (.start (Schema.given mealDocument) .default) mealAlternatives "/meal[1]"
        (.start (some drinkFirst.root)) = .ok (children, after) ∧
      ∃ matched selected parts,
        ChosenFrom ⟨buildParticle (levelBelow 2), buildAttributeEntry (levelBelow 2)⟩
          (.start (Schema.given mealDocument) .default) "/meal[1]" mealAlternatives
          (.start (some drinkFirst.root)) children after matched selected parts := by
  obtain ⟨hmarks, hchoices⟩ :=
    Request.compile_marksChoices (Schema.given mealDocument) .default
  have hcompiles : ((Request.root none (some drinkFirst)).compile (Schema.given mealDocument)
      .default).toOption.any (fun compiled =>
        (compiled.answer.flatMap (·.children)).map
            (·.children.map (·.label.options.selected?)) ==
          [[some false, some true], [some true, some false]]) = true := by decide +kernel
  have hbuilds : (buildChoice ⟨buildParticle (levelBelow 2), buildAttributeEntry (levelBelow 2)⟩
      (.start (Schema.given mealDocument) .default) mealAlternatives "/meal[1]"
      (.start (some drinkFirst.root))).isOk = true := by decide +kernel
  obtain ⟨compiled, hcompiled, hselected⟩ := exists_of_checked hcompiles
  obtain ⟨⟨children, after⟩, hrun⟩ := exists_of_isOk hbuilds
  exact ⟨⟨compiled, hcompiled, by simpa using hselected, hmarks _ _ hcompiled⟩, children, after,
    hrun, hchoices _ _ _ _ _ _ _ hrun⟩

end SchemaForms
