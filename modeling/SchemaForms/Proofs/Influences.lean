import SchemaForms.Proofs.Agreement
import SchemaForms.Proofs.DepthLimits

/-!
# What has an influence on a form

Of an instance, a compilation depends on the erasure alone. The default for choices and the
tag of module keys have an influence on the options that they are for, and on nothing else:
not on errors, not on what is compiled and counted, and not on what is taken of an instance.
-/

namespace SchemaForms

structure Settings.AgreeBut (keys : List String) (settings other : Settings) : Prop where
  placeholder : settings.placeholder = other.placeholder
  maxDepth : settings.maxDepth = other.maxDepth
  defaultChoice : OptionKey.selected ∈ keys ∨ settings.defaultChoice = other.defaultChoice
  moduleTag : OptionKey.module ∈ keys ∨ settings.moduleTag = other.moduleTag

def Context.under (context : Context) (settings : Settings) : Context :=
  { context with settings := settings }

structure Level.AgreesBut (keys : List String) (settings other : Settings) (level : Level) :
    Prop where
  particle : ∀ (context : Context) (atLeast : Nat) (particle : Particle) (path : String),
    (level.particle (context.under settings) atLeast particle path).AgreesBut keys
      (level.particle (context.under other) atLeast particle path)
  attributeEntry : ∀ (context : Context) (entry : Xml.Element) (path : String)
    (occurrence also : Option Xml.Element),
    occurrence.map Xml.Element.erasure = also.map Xml.Element.erasure →
      (level.attributeEntry (context.under settings) entry path occurrence).AgreesBut keys
        (level.attributeEntry (context.under other) entry path also)

/-! ## Declarations -/

theorem ofParticle_under (context : Context) (settings other : Settings) (node : Xml.Element) :
    (∃ fault, Declaration.ofParticle (context.under settings).schema
        (context.under settings).settings node = .error fault ∧
      Declaration.ofParticle (context.under other).schema (context.under other).settings node =
        .error fault) ∨
    ∃ declaration, Declaration.ofParticle (context.under settings).schema
        (context.under settings).settings node = .ok declaration ∧
      declaration.module = Declaration.widgetKey settings.moduleTag declaration.element ∧
      Declaration.ofParticle (context.under other).schema (context.under other).settings node =
        .ok { declaration with
          module := Declaration.widgetKey other.moduleTag declaration.element } := by
  simp only [Declaration.ofParticle, Context.under, bind, Except.bind]
  cases Schema.followReference context.schema.element node with
  | error fault => exact .inl ⟨fault, rfl, rfl⟩
  | ok element =>
      dsimp only
      cases demandAttribute element "name" with
      | error fault => exact .inl ⟨fault, rfl, rfl⟩
      | ok name =>
          dsimp only
          cases Declaration.contentType context.schema element with
          | error fault => exact .inl ⟨fault, rfl, rfl⟩
          | ok content => exact .inr ⟨_, rfl, rfl, rfl⟩

theorem attributeForm_agreesBut (keys : List String) (use declaration : Xml.Element)
    (name path : String) {occurrence also : Option Xml.Element}
    (h : occurrence.map Xml.Element.erasure = also.map Xml.Element.erasure) :
    (attributeForm use declaration name path occurrence).AgreesBut keys
      (attributeForm use declaration name path also) := by
  have hvalue : attributeValue use declaration name occurrence =
      attributeValue use declaration name also := by
    cases occurrence <;> cases also
    · rfl
    · cases h
    · cases h
    · exact Xml.Element.attribute?_eq_of_erasure (Option.some.inj h) name
  have hordered : (attributeOptions use declaration).Ordered := by
    unfold attributeOptions
    split
    · exact (Text.Dictionary.ordered_empty.insert _ _).insert _ _
    · exact Text.Dictionary.ordered_empty.insert _ _
  exact .node ⟨rfl, rfl, hvalue, .refl keys hordered, rfl, rfl, rfl⟩ .nil

section

variable {keys : List String} {settings other : Settings} (hkeys : OptionKey.mismatch ∉ keys)
  (hsettings : settings.AgreeBut keys other)

/-! ## Attributes -/

theorem buildAttribute_agreesBut (keys : List String) (context : Context) (use : Xml.Element)
    (path : String) {occurrence also : Option Xml.Element}
    (h : occurrence.map Xml.Element.erasure = also.map Xml.Element.erasure) :
    (buildAttribute (context.under settings) use path occurrence).AgreesBut keys
      (buildAttribute (context.under other) use path also) := by
  unfold buildAttribute
  split
  · exact .nothing keys
  · exact .ofFault fun declared _ => .emit (attributeForm_agreesBut keys use _ _ path h)

section

variable {deeper : Option Level} (hdeeper : ∀ level ∈ deeper, level.AgreesBut keys settings other)

include hsettings in
theorem enter_under (deeper : Option Level) (context : Context) (definition : Xml.Element)
    (editing : Bool) :
    (∃ fault, (context.under settings).enter deeper definition editing = .error fault ∧
      (context.under other).enter deeper definition editing = .error fault) ∨
    ∃ level ∈ deeper,
      (context.under settings).enter deeper definition editing =
        .ok ((context.inside definition).under settings, level) ∧
      (context.under other).enter deeper definition editing =
        .ok ((context.inside definition).under other, level) := by
  cases henter : (context.under settings).enter deeper definition editing with
  | error fault =>
      refine .inl ⟨fault, rfl, ?_⟩
      rcases Context.enter_eq_error.mp henter with ⟨hediting, hencloses, rfl⟩ |
        ⟨hfree, hdeeper, rfl⟩
      · exact Context.enter_eq_error.mpr (.inl ⟨hediting, hencloses, rfl⟩)
      · refine Context.enter_eq_error.mpr (.inr ⟨hfree, hdeeper, ?_⟩)
        exact congrArg SchemaFault.tooDeep hsettings.maxDepth
  | ok entered =>
      obtain ⟨inner, level⟩ := entered
      obtain ⟨hfree, hlevel, rfl⟩ := Context.enter_eq_ok.mp henter
      exact .inr ⟨level, hlevel, rfl, Context.enter_eq_ok.mpr ⟨hfree, hlevel, rfl⟩⟩

include hsettings hdeeper in
theorem Build.AgreesBut.ofEnter (context : Context) (definition : Xml.Element) (editing : Bool)
    {next following : Context × Level → Build}
    (hnext : ∀ level : Level, level.AgreesBut keys settings other →
      (next ((context.inside definition).under settings, level)).AgreesBut keys
        (following ((context.inside definition).under other, level))) :
    (Build.ofFault ((context.under settings).enter deeper definition editing) next).AgreesBut keys
      (.ofFault ((context.under other).enter deeper definition editing) following) := by
  rcases enter_under hsettings deeper context definition editing with
    ⟨fault, h, hother⟩ | ⟨level, hlevel, h, hother⟩
  · rw [h, hother]
    exact .fail keys _
  · rw [h, hother]
    exact hnext level (hdeeper level hlevel)

include hsettings hdeeper in
theorem buildAttributeEntry_agreesBut (context : Context) (entry : Xml.Element) (path : String)
    {occurrence also : Option Xml.Element}
    (h : occurrence.map Xml.Element.erasure = also.map Xml.Element.erasure) :
    (buildAttributeEntry deeper (context.under settings) entry path occurrence).AgreesBut keys
      (buildAttributeEntry deeper (context.under other) entry path also) := by
  by_cases hattribute : entry.name = "attribute"
  · rw [buildAttributeEntry_of_attribute hattribute, buildAttributeEntry_of_attribute hattribute]
    exact buildAttribute_agreesBut keys context entry path h
  by_cases hgroup : entry.name = "attributeGroup"
  · rw [buildAttributeEntry_of_group hgroup, buildAttributeEntry_of_group hgroup]
    refine .ofFault fun definition _ => ?_
    refine .ofEnter hsettings hdeeper context definition false fun level hlevel => ?_
    exact .all_map fun child _ => hlevel.attributeEntry (context.inside definition) child path _ _ h
  · rw [buildAttributeEntry_of_other hattribute hgroup,
      buildAttributeEntry_of_other hattribute hgroup]
    exact .nothing keys

/-! ## Elements -/

theorem buildItem_agreesBut {level : Level} (hlevel : level.AgreesBut keys settings other)
    (context : Context) (item : Xml.Element) (path : String) {occurrence also : Option Xml.Element}
    (h : occurrence.map Xml.Element.erasure = also.map Xml.Element.erasure) :
    (buildItem level (context.under settings) item path occurrence).AgreesBut keys
      (buildItem level (context.under other) item path also) := by
  by_cases hmodel : item.name ∈ modelItems
  · rw [buildItem_of_model hmodel, buildItem_of_model hmodel]
    refine .ofFault fun found _ => ?_
    cases found with
    | none => exact .nothing keys
    | some particle => exact hlevel.particle context 0 particle path
  rcases item_cases hmodel with hattribute | hsimple | hignored | hunsupported
  · rw [buildItem_of_attribute hattribute, buildItem_of_attribute hattribute]
    exact hlevel.attributeEntry context item path _ _ h
  · rw [buildItem_of_simpleContent hsimple, buildItem_of_simpleContent hsimple,
      buildSimpleContent, buildSimpleContent, ← List.map_flatMap, ← List.map_flatMap]
    exact .all_map fun child _ => hlevel.attributeEntry context child path _ _ h
  · rw [buildItem_of_ignored hignored, buildItem_of_ignored hignored]
    exact .nothing keys
  · rw [buildItem_of_unsupported hunsupported, buildItem_of_unsupported hunsupported]
    exact .fail keys _

structure ComplexContent.AgreesBut (keys : List String) (content also : ComplexContent) :
    Prop where
  value : content.value = also.value
  mismatch : content.mismatch = also.mismatch
  children : List.Forall₂ (Form.AgreesBut keys) content.children also.children

include hsettings hdeeper in
theorem complexContent_agreesBut (context : Context) (definition : Xml.Element) (path : String)
    {occurrence also : Option Xml.Element}
    (h : occurrence.map Xml.Element.erasure = also.map Xml.Element.erasure) :
    OutcomesAgree keys (ComplexContent.AgreesBut keys)
      (complexContent deeper (context.under settings) definition path occurrence)
      (complexContent deeper (context.under other) definition path also) := by
  have hediting : also.isSome = occurrence.isSome := by
    rw [← Option.isSome_map, ← h, Option.isSome_map]
  rcases enter_under hsettings deeper context definition occurrence.isSome with
    ⟨fault, hfault, hother⟩ | ⟨level, hlevel, henter, hother⟩ <;> rw [← hediting] at hother
  · rw [complexContent_of_error path hfault, complexContent_of_error path hother]
    exact .fault _
  · rw [complexContent_of_enter path henter, complexContent_of_enter path hother]
    have hitems : (buildItems level ((context.insideType definition).under settings) definition
        path occurrence).AgreesBut keys (buildItems level
          ((context.insideType definition).under other) definition path also) :=
      .all_map fun item _ => buildItem_agreesBut (hdeeper level hlevel) _ item path h
    refine (hitems _ _ (.start h)).map fun result found hmade => ?_
    have hvalue := contentValue_eq_of_erasure definition hmade.states h
    exact ⟨congrArg Prod.fst hvalue, congrArg Prod.snd hvalue, hmade.forms⟩

theorem simpleContent_agreesBut (keys : List String) (declaration : Declaration)
    {occurrence also : Option Xml.Element}
    (h : occurrence.map Xml.Element.erasure = also.map Xml.Element.erasure) :
    (simpleContent declaration occurrence).AgreesBut keys (simpleContent declaration also) := by
  have hsame : simpleContent declaration occurrence = simpleContent declaration also := by
    cases occurrence <;> cases also
    · rfl
    · cases h
    · cases h
    · simp only [simpleContent, simpleText_eq_of_erasure (Option.some.inj h)]
  have hchildren : (simpleContent declaration also).children = [] := by
    unfold simpleContent
    split
    · rfl
    · split <;> rfl
  rw [hsame]
  exact ⟨rfl, rfl, hchildren ▸ .nil⟩

include hsettings hdeeper in
theorem elementContent_agreesBut (context : Context) (declaration : Declaration)
    (module : Option String) (path : String) {occurrence also : Option Xml.Element}
    (h : occurrence.map Xml.Element.erasure = also.map Xml.Element.erasure) :
    OutcomesAgree keys (ComplexContent.AgreesBut keys)
      (elementContent deeper (context.under settings) declaration path occurrence)
      (elementContent deeper (context.under other) { declaration with module := module } path
        also) := by
  simp only [elementContent]
  cases declaration.content with
  | simple =>
      cases also with
      | none => exact .done (simpleContent_agreesBut keys declaration h)
      | some element => exact .done (simpleContent_agreesBut keys declaration h)
  | complex definition =>
      exact complexContent_agreesBut hsettings hdeeper context definition path h

include hkeys in
theorem elementForm_agreesBut (declaration : Declaration) {module : Option String}
    (hmodule : OptionKey.module ∈ keys ∨ declaration.module = module) (bounds : Bounds)
    (path : String) (occurrence also : Option Xml.Element) {content found : ComplexContent}
    (h : content.AgreesBut keys found) :
    (elementForm declaration bounds path occurrence content).AgreesBut keys
      (elementForm { declaration with module := module } bounds path also found) := by
  have hbounds : (boundsOptions bounds).AgreeBut keys (boundsOptions bounds) :=
    .refl keys ((Text.Dictionary.ordered_empty.insert _ _).insert _ _)
  have hoptions : (declaration.options bounds).AgreeBut keys
      ({ declaration with module := module }.options bounds) :=
    (hbounds.withOption (.inr rfl)).withOption hmodule
  rw [elementForm, elementForm, h.mismatch]
  refine Form.AgreesBut.remarkWith ?_ hkeys _
  exact .node ⟨rfl, rfl, h.value, hoptions, rfl, rfl, rfl⟩ h.children

include hkeys hsettings hdeeper in
theorem buildOccurrence_agreesBut (context : Context) (declaration : Declaration)
    {module : Option String} (hmodule : OptionKey.module ∈ keys ∨ declaration.module = module)
    (bounds : Bounds) (path : String) {occurrence also : Option Xml.Element}
    (h : occurrence.map Xml.Element.erasure = also.map Xml.Element.erasure) :
    (buildOccurrence deeper (context.under settings) declaration bounds path occurrence).AgreesBut
      keys (buildOccurrence deeper (context.under other) { declaration with module := module }
        bounds path also) := by
  intro state second hsame
  simp only [buildOccurrence, hsame.nextPlace_eq]
  rcases (elementContent_agreesBut hsettings hdeeper context declaration module
    (placePath path declaration.name (second.nextPlace declaration.name)) h).cases with
    ⟨error, finished, others, hrun, hother, hforms⟩ | ⟨content, found, hrun, hother, hcontent⟩ <;>
    simp only [hrun, hother]
  · exact .failed hforms
  · exact .done ⟨.cons (elementForm_agreesBut hkeys declaration hmodule bounds _ _ _ hcontent) .nil,
      hsame.givePlace _⟩

include hkeys hsettings hdeeper in
theorem buildTaken_agreesBut (context : Context) (declaration : Declaration)
    {module : Option String} (hmodule : OptionKey.module ∈ keys ∨ declaration.module = module)
    (bounds : Bounds) (path : String) {taken found : List Xml.Element}
    (h : taken.map Xml.Element.erasure = found.map Xml.Element.erasure) :
    (buildTaken deeper (context.under settings) declaration bounds path taken).AgreesBut keys
      (buildTaken deeper (context.under other) { declaration with module := module } bounds path
        found) := by
  refine .all ?_
  generalize 0 = start
  induction taken generalizing found start with
  | nil =>
      obtain rfl := List.map_eq_nil_iff.mp h.symm
      exact .nil
  | cons occurrence rest ih =>
      cases found with
      | nil => cases h
      | cons also others =>
          obtain ⟨hfirst, hrest⟩ := List.cons.inj h
          refine .cons (Build.AgreesBut.remarked ?_ hkeys _) (ih hrest (start + 1))
          exact buildOccurrence_agreesBut hkeys hsettings hdeeper context declaration hmodule
            bounds path (congrArg some hfirst)

include hkeys hsettings hdeeper in
theorem buildDeclared_agreesBut (context : Context) (declaration : Declaration)
    {module : Option String} (hmodule : OptionKey.module ∈ keys ∨ declaration.module = module)
    (bounds : Bounds) (atLeast : Nat) (path : String) :
    (buildDeclared deeper (context.under settings) declaration bounds atLeast path).AgreesBut keys
      (buildDeclared deeper (context.under other) { declaration with module := module } bounds
        atLeast path) := by
  have hcopies : ∀ count,
      (buildCopies deeper (context.under settings) declaration bounds path count).AgreesBut keys
        (buildCopies deeper (context.under other) { declaration with module := module } bounds
          path count) := fun count =>
    (buildOccurrence_agreesBut hkeys hsettings hdeeper context declaration hmodule bounds path
      rfl).replicate count
  have hcount : copiesWithoutInstance (context.under settings) declaration bounds atLeast =
      copiesWithoutInstance (context.under other) { declaration with module := module } bounds
        atLeast := by
    simp only [copiesWithoutInstance, Context.under, hsettings.placeholder]
    rfl
  intro state second hsame
  simp only [buildDeclared]
  rcases hsame.cursors with ⟨hcursor, hsecond⟩ | ⟨cursor, found, hcursor, hsecond, hahead⟩
  · simp only [hcursor, hsecond, hcount]
    exact hcopies _ _ _ hsame
  · have htaken := Cursor.run_of_erasure hahead declaration.name (takingLimit context bounds)
    have hlength := congrArg List.length htaken
    rw [List.length_map, List.length_map] at hlength
    have hparents : cursor.parent.erasure = found.parent.erasure := by
      simpa [hcursor, hsecond] using hsame.parents
    have hleft : BuildState.SameErasure
        { state with cursor := some (cursor.takeRun declaration.name
          (takingLimit context bounds)).2 }
        { second with cursor := some (found.takeRun declaration.name
          (takingLimit context bounds)).2 } := by
      refine ⟨hsame.steps, congrArg some hparents, ?_⟩
      simp only [BuildState.ahead, Cursor.takeRun, List.map_drop, hahead, hlength]
    simp only [hcursor, hsecond]
    refine Build.AgreesBut.andThen (buildTaken_agreesBut hkeys hsettings hdeeper context
      declaration hmodule bounds path htaken) ?_ _ _ hleft
    simp only [Cursor.takeRun]
    exact hlength ▸ hcopies _

include hkeys hsettings hdeeper in
theorem buildElement_agreesBut (context : Context) (node : Xml.Element) (bounds : Bounds)
    (atLeast : Nat) (path : String) :
    (buildElement deeper (context.under settings) node bounds atLeast path).AgreesBut keys
      (buildElement deeper (context.under other) node bounds atLeast path) := by
  unfold buildElement
  rcases ofParticle_under context settings other node with
    ⟨fault, hfault, hother⟩ | ⟨declaration, hdeclaration, hmodule, hother⟩
  · rw [hfault, hother]
    exact .fail keys _
  · rw [hdeclaration, hother]
    refine buildDeclared_agreesBut hkeys hsettings hdeeper context declaration ?_ bounds _ path
    exact hsettings.moduleTag.imp_right fun htag => by rw [hmodule, htag]

/-! ## Groups -/

include hsettings in
theorem buildMembers_agreesBut {level : Level} (hlevel : level.AgreesBut keys settings other)
    (context : Context) (compositor : Compositor) (members : List Particle) (path : String) :
    (buildMembers level (context.under settings) compositor members path).AgreesBut keys
      (buildMembers level (context.under other) compositor members path) := by
  cases compositor with
  | sequence => exact .all_map fun member _ => hlevel.particle context 0 member path
  | choice =>
      intro state second hsame
      simp only [buildMembers, buildChoice]
      rw [alternativeFor_congr hsame.map_next?_eq]
      refine Build.AgreesBut.ofFault (fun matched _ => ?_) _ _ hsame
      refine .all_map fun numbered _ => ?_
      obtain ⟨alternative, index⟩ := numbered
      have hselected : OptionKey.selected ∈ keys ∨
          Scalar.bool (selectedIndex settings members matched = some index) =
            .bool (selectedIndex other members matched = some index) :=
        hsettings.defaultChoice.imp_right fun hchoice => by
          have hindex : selectedIndex settings members matched =
              selectedIndex other members matched := by
            simp only [selectedIndex, hchoice]
          rw [hindex]
      have halternative := hlevel.particle context 1 alternative path
      refine Build.AgreesBut.mapForms ?_ fun form also hform =>
        hform.mapOptions fun _ _ hoptions => hoptions.insert hselected
      split
      · exact halternative
      · exact halternative.withoutInstance

include hkeys hsettings hdeeper in
theorem buildGroup_agreesBut (context : Context) (compositor : Compositor) (node : Xml.Element)
    (bounds : Bounds) (path : String) :
    (buildGroup deeper (context.under settings) compositor node bounds path).AgreesBut keys
      (buildGroup deeper (context.under other) compositor node bounds path) := by
  intro state second hsame
  simp only [buildGroup, hsame.isSome_eq]
  refine Build.AgreesBut.ofEnter hsettings hdeeper context node _ (fun level hlevel => ?_) _ _ hsame
  refine .ofFault fun members _ => ?_
  have hmembers := buildMembers_agreesBut hsettings hlevel (context.insideGroup node bounds)
    compositor members path
  exact (hmembers.grouped compositor node bounds path).instantiate hkeys rfl rfl _ _ _

/-! ## Particles -/

include hkeys hsettings hdeeper in
theorem buildParticle_agreesBut (context : Context) (atLeast : Nat) (particle : Particle)
    (path : String) :
    (buildParticle deeper (context.under settings) atLeast particle path).AgreesBut keys
      (buildParticle deeper (context.under other) atLeast particle path) := by
  cases particle with
  | element node bounds =>
      exact buildElement_agreesBut hkeys hsettings hdeeper context node bounds atLeast path
  | group compositor node bounds =>
      exact buildGroup_agreesBut hkeys hsettings hdeeper context compositor node bounds path
  | attributeUse node =>
      intro state second hsame
      refine buildAttribute_agreesBut keys context node path ?_ _ _ hsame
      rw [Option.map_map, Option.map_map]
      exact hsame.parents

end

include hkeys hsettings

theorem levelBelow_agreesBut (depth : Nat) :
    ∀ level ∈ levelBelow depth, level.AgreesBut keys settings other :=
  level_induction (fun _ hdeeper => ⟨buildParticle_agreesBut hkeys hsettings hdeeper,
    fun context entry path _ _ h =>
      buildAttributeEntry_agreesBut hsettings hdeeper context entry path h⟩) depth

theorem buildAtTop_agreesBut (schema : Schema) (atLeast : Nat) (particle : Particle)
    (path : String) {parent also : Option Xml.Element}
    (h : parent.map Xml.Element.erasure = also.map Xml.Element.erasure) :
    OutcomesAgree keys (MadeAlike keys) (buildAtTop schema settings atLeast particle path parent)
      (buildAtTop schema other atLeast particle path also) := by
  unfold buildAtTop
  rw [← hsettings.maxDepth]
  exact buildParticle_agreesBut hkeys hsettings (levelBelow_agreesBut hkeys hsettings _)
    (.start schema settings) atLeast particle path _ _ (.start h)

/-! ## Whole forms -/

omit hkeys hsettings in
theorem rootError_eq_of_erasure {root found : Form} (hroot : root.AgreesBut keys found)
    {after later : BuildState} (h : after.SameErasure later) :
    rootError root after = rootError found later := by
  have hnames := Xml.map_name_eq_of_erasure h.ahead
  rw [rootError, rootError, hroot.tag_eq]
  cases hafter : after.ahead <;> cases hlater : later.ahead <;>
    simp only [hafter, hlater, List.map_nil, List.map_cons, List.cons.injEq, reduceCtorEq] at hnames
  · rfl
  · simp only [hnames.1]

theorem compileForm_agreesBut (schema : Schema) (name : Option String)
    {document also : Option Xml.Document}
    (h : document.map Xml.Document.erasure = also.map Xml.Document.erasure) :
    OutcomesAgree keys (fun forms others : RootForms =>
        List.Forall₂ (Form.AgreesBut keys) (forms.root :: forms.surplus)
          (others.root :: others.surplus))
      (compileForm schema settings name document) (compileForm schema other name also) := by
  have hholders : (document.map Xml.Document.holder).map Xml.Element.erasure =
      (also.map Xml.Document.holder).map Xml.Element.erasure := by
    cases document <;> cases also
    · rfl
    · cases h
    · cases h
    · exact congrArg some (Xml.Document.holder_erasure (Option.some.inj h))
  simp only [compileForm]
  split
  · exact .fault _
  rename_i element _
  rcases (buildAtTop_agreesBut hkeys hsettings schema 1 (.element element .single) ""
    hholders).cases with ⟨error, finished, others, hrun, hother, hforms⟩ |
    ⟨⟨forms, after⟩, ⟨others, later⟩, hrun, hother, hmade⟩ <;> simp only [hrun, hother]
  · exact .failed hforms
  · have hstates : after.SameErasure later := hmade.states
    cases hmade.forms with
    | nil => exact .fault _
    | cons hroot hsurplus =>
        simp only [rootError_eq_of_erasure hroot hstates]
        exact .done (.cons (hroot.remarkWith hkeys _) hsurplus)

end

def changeForms (change : Form → Form) : Except Failure RootForms → Except Failure RootForms
  | .error failure => .error { failure with finished := failure.finished.map change }
  | .ok forms => .ok ⟨change forms.root, forms.surplus.map change⟩

theorem changeForms_eq_of_agree {keys : List String} {outcome other : Except Failure RootForms}
    (h : OutcomesAgree keys (fun forms others : RootForms =>
      List.Forall₂ (Form.AgreesBut keys) (forms.root :: forms.surplus)
        (others.root :: others.surplus)) outcome other) :
    changeForms (Form.without keys) outcome = changeForms (Form.without keys) other := by
  have hsame : ∀ {forms others : List Form}, List.Forall₂ (Form.AgreesBut keys) forms others →
      forms.map (Form.without keys) = others.map (Form.without keys) := by
    intro forms others hforms
    rw [← Form.withoutAll_eq_map, ← Form.withoutAll_eq_map, Form.withoutAll_eq hforms]
  cases h with
  | failed hforms => simp only [changeForms, hsame hforms]
  | done hforms =>
      have hall := hsame hforms
      rw [List.map_cons, List.map_cons, List.cons.injEq] at hall
      simp only [changeForms, hall]

/-- Over instances with the same erasure a compilation ends in the same error, or in the same
forms but for their sources. -/
theorem compileForm_of_erasure (schema : Schema) (settings : Settings) (name : Option String)
    {first second : Xml.Document} (h : first.erasure = second.erasure) :
    changeForms Form.unsourced (compileForm schema settings name (some first)) =
      changeForms Form.unsourced (compileForm schema settings name (some second)) := by
  have hsettings : settings.AgreeBut [] settings := ⟨rfl, rfl, .inr rfl, .inr rfl⟩
  have hdocuments : (some first).map Xml.Document.erasure =
      (some second).map Xml.Document.erasure := congrArg some h
  have hsame := changeForms_eq_of_agree
    (compileForm_agreesBut List.not_mem_nil hsettings schema name hdocuments)
  have hwithout : Form.without [] = Form.unsourced := funext Form.without_nil
  rwa [hwithout] at hsame

def cardDocument : Xml.Document :=
  .ofRoots (.plain "schema" [] [
    .plain "element" [("name", "card")] [
      .plain "complexType" [] [
        .plain "sequence" [] [.plain "element" [("name", "text")] []],
        .plain "attribute" [("name", "stamp")] []]]]) []

def plainCard : Xml.Document :=
  .ofRoots (.plain "card" [("stamp", "blue")] [.leaf "text" "Greetings"]) []

def decoratedCard : Xml.Document :=
  .ofRoots ⟨⟨0, none, "card", [⟨some "urn:post", "stamp", "red"⟩, ⟨none, "stamp", "blue"⟩],
      [(none, "urn:card"), (some "p", "urn:post")]⟩,
    [.text "\n  ", .comment "front",
      .element ⟨0, none, "text", [], [(none, "urn:card")]⟩
        [.text "Greet", .comment "", .instruction, .text "ings"],
      .text "\n"]⟩ []

theorem decoratedCard_compiled :
    plainCard.erasure = decoratedCard.erasure ∧
    (∃ forms, compileForm (Schema.given cardDocument) .default none (some decoratedCard) =
        .ok forms ∧
      forms.root.labels.filterMap (·.value) = ["Greetings", "blue"]) ∧
    changeForms Form.unsourced
        (compileForm (Schema.given cardDocument) .default none (some plainCard)) =
      changeForms Form.unsourced
        (compileForm (Schema.given cardDocument) .default none (some decoratedCard)) := by
  have hcompiles : (compileForm (Schema.given cardDocument) .default none
      (some decoratedCard)).toOption.any (fun forms =>
        forms.root.labels.filterMap (·.value) == ["Greetings", "blue"]) = true := by
    decide +kernel
  obtain ⟨forms, hforms, hvalues⟩ := exists_of_checked hcompiles
  exact ⟨rfl, ⟨forms, hforms, by simpa using hvalues⟩, compileForm_of_erasure _ _ _ rfl⟩

/-- The default for choices and the tag of module keys change nothing but the options that they
are for. -/
theorem compileForm_policies (schema : Schema) (settings : Settings) (name : Option String)
    (document : Option Xml.Document) (choice : DefaultChoice) (tag : String) :
    changeForms (Form.without [OptionKey.selected, OptionKey.module])
        (compileForm schema settings name document) =
      changeForms (Form.without [OptionKey.selected, OptionKey.module]) (compileForm schema
        { settings with defaultChoice := choice, moduleTag := tag } name document) ∧
    changeForms (Form.without [OptionKey.selected]) (compileForm schema settings name document) =
      changeForms (Form.without [OptionKey.selected])
        (compileForm schema { settings with defaultChoice := choice } name document) ∧
    changeForms (Form.without [OptionKey.module]) (compileForm schema settings name document) =
      changeForms (Form.without [OptionKey.module])
        (compileForm schema { settings with moduleTag := tag } name document) := by
  have hpolicies : settings.AgreeBut [OptionKey.selected, OptionKey.module]
      { settings with defaultChoice := choice, moduleTag := tag } :=
    ⟨rfl, rfl, .inl (by decide), .inl (by decide)⟩
  have hchoice : settings.AgreeBut [OptionKey.selected] { settings with defaultChoice := choice } :=
    ⟨rfl, rfl, .inl (by decide), .inr rfl⟩
  have htag : settings.AgreeBut [OptionKey.module] { settings with moduleTag := tag } :=
    ⟨rfl, rfl, .inr rfl, .inl (by decide)⟩
  exact ⟨changeForms_eq_of_agree (compileForm_agreesBut (by decide) hpolicies schema name rfl),
    changeForms_eq_of_agree (compileForm_agreesBut (by decide) hchoice schema name rfl),
    changeForms_eq_of_agree (compileForm_agreesBut (by decide) htag schema name rfl)⟩

end SchemaForms
