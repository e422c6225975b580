import SchemaForms.Proofs.Invariants
import SchemaForms.Proofs.Reconciliation
import SchemaForms.Proofs.RereadChoices
import SchemaForms.Proofs.Rereading

/-!
# Forms are found again in what is written for them

Choices and groups take what is written for them, each repetition its own part; by induction
on the levels so do all particles, and whole forms reopen: those of a new document, and those
that were compiled from an instance, which lose the messages about it.
-/

namespace SchemaForms

/-! ## Members -/

theorem Rereads.of_runs {shown : List Form → List Form} {names : String → Prop}
    {repeated : Bool} {free : Prop} {closed : BuildState → String → Prop} {build other : Build}
    (h : Rereads shown names repeated free closed build)
    (hruns : ∀ state result, other state = .ok result → build state = .ok result)
    (hover : ∀ state cursor result, build (BuildState.over state cursor) = .ok result →
      other (state.over cursor) = .ok result) :
    Rereads shown names repeated free closed other where
  advancing := fun _ _ _ hrun => h.advancing _ _ _ (hruns _ _ hrun)
  leaves := fun _ _ _ hrun => h.leaves _ _ _ (hruns _ _ hrun)
  named := fun _ _ _ hrun => h.named _ _ _ (hruns _ _ hrun)
  takes := fun _ _ _ hrun => h.takes _ _ _ (hruns _ _ hrun)
  shows := fun _ _ _ hrun => h.shows _ _ _ (hruns _ _ hrun)
  stops := fun _ _ _ hrun => h.stops _ _ _ (hruns _ _ hrun)
  continued := fun _ _ _ hrun _ _ _ hother =>
    h.continued _ _ _ (hruns _ _ hrun) _ _ _ (hruns _ _ hother)
  rereads := fun _ _ _ hrun cursor written rest hahead hwritten hrest hfree =>
    (h.rereads _ _ _ (hruns _ _ hrun) cursor written rest hahead hwritten hrest hfree).imp
      fun _ hreopened => hreopened.imp_left (hover _ _ _)

theorem Build.exists_of_all {builds : List Build} {state after : BuildState} {forms : List Form}
    (h : all builds state = .ok (forms, after)) {build : Build} (hbuild : build ∈ builds) :
    ∃ before made later, build before = .ok (made, later) := by
  induction builds generalizing state forms with
  | nil => cases hbuild
  | cons first rest ih =>
      obtain ⟨made, middle, others, hmade, hothers, -⟩ := andThen_eq_ok.mp h
      rcases List.mem_cons.mp hbuild with rfl | hbuild
      · exact ⟨state, made, middle, hmade⟩
      · exact ih hothers hbuild

theorem firstNames_of_matched {schema : Schema} {tag : String} {members : List Particle}
    {index : Nat} {member : Particle} (h : firstBeginning schema tag members = .ok (some index))
    (hmember : members[index]? = some member) :
    ∃ names, firstNames schema member = .ok names := by
  induction members generalizing index with
  | nil => cases hmember
  | cons first rest ih =>
      obtain ⟨names, hnames, h⟩ := bind_eq_ok.mp h
      split at h
      · cases h
        cases hmember
        exact ⟨names, hnames⟩
      · obtain ⟨found, hfound, h⟩ := bind_eq_ok.mp h
        obtain ⟨left, rfl, rfl⟩ := Option.map_eq_some_iff.mp (Except.ok.inj h)
        exact ih hfound hmember

section

variable {schema : Schema} {level : Level} {context : Context}
  (hlevel : level.Rereads schema) (hcontext : context.schema = schema)
include hlevel hcontext

theorem buildSequence_rereads {members : List Particle}
    (hmodel : ModelReopens schema context.repeated members) (path : String) :
    ∃ closed, SchemaForms.Rereads Form.surfaceAll (Named schema members) context.repeated True
      closed (buildSequence level context members path) := by
  induction members with
  | nil => exact ⟨_, Rereads.nothing.congr fun name => by simp [Named]⟩
  | cons member rest ih =>
      obtain ⟨closed, hmember⟩ := hlevel.particle context 0 member path hcontext
        (hmodel.of_mem List.mem_cons_self)
      obtain ⟨closedNext, hrest⟩ := ih hmodel.tail
      obtain ⟨-, -, hdisjoint⟩ := uniqueNames_cons.mp hmodel.plain.unique
      rw [eq_self] at hmember
      exact ⟨_, (hmember.andThen hrest hdisjoint).congr fun _ => named_cons⟩

/-- The alternatives that are not matched are compiled without an instance, so that their
first names are found, and the search has found those of the other one. -/
theorem buildChoice_searches (hschema : schema.Reopenable) {members : List Particle}
    (hmodel : ModelReopens schema context.repeated members) {path : String} {state : BuildState}
    {result : List Form × BuildState}
    (hrun : buildChoice level context members path state = .ok result)
    (next : Option Xml.Element) : ∃ matched, alternativeFor schema members next = .ok matched := by
  obtain ⟨matched, hmatched, hall⟩ := Build.ofFault_eq_ok.mp hrun
  rw [hcontext] at hmatched
  refine alternativeFor_found (fun member hmember => ?_) next
  obtain ⟨index, hindex⟩ := List.mem_iff_getElem?.mp hmember
  by_cases hsame : matched = some index
  · subst hsame
    cases hnext : state.next? with
    | none =>
        rw [hnext] at hmatched
        cases hmatched
    | some element =>
        rw [hnext] at hmatched
        exact firstNames_of_matched hmatched hindex
  · have hnumbered : (member, index) ∈ members.zipIdx :=
      List.mem_zipIdx_iff_getElem?.mpr hindex
    obtain ⟨before, made, after, hmade⟩ :=
      Build.exists_of_all hall (List.mem_map_of_mem hnumbered)
    obtain ⟨single, -, ⟨hother, -⟩ | ⟨-, last, hlast, -⟩⟩ := buildAlternative_eq_ok.mp hmade
    · exact (hsame hother).elim
    have hoccurs : Occurs schema member := fun inner hcontains =>
      hschema.occurs inner ((hmodel.uses member hmember).contains hcontains)
    exact (hlevel.finds _ _ _ _ hcontext (hmodel.plain.ofSchema member hmember) hoccurs
      ⟨_, single, last, rfl, hlast⟩).firstNames

theorem buildChoice_rereads (hschema : schema.Reopenable) {members : List Particle}
    (hmodel : ModelReopens schema context.repeated members) (path : String) :
    ∃ closed, SchemaForms.Rereads Form.surfaceSelected (Named schema members) context.repeated
      True closed (buildChoice level context members path) := by
  have hmembers : ∀ member, member ∈ members → ∃ closed, SchemaForms.Rereads Form.surfaceAll
      (member.Names schema) context.repeated (1 = 0) closed
      (level.particle context 1 member path) := fun member hmember =>
    hlevel.particle context 1 member path hcontext (hmodel.of_mem hmember)
  choose! closed hclosed using hmembers
  subst hcontext
  exact ⟨_, Rereads.choice hclosed ⟨hlevel.advancing, hlevel.leaves⟩ hmodel.plain.unique
    fun state result hrun next => buildChoice_searches hlevel rfl hschema hmodel hrun next⟩

theorem buildMembers_rereads (hschema : schema.Reopenable) (compositor : Compositor)
    {members : List Particle} (hmodel : ModelReopens schema context.repeated members)
    (path : String) :
    ∃ closed, SchemaForms.Rereads compositor.shown (Named schema members) context.repeated True
      closed (buildMembers level context compositor members path) := by
  cases compositor with
  | sequence => exact buildSequence_rereads hlevel hcontext hmodel path
  | choice => exact buildChoice_rereads hlevel hcontext hschema hmodel path

end

/-! ## Groups -/

theorem oneInstantiation_surface (level : Level) (context : Context) (compositor : Compositor)
    (members : List Particle) (node : Xml.Element) (bounds : Bounds) (path : String) :
    (oneInstantiation level context compositor members node bounds path).MakesOne
      fun form => ∀ error, (remarkWith error form).surface = form.surface := by
  intro state forms after hrun
  obtain ⟨children, last, -, rfl, -⟩ := Build.grouped_eq_ok.mp hrun
  refine ⟨_, rfl, fun error => ?_⟩
  cases error with
  | none => rfl
  | some error => cases compositor <;> rfl

section

variable {schema : Schema} {deeper : Option Level} {context : Context}
  (hgrounded : schema.Grounded) (hschema : schema.Reopenable)
  (hcontext : context.schema = schema) (hdeeper : ∀ level ∈ deeper, level.Rereads schema)
include hgrounded hschema hcontext hdeeper

theorem buildGroup_searches {compositor : Compositor} {node : Xml.Element} {bounds : Bounds}
    (hmodel : ModelReopens schema context.repeated [.group compositor node bounds])
    {path : String} {state : BuildState} {result : List Form × BuildState}
    (hrun : buildGroup deeper context compositor node bounds path state = .ok result) :
    ∃ names, firstNames schema (.group compositor node bounds) = .ok names := by
  have hself := List.mem_singleton_self (Particle.group compositor node bounds)
  have hoccurs : Occurs schema (.group compositor node bounds) := fun inner hcontains =>
    hschema.occurs inner ((hmodel.uses _ hself).contains hcontains)
  cases hcursor : state.cursor with
  | none =>
      exact (buildGroup_found hgrounded hcontext
        (fun level hin => ⟨(hdeeper level hin).advancing, (hdeeper level hin).finds⟩)
        (hmodel.plain.ofSchema _ hself) hoccurs ⟨state, _, _, hcursor, hrun⟩).firstNames
  | some cursor =>
      obtain ⟨_, _, -, -, -, hinstantiate⟩ := buildGroup_eq_ok.mp hrun
      have hmax : bounds.max ≠ .count 0 := hoccurs _ .self
      simp only [instantiate, if_neg hmax, hcursor] at hinstantiate
      obtain ⟨names, hnames, -⟩ := Build.ofFault_eq_ok.mp hinstantiate
      exact ⟨names, hcontext ▸ hnames⟩

theorem buildGroup_rereads {compositor : Compositor} {node : Xml.Element} {bounds : Bounds}
    (hmodel : ModelReopens schema context.repeated [.group compositor node bounds])
    (path : String) (free : Prop) :
    ∃ closed, Rereads Form.surfaceAll ((Particle.group compositor node bounds).Names schema)
      context.repeated free closed (buildGroup deeper context compositor node bounds path) := by
  have hself := List.mem_singleton_self (Particle.group compositor node bounds)
  have hmax : bounds.max ≠ .count 0 := hschema.occurs _ (hmodel.uses _ hself)
  cases hfirst : firstNames schema (.group compositor node bounds) with
  | error fault =>
      refine ⟨_, .of_fails fun state result hrun => ?_⟩
      obtain ⟨names, hnames⟩ :=
        buildGroup_searches hgrounded hschema hcontext hdeeper hmodel hrun
      cases hfirst.symm.trans hnames
  | ok names =>
  cases hmembers : Particle.members schema node with
  | error fault =>
      refine ⟨_, .of_fails fun state result hrun => ?_⟩
      obtain ⟨_, _, -, -, hfound, -⟩ := buildGroup_eq_ok.mp hrun
      rw [hcontext, hmembers] at hfound
      cases hfound
  | ok members =>
  cases deeper with
  | none =>
      refine ⟨_, .of_fails fun state result hrun => ?_⟩
      obtain ⟨_, _, hsome, -⟩ := buildGroup_eq_ok.mp hrun
      cases hsome
  | some level =>
      have hlevel : level.Rereads schema := hdeeper level rfl
      obtain ⟨closed, hclosed⟩ := buildMembers_rereads hlevel
        (show (context.insideGroup node bounds).schema = schema from hcontext) hschema compositor
        (hmodel.members hgrounded hschema hmembers) path
      have hone : Rereads Form.surfaceAll ((Particle.group compositor node bounds).Names schema)
          (context.repeated || bounds.repeats) True closed
          (oneInstantiation level context compositor members node bounds path) :=
        (hclosed.grouped node bounds path).congr fun name => (Particle.names_group hmembers).symm
      obtain ⟨closedGroup, hgroup⟩ : ∃ closed, Rereads Form.surfaceAll
          ((Particle.group compositor node bounds).Names schema) context.repeated free closed
          (instantiate (context.inside node) (.group compositor node bounds) compositor bounds
            (oneInstantiation level context compositor members node bounds path)) :=
        ⟨_, Rereads.instantiated hone (oneInstantiation_surface _ _ _ _ _ _ _) hmax
          (fun found hnames name => mem_firstNames (hcontext ▸ hnames))
          (fun hrepeated => hmodel.fixed hrepeated _ hself _ .self)
          (fun _ _ _ => ⟨names, hcontext ▸ hfirst⟩) free⟩
      refine ⟨closedGroup, hgroup.of_runs (fun state result hrun => ?_) fun state cursor result hrun => ?_⟩
      · obtain ⟨_, _, hsome, -, hfound, hrun⟩ := buildGroup_eq_ok.mp hrun
        cases hsome
        rw [hcontext, hmembers] at hfound
        cases hfound
        exact hrun
      · exact buildGroup_eq_ok.mpr ⟨level, members, rfl, .inl rfl, hcontext ▸ hmembers, hrun⟩

end

/-! ## Levels -/

section

variable {schema : Schema} {deeper : Option Level} {context : Context} {path : String}
  {given : Option Xml.Element} {state after : BuildState} {forms : List Form}

theorem buildAttribute_rereads (hcontext : context.schema = schema) {entry : Xml.Element}
    (hname : entry.name = "attribute")
    (hrun : buildAttribute context entry path given state = .ok (forms, after)) :
    RereadsAttributes schema [entry] (buildAttribute context entry path) state forms := by
  by_cases huse : useOf entry = "prohibited"
  · have hbuild : buildAttribute context entry path = fun _ => .nothing :=
      funext fun occurrence => by rw [buildAttribute, if_pos huse]
    rw [hbuild] at hrun ⊢
    obtain ⟨rfl, -⟩ := Build.nothing_eq_ok.mp hrun
    exact ⟨.prohibited hname huse .nil, fun _ _ _ => rfl⟩
  · rw [buildAttribute, if_neg huse] at hrun
    obtain ⟨⟨declaration, name⟩, hdeclared, hemit⟩ := Build.ofFault_eq_ok.mp hrun
    obtain ⟨rfl, -⟩ := Build.emit_eq_ok.mp hemit
    refine ⟨.use hname huse (hcontext ▸ hdeclared) .nil, fun occurrence cursor hfit => ?_⟩
    have hvalue := hfit _ (List.mem_singleton_self _) rfl
    have hsame : attributeForm entry declaration name path (some occurrence) =
        attributeForm entry declaration name path given := by
      simp only [attributeForm, attributeValue, Form.label] at hvalue ⊢
      rw [hvalue]
    rw [buildAttribute, if_neg huse]
    exact Build.ofFault_eq_ok.mpr ⟨(declaration, name), hdeclared,
      Build.emit_eq_ok.mpr ⟨by rw [hsame], rfl⟩⟩

theorem buildAttributeEntry_rereads (hcontext : context.schema = schema)
    (hdeeper : ∀ level ∈ deeper, level.Rereads schema) {entry : Xml.Element}
    (hrun : buildAttributeEntry deeper context entry path given state = .ok (forms, after)) :
    RereadsAttributes schema [entry] (buildAttributeEntry deeper context entry path) state
      forms := by
  by_cases hattribute : entry.name = "attribute"
  · have hbuild : buildAttributeEntry deeper context entry path =
        buildAttribute context entry path :=
      funext fun occurrence => buildAttributeEntry_of_attribute hattribute path occurrence
    rw [hbuild] at hrun ⊢
    exact buildAttribute_rereads hcontext hattribute hrun
  by_cases hgroup : entry.name = "attributeGroup"
  · rw [buildAttributeEntry_of_group hgroup] at hrun
    obtain ⟨definition, hdefinition, hrun⟩ := Build.ofFault_eq_ok.mp hrun
    obtain ⟨⟨inner, level⟩, henter, hrun⟩ := Build.ofFault_eq_ok.mp hrun
    obtain ⟨-, hlevel, rfl⟩ := Context.enter_eq_ok.mp henter
    have hinner := attributeEntries_reread (hdeeper level hlevel)
      (show (context.inside definition).schema = schema from hcontext) hrun
    refine ⟨?_, fun occurrence cursor hfit => ?_⟩
    · rw [← List.append_nil (forms.map _)]
      exact .group hgroup (hcontext ▸ hdefinition) hinner.names .nil
    · rw [buildAttributeEntry_of_group hgroup]
      exact Build.ofFault_eq_ok.mpr ⟨definition, hdefinition,
        Build.ofFault_eq_ok.mpr ⟨_, henter, hinner.again occurrence cursor hfit⟩⟩
  · have hbuild : buildAttributeEntry deeper context entry path = fun _ => .nothing :=
      funext fun occurrence => buildAttributeEntry_of_other hattribute hgroup path occurrence
    rw [hbuild] at hrun ⊢
    obtain ⟨rfl, -⟩ := Build.nothing_eq_ok.mp hrun
    exact ⟨.other hattribute hgroup .nil, fun _ _ _ => rfl⟩

theorem buildParticle_rereads (hgrounded : schema.Grounded) (hschema : schema.Reopenable)
    (hdeeper : ∀ level ∈ deeper, level.Rereads schema) :
    Level.Rereads ⟨buildParticle deeper, buildAttributeEntry deeper⟩ schema where
  advancing := fun _ atLeast particle _ =>
    buildParticle_advancing (fun level hlevel => (hdeeper level hlevel).advancing) atLeast particle
  attributes :=
    buildAttributeEntry_attributesOnly fun level hlevel => (hdeeper level hlevel).attributes
  leaves := fun _ atLeast particle _ =>
    buildParticle_leavesAbsent (fun level hlevel => (hdeeper level hlevel).leaves) atLeast particle
  finds := buildParticle_finds hgrounded fun level hlevel =>
    ⟨(hdeeper level hlevel).advancing, (hdeeper level hlevel).finds⟩
  kind := fun _ _ _ _ hparticle => buildParticle_kind hparticle _ _
  particle := by
    intro context atLeast particle path hcontext hmodel
    have hself := List.mem_singleton_self particle
    cases particle with
    | element node bounds =>
        exact buildElement_rereads hgrounded hschema hcontext hdeeper
          (hmodel.plain.ofSchema _ hself) (hschema.occurs _ (hmodel.uses _ hself))
          (fun hrepeated => hmodel.fixed hrepeated _ hself _ .self) atLeast path
    | group compositor node bounds =>
        exact buildGroup_rereads hgrounded hschema hcontext hdeeper hmodel path _
    | attributeUse node => exact (hschema.noAttributeUse node (hmodel.uses _ hself)).elim
  entry := fun _ _ _ _ _ _ _ hcontext hrun => buildAttributeEntry_rereads hcontext hdeeper hrun

end

theorem levelBelow_rereads {schema : Schema} (hgrounded : schema.Grounded)
    (hschema : schema.Reopenable) (depth : Nat) :
    ∀ level ∈ levelBelow depth, level.Rereads schema :=
  level_induction (fun _ hdeeper => buildParticle_rereads hgrounded hschema hdeeper) depth

/-! ## Whole forms -/

theorem compileForm_fresh_unremarked {source : Xml.Document} {schema : Schema}
    (hschema : Schema.ofDocument source = .ok schema) (hunique : schema.NamesUnique)
    {settings : Settings} {name : Option String} {forms : RootForms}
    (hforms : compileForm schema settings name none = .ok forms) : forms.root.Unremarked := by
  have hgrounded := Schema.grounded_of_ofDocument hschema
  obtain ⟨element, root, after, hglobal, hbuild, hroot⟩ := compileForm_eq_ok hforms
  obtain ⟨hafter, hmade⟩ := buildElement_reconciles hgrounded hunique rfl
    (levelBelow_reconciles hgrounded hunique settings.maxDepth)
    (Schema.selectGlobal_eq_ok hgrounded hglobal).1 .single 1 _ _ _ hbuild [] [] (.inl rfl)
    List.suffix_rfl (.inr (by simp))
  rw [hroot, rootError, List.suffix_nil.mp hafter]
  exact hmade (by simp [BuildState.start, BuildState.ahead]) root List.mem_cons_self

theorem compileForm_reopenedAs {source : Xml.Document} {schema : Schema}
    (hschema : Schema.ofDocument source = .ok schema) (hreopenable : schema.Reopenable)
    {settings : Settings} {name : Option String} {existing : Option Xml.Document}
    {forms : RootForms} (hforms : compileForm schema settings name existing = .ok forms)
    {document : Xml.Document} (hsingle : document.others = [])
    (hwritten : forms.root.WrittenAs document.root) :
    ∃ again, compileForm schema settings name (some document) = .ok ⟨again, []⟩ ∧
      forms.root.ReopenedAs again := by
  have hgrounded := Schema.grounded_of_ofDocument hschema
  have hdeeper := levelBelow_rereads hgrounded hreopenable settings.maxDepth
  obtain ⟨element, root, after, hglobal, hbuild, hroot⟩ := compileForm_eq_ok hforms
  obtain ⟨declaration, hdeclaration, hdeclared⟩ := buildElement_eq_ok.mp hbuild
  have hcompiled := buildDeclared_compiledAt _ _ _ hdeclared
  obtain ⟨-, htags⟩ := buildElement_shown hdeclaration _ _ _ hbuild
  have htag := htags root List.mem_cons_self
  rw [hroot] at hwritten
  have hrootWritten := Form.writtenAs_of_remarkWith hwritten
  have hordered : root.label.options.Ordered := by
    obtain ⟨given, content, -, rfl⟩ := hcompiled 0 root rfl
    exact ordered_elementForm declaration .single _ given content
  have hahead : (Cursor.ofParent document.holder).ahead = [document.root] ++ [] := by
    rw [List.append_nil, ← hsingle]
    exact document.holder_elements
  have htaken : (Cursor.ofParent document.holder).takeRun declaration.name
      (takingLimit (.start schema settings) .single) =
        ([document.root], { Cursor.ofParent document.holder with ahead := [] }) := by
    refine Cursor.takeRun_eq hahead (fun occurrence hin => ?_) rfl (by simp)
    rw [List.mem_singleton.mp hin, hrootWritten.name, htag]
  have hfirst : ∀ index form, [root][index]? = some form → ∃ given,
      CompiledAt (levelBelow settings.maxDepth) (.start schema settings) declaration .single ""
        ((BuildState.start none).nextPlace declaration.name + index)
        (surplusError declaration.name Bounds.single.max (index + 1)) given form := by
    intro index form hform
    cases index with
    | zero =>
        cases hform
        exact hcompiled 0 root rfl
    | succ index => cases hform
  obtain ⟨reopened, hreopened, hsame⟩ := @buildElement_over schema (levelBelow settings.maxDepth)
    (.start schema settings) hgrounded hreopenable rfl hdeeper element
    (Schema.selectGlobal_eq_ok hgrounded hglobal) .single 1 "" declaration hdeclaration
    (.start none) [root] hfirst _ _ _ (.cons hrootWritten .nil) htaken (Nat.le_refl _)
  obtain ⟨again, hagain, rfl⟩ : ∃ again, root.ReopenedAs again ∧ reopened = [again] := by
    cases hsame with
    | cons hagain hnone =>
        cases hnone
        exact ⟨_, hagain, rfl⟩
  refine ⟨again, ?_, hroot ▸ hagain.remarkWith_left hordered _⟩
  simp only [compileForm, hglobal]
  rw [show buildAtTop schema settings 1 (.element element .single) ""
    ((some document).map Xml.Document.holder) = _ from hreopened]
  rfl

/-- Over what is written for a fresh form the same form is compiled, without a message. -/
theorem compileForm_reopens {source : Xml.Document} {schema : Schema}
    (hschema : Schema.ofDocument source = .ok schema) (hreopenable : schema.Reopenable)
    {settings : Settings} {name : Option String} {forms : RootForms}
    (hforms : compileForm schema settings name none = .ok forms) {document : Xml.Document}
    (hsingle : document.others = []) (hwritten : forms.root.WrittenAs document.root) :
    ∃ reopened, compileForm schema settings name (some document) = .ok reopened ∧
      reopened.root.toJson = forms.root.toJson ∧ reopened.root.Unremarked ∧
      reopened.surplus = [] := by
  have hunremarked := compileForm_fresh_unremarked hschema hreopenable.namesUnique hforms
  obtain ⟨again, hcompiled, hagain⟩ :=
    compileForm_reopenedAs hschema hreopenable hforms hsingle hwritten
  obtain ⟨hjson, hnone⟩ := hagain.toJson_eq hunremarked
  exact ⟨_, hcompiled, hjson, hnone, rfl⟩

def sidesDocument : Xml.Document :=
  .ofRoots (.plain "schema" [] [
    .plain "element" [("name", "album")] [
      .plain "complexType" [] [
        .plain "sequence" [] [
          .plain "element" [("name", "title"), ("default", "Untitled")] [],
          .plain "sequence" [("minOccurs", "2"), ("maxOccurs", "3")] [
            .plain "element" [("name", "track"), ("minOccurs", "2"), ("maxOccurs", "2")] [],
            .plain "choice" [] [
              .plain "element" [("name", "note"), ("default", "none")] [],
              .plain "element" [("name", "mark")] []]],
          .plain "element" [("name", "cover"), ("minOccurs", "0"), ("maxOccurs", "unbounded")] []],
        .plain "attribute" [("name", "year"), ("default", "1970")] [],
        .plain "attributeGroup" [("ref", "rights")] []]],
    .plain "attributeGroup" [("name", "rights")] [
      .plain "attribute" [("name", "owner")] []]]) []

def sidesSettings : Settings := ⟨.template, .first, 8, "module"⟩

def newAlbum : Xml.Document :=
  .ofRoots (.plain "album" [("year", "1970")] [
    .leaf "title" "Untitled",
    .plain "track" [] [], .plain "track" [] [], .leaf "note" "none",
    .plain "track" [] [], .plain "track" [] [], .leaf "note" "none",
    .plain "cover" [] []]) []

theorem newAlbum_reopens :
    (Schema.given sidesDocument).Reopenable ∧
      ∃ forms, compileForm (Schema.given sidesDocument) sidesSettings none none = .ok forms ∧
        forms.root.WrittenAs newAlbum.root ∧
        ∃ reopened, compileForm (Schema.given sidesDocument) sidesSettings none (some newAlbum) =
            .ok reopened ∧
          reopened.root.toJson = forms.root.toJson ∧ reopened.root.Unremarked ∧
          reopened.surplus = [] := by
  have hcompiles : (compileForm (Schema.given sidesDocument) sidesSettings none none).toOption.any
      (fun forms => Form.isWrittenAs 8 forms.root newAlbum.root) = true := by decide +kernel
  obtain ⟨forms, hforms, hcheck⟩ := exists_of_checked hcompiles
  have hreopenable : (Schema.given sidesDocument).Reopenable :=
    Schema.reopenable_of_isReopenable (by decide +kernel)
  have hwritten := Form.writtenAs_of_isWrittenAs hcheck
  exact ⟨hreopenable, forms, hforms, hwritten,
    compileForm_reopens (Schema.ofDocument_eq_given (by decide +kernel)) hreopenable hforms rfl
      hwritten⟩

/-- Over what is written for a form the same form is compiled, but for the messages about the
instance that it was compiled from. -/
theorem compileForm_reopens_instance {source : Xml.Document} {schema : Schema}
    (hschema : Schema.ofDocument source = .ok schema) (hreopenable : schema.Reopenable)
    {settings : Settings} {name : Option String} {existing : Option Xml.Document}
    {forms : RootForms} (hforms : compileForm schema settings name existing = .ok forms)
    {document : Xml.Document} (hsingle : document.others = [])
    (hwritten : forms.root.WrittenAs document.root) :
    ∃ reopened, compileForm schema settings name (some document) = .ok reopened ∧
      reopened.root.without [OptionKey.mismatch] = forms.root.without [OptionKey.mismatch] ∧
      (forms.root.Unremarked →
        reopened.root.toJson = forms.root.toJson ∧ reopened.root.Unremarked) ∧
      reopened.surplus = [] := by
  obtain ⟨again, hcompiled, hagain⟩ :=
    compileForm_reopenedAs hschema hreopenable hforms hsingle hwritten
  exact ⟨_, hcompiled, hagain.without_eq.symm, hagain.toJson_eq, rfl⟩

def labelledAlbum : Xml.Document :=
  .ofRoots (.plain "album" [("owner", "Ada")] [
    .leaf "title" "Songs",
    .leaf "track" "one", .leaf "mark" "kept",
    .leaf "track" "two", .leaf "track" "three",
    .leaf "label" "unknown"]) []

def completedAlbum : Xml.Document :=
  .ofRoots (.plain "album" [("owner", "Ada")] [
    .leaf "title" "Songs",
    .leaf "track" "one", .plain "track" [] [], .leaf "mark" "kept",
    .leaf "track" "two", .leaf "track" "three", .leaf "note" "none"]) []

theorem labelledAlbum_reopens :
    (Schema.given sidesDocument).Reopenable ∧
      ∃ forms, compileForm (Schema.given sidesDocument) sidesSettings none (some labelledAlbum) =
          .ok forms ∧
        forms.root.label.options.mismatch? =
          some "<album> contains unexpected element <label>" ∧
        forms.root.WrittenAs completedAlbum.root ∧
        ∃ reopened, compileForm (Schema.given sidesDocument) sidesSettings none
            (some completedAlbum) = .ok reopened ∧
          reopened.root.without [OptionKey.mismatch] = forms.root.without [OptionKey.mismatch] ∧
          (forms.root.Unremarked →
            reopened.root.toJson = forms.root.toJson ∧ reopened.root.Unremarked) ∧
          reopened.surplus = [] := by
  have hcompiles : (compileForm (Schema.given sidesDocument) sidesSettings none
      (some labelledAlbum)).toOption.any (fun forms =>
        forms.root.label.options.mismatch? ==
            some "<album> contains unexpected element <label>" &&
          Form.isWrittenAs 8 forms.root completedAlbum.root) = true := by decide +kernel
  obtain ⟨forms, hforms, hcheck⟩ := exists_of_checked hcompiles
  rw [Bool.and_eq_true, beq_iff_eq] at hcheck
  have hreopenable : (Schema.given sidesDocument).Reopenable :=
    Schema.reopenable_of_isReopenable (by decide +kernel)
  have hwritten := Form.writtenAs_of_isWrittenAs hcheck.2
  exact ⟨hreopenable, forms, hforms, hcheck.1, hwritten,
    compileForm_reopens_instance (Schema.ofDocument_eq_given (by decide +kernel)) hreopenable
      hforms rfl hwritten⟩

def looseSidesDocument : Xml.Document :=
  .ofRoots (.plain "schema" [] [
    .plain "element" [("name", "album")] [
      .plain "complexType" [] [
        .plain "sequence" [("minOccurs", "2"), ("maxOccurs", "2")] [
          .plain "element" [("name", "track"), ("maxOccurs", "2")] []]]]]) []

def emptyAlbum : Xml.Document := .ofRoots (.plain "album" [] []) []

def twoTracks : Xml.Document :=
  .ofRoots (.plain "album" [] [.plain "track" [] [], .plain "track" [] []]) []

/-- If the number of tracks is not fixed, the first side takes the track that was written for
the second one, which gets another: the form of an empty album grows when it is reopened. -/
theorem emptyAlbum_grows :
    (Schema.given looseSidesDocument).NamesUnique ∧
      ∃ forms, compileForm (Schema.given looseSidesDocument) .default none (some emptyAlbum) =
          .ok forms ∧
        forms.root.WrittenAs twoTracks.root ∧ forms.root.content.length = 2 ∧
        ∃ reopened, compileForm (Schema.given looseSidesDocument) .default none (some twoTracks) =
            .ok reopened ∧
          reopened.root.content.length = 3 := by
  have hcompiles : (compileForm (Schema.given looseSidesDocument) .default none
      (some emptyAlbum)).toOption.any (fun forms =>
        Form.isWrittenAs 4 forms.root twoTracks.root && forms.root.content.length == 2) = true := by
    decide +kernel
  have hreopens : (compileForm (Schema.given looseSidesDocument) .default none
      (some twoTracks)).toOption.any (fun forms => forms.root.content.length == 3) = true := by
    decide +kernel
  obtain ⟨forms, hforms, hcheck⟩ := exists_of_checked hcompiles
  obtain ⟨reopened, hreopened, hlength⟩ := exists_of_checked hreopens
  rw [Bool.and_eq_true, beq_iff_eq] at hcheck
  exact ⟨Schema.namesUnique_of_namesDiffer (by decide +kernel), forms, hforms,
    Form.writtenAs_of_isWrittenAs hcheck.1, hcheck.2, reopened, hreopened, by simpa using hlength⟩

end SchemaForms
