import SchemaForms.Compile.Request
import SchemaForms.Proofs.FreshRuns

/-!
# Template copies

The placeholder setting adds one copy of an optional element without a maximum
where a form has none otherwise. A form that can be compiled without these
copies can be compiled with them, unless the content of a copy cannot be
compiled in its place.
-/

namespace SchemaForms

/-! ## Attributes do not depend on the placeholder -/

def Context.plain (context : Context) : Context :=
  { context with settings := { context.settings with placeholder := .none } }

@[simp] theorem encloses_plain (context : Context) (definition : Xml.Element) :
    context.plain.encloses definition = context.encloses definition := rfl

theorem ofParticle_plain (context : Context) (node : Xml.Element) :
    Declaration.ofParticle context.plain.schema context.plain.settings node =
      Declaration.ofParticle context.schema context.settings node := rfl

theorem buildAttribute_canSucceed {context : Context} {use : Xml.Element} {path : String}
    {occurrence : Option Xml.Element} (huse : useOf use ≠ "prohibited")
    (h : (buildAttribute context use path occurrence).CanSucceed) :
    ∃ declared, declaredAttribute context.schema use = .ok declared := by
  rw [buildAttribute, if_neg huse] at h
  obtain ⟨declared, hdeclared, -⟩ := h.of_ofFault
  exact ⟨declared, hdeclared⟩

theorem not_attributeEntry_fails_of_plain {levels : Nat} (context : Context)
    {entry : Xml.Element} {path path' : String} {state : BuildState} {fault : SchemaFault}
    (hplain : (buildAttributeEntry (levelBelow levels) context.plain entry path
      none).CanSucceed) :
    ¬(buildAttributeEntry (levelBelow levels) context entry path' none).Fails state fault := by
  induction levels generalizing context entry state with
  | zero =>
      intro h
      rcases buildAttributeEntry_fails (levelBelow_attributesOnly 0) h with
        ⟨hname, huse, h⟩ | ⟨hname, h⟩
      · rw [buildAttributeEntry_of_attribute hname] at hplain
        obtain ⟨declared, hdeclared⟩ := buildAttribute_canSucceed huse hplain
        exact absurd (hdeclared.symm.trans h) (by simp)
      · rw [buildAttributeEntry_of_group hname] at hplain
        obtain ⟨definition, -, hplain⟩ := hplain.of_ofFault
        obtain ⟨⟨inner, level⟩, henter, -⟩ := hplain.of_ofFault
        cases (Context.enter_eq_ok.mp henter).2.1
  | succ levels ih =>
      intro h
      rcases buildAttributeEntry_fails (levelBelow_attributesOnly (levels + 1)) h with
        ⟨hname, huse, h⟩ | ⟨hname, h⟩
      · rw [buildAttributeEntry_of_attribute hname] at hplain
        obtain ⟨declared, hdeclared⟩ := buildAttribute_canSucceed huse hplain
        exact absurd (hdeclared.symm.trans h) (by simp)
      rw [buildAttributeEntry_of_group hname] at hplain
      obtain ⟨definition, hdefinition, hplain⟩ := hplain.of_ofFault
      obtain ⟨⟨inner, level⟩, henter, hplain⟩ := hplain.of_ofFault
      obtain ⟨hfree, hlevel, rfl⟩ := Context.enter_eq_ok.mp henter
      obtain ⟨_, hleft, rfl⟩ := mem_levelBelow hlevel
      cases hleft
      have hchildren := hplain.of_all fun build hbuild => by
        obtain ⟨child, -, rfl⟩ := List.mem_map.mp hbuild
        exact .of_attributesOnly (levelBelow_attributesOnly (levels + 1) _ rfl _ _ _ _)
      rcases h with h | ⟨found, hfound, h⟩
      · exact absurd (hdefinition.symm.trans h) (by simp)
      obtain rfl : definition = found := Except.ok.inj (hdefinition.symm.trans hfound)
      rcases h with h | ⟨-, level, hlevel, child, hchild, h⟩
      · rcases Context.enter_eq_error.mp h with ⟨-, hencloses, -⟩ | ⟨-, hdeeper, -⟩
        · exact absurd (hfree.resolve_left (by simp)) (by simp [hencloses])
        · cases hdeeper
      · obtain ⟨_, hleft, rfl⟩ := mem_levelBelow hlevel
        cases hleft
        exact ih _ (hchildren _ (List.mem_map_of_mem hchild)) h

/-! ## The copies that a form would be compiled with -/

/-- Without an instance, the compilation of a global element comes to the particle in
that context, with so many levels left and for at least so many nodes. -/
inductive Visited (schema : Schema) (settings : Settings) (root : Xml.Element) :
    Context → Nat → Nat → Particle → Prop
  | root : Visited schema settings root (.start schema settings) settings.maxDepth 1
      (.element root .single)
  | member {context : Context} {levels atLeast : Nat} {compositor : Compositor}
      {node : Xml.Element} {bounds : Bounds} {members : List Particle} {member : Particle} :
      Visited schema settings root context (levels + 1) atLeast (.group compositor node bounds) →
      bounds.max ≠ .count 0 → context.encloses node = false →
      Particle.members schema node = .ok members → member ∈ members →
      Visited schema settings root (context.insideGroup node bounds) levels
        compositor.memberCount member
  | item {context : Context} {levels atLeast : Nat} {node definition item : Xml.Element}
      {bounds : Bounds} {declaration : Declaration} {particle : Particle} :
      Visited schema settings root context (levels + 1) atLeast (.element node bounds) →
      Declaration.ofParticle schema settings node = .ok declaration →
      declaration.content = .complex definition →
      0 < copiesWithoutInstance context declaration bounds (bounds.max.cap atLeast) →
      context.encloses definition = false →
      item ∈ definition.elements → item.name ∈ modelItems →
      Particle.ofElement? schema item = .ok (some particle) →
      Visited schema settings root (context.insideType definition) levels 0 particle

/-- The compilation of a global element with template copies comes to an optional
element without a maximum, whose type it is not inside of, and the content of the
copy fails in this place. -/
structure TemplateCopyFails (schema : Schema) (settings : Settings) (root : Xml.Element)
    (fault : SchemaFault) : Prop where
  copy : ∃ context levels node bounds declaration definition,
    Visited schema settings root context levels 0 (.element node bounds) ∧
      bounds.min = 0 ∧ bounds.max = .unbounded ∧
      Declaration.ofParticle schema settings node = .ok declaration ∧
      declaration.content = .complex definition ∧ context.encloses definition = false ∧
      ContentFails (levelBelow levels) context declaration none fault

theorem Visited.same {schema : Schema} {settings : Settings} {root : Xml.Element}
    {context : Context} {levels atLeast : Nat} {particle : Particle}
    (h : Visited schema settings root context levels atLeast particle) :
    context.schema = schema ∧ context.settings = settings := by
  induction h with
  | root => exact ⟨rfl, rfl⟩
  | member _ _ _ _ _ ih => exact ih
  | item _ _ _ _ _ _ _ _ ih => exact ih

/-- If only the placeholder makes a copy, it is the copy of an optional element
without a maximum, and the element is no alternative of a choice. -/
theorem bounds_of_template_copy {context : Context} {declaration : Declaration}
    {bounds : Bounds} {atLeast : Nat}
    (hplain : copiesWithoutInstance context.plain declaration bounds
      (bounds.max.cap atLeast) = 0)
    (hcopy : 0 < copiesWithoutInstance context declaration bounds (bounds.max.cap atLeast)) :
    bounds.min = 0 ∧ bounds.max = .unbounded ∧ atLeast = 0 ∧
      ∀ definition, declaration.content = .complex definition →
        context.encloses definition = false := by
  have hencloses : ∀ definition, declaration.content = .complex definition →
      ¬(bounds.min = 0 ∧ context.encloses definition = true) := by
    intro definition hcontent hin
    simp [copiesWithoutInstance, hcontent, hin.1, hin.2] at hcopy
  have hsame : copiesWithoutInstance context.plain declaration bounds (bounds.max.cap atLeast) =
      max bounds.min (bounds.max.cap atLeast) := by
    have hcount : initialCount bounds context.plain.settings.placeholder = bounds.min := by
      simp [initialCount, Context.plain]
    cases hcontent : declaration.content with
    | simple => simp only [copiesWithoutInstance, hcontent, hcount]
    | complex definition =>
        have hout : (decide (bounds.min = 0) && context.plain.encloses definition) = false := by
          rw [Bool.and_eq_false_iff]
          by_cases hmin : bounds.min = 0
          · exact .inr (by simpa [hmin] using hencloses definition hcontent)
          · exact .inl (by simpa using hmin)
        simp only [copiesWithoutInstance, hcontent, hcount, hout]
        rfl
  rw [hsame] at hplain
  have hmin : bounds.min = 0 := by omega
  have hcap : bounds.max.cap atLeast = 0 := by omega
  have hmax : bounds.max = .unbounded := by
    by_contra hbounded
    have hcount : initialCount bounds context.settings.placeholder = 0 := by
      simp [initialCount, hbounded, hmin]
    have hzero : copiesWithoutInstance context declaration bounds (bounds.max.cap atLeast) = 0 := by
      unfold copiesWithoutInstance
      rw [hcount, hcap]
      cases declaration.content <;> simp
    omega
  refine ⟨hmin, hmax, by simpa [hmax, MaxOccurs.cap] using hcap, fun definition hcontent => ?_⟩
  simpa [hmin] using hencloses definition hcontent

section

variable {schema : Schema} {settings : Settings} {root : Xml.Element} {fault : SchemaFault}

def PlainOrCopy (schema : Schema) (settings : Settings) (root : Xml.Element)
    (fault : SchemaFault) (levels : Nat) : Prop :=
  ∀ (context : Context) (atLeast : Nat) (particle : Particle) (path path' : String),
    Visited schema settings root context levels atLeast particle →
    (buildParticle (levelBelow levels) context.plain atLeast particle path).CanSucceed →
    (buildParticle (levelBelow levels) context atLeast particle path').CanFail fault →
    TemplateCopyFails schema settings root fault

theorem templateCopyFails_of_content {levels : Nat}
    (hbelow : ∀ left, levels = left + 1 → PlainOrCopy schema settings root fault left)
    {context : Context} {atLeast : Nat} {node : Xml.Element} {bounds : Bounds}
    (hvisited : Visited schema settings root context levels atLeast (.element node bounds))
    {declaration : Declaration}
    (hdeclaration : Declaration.ofParticle schema settings node = .ok declaration)
    (hcopies : 0 < copiesWithoutInstance context declaration bounds (bounds.max.cap atLeast))
    {path : String} {content : ComplexContent}
    (hplain : elementContent (levelBelow levels) context.plain declaration path none =
      .ok content)
    (hfails : ContentFails (levelBelow levels) context declaration none fault) :
    TemplateCopyFails schema settings root fault := by
  obtain ⟨definition, hcontent, hfails⟩ := hfails.cases (levelBelow_advancing levels)
    (levelBelow_attributesOnly levels)
  rcases elementContent_eq_ok.mp hplain with ⟨hsimple, -⟩ |
    ⟨other, level, children, after, hother, hlevel, hfree, hitems, -⟩
  · rw [hcontent] at hsimple
    cases hsimple
  rw [hcontent] at hother
  cases hother
  have hfree : context.encloses definition = false := hfree.resolve_left (by simp)
  obtain ⟨left, rfl, rfl⟩ := mem_levelBelow hlevel
  rcases hfails with h | ⟨-, level, hlevel, item, hitem, path', middle, hmiddle, h⟩
  · rcases Context.enter_eq_error.mp h with ⟨-, hencloses, -⟩ | ⟨-, hdeeper, -⟩
    · rw [hfree] at hencloses
      cases hencloses
    · cases hdeeper
  obtain ⟨_, hleft, rfl⟩ := mem_levelBelow hlevel
  cases hleft
  have hcursor : middle.cursor = none := hmiddle.none rfl
  have hattributes := levelBelow_attributesOnly (left + 1) _ (levelBelow_succ left)
  have hadvancing := levelBelow_advancing (left + 1) _ (levelBelow_succ left)
  have hall : (buildItems ⟨buildParticle (levelBelow left), buildAttributeEntry (levelBelow left)⟩
      (context.plain.insideType definition) definition path none).CanSucceed :=
    ⟨_, _, _, rfl, hitems⟩
  have hplainItem := hall.of_all (fun build hbuild => by
    obtain ⟨item, -, rfl⟩ := List.mem_map.mp hbuild
    exact buildItem_advancing hadvancing hattributes _ _ _ _) _ (List.mem_map_of_mem hitem)
  rcases buildItem_fails hattributes h with ⟨hmodel, h⟩ | ⟨particle, hparticle, hmodel, h⟩ |
    ⟨entry, hentry, hattribute⟩ | ⟨hunsupported, -⟩
  · rw [buildItem_of_model hmodel] at hplainItem
    obtain ⟨found, hfound, -⟩ := hplainItem.of_ofFault
    exact absurd (hfound.symm.trans h) (by simp)
  · rw [buildItem_of_model hmodel] at hplainItem
    obtain ⟨found, hfound, hplainItem⟩ := hplainItem.of_ofFault
    obtain rfl : some particle = found := Except.ok.inj (hparticle.symm.trans hfound)
    have hschema : (context.insideType definition).schema = schema := hvisited.same.1
    rw [hschema] at hparticle
    exact hbelow left rfl (context.insideType definition) _ _ path path'
      (.item hvisited hdeclaration hcontent hcopies hfree hitem hmodel hparticle)
      hplainItem ⟨middle, hcursor, h⟩
  · exfalso
    rcases hentry with ⟨hname, rfl⟩ | ⟨hname, derivation, hderivation, hin⟩
    · rw [buildItem_of_attribute hname] at hplainItem
      exact not_attributeEntry_fails_of_plain (context.insideType definition) hplainItem
        hattribute
    · rw [buildItem_of_simpleContent hname] at hplainItem
      have hentries := hplainItem.of_all fun build hbuild => by
        obtain ⟨derivation, -, hbuild⟩ := List.mem_flatMap.mp hbuild
        obtain ⟨child, -, rfl⟩ := List.mem_map.mp hbuild
        exact .of_attributesOnly (hattributes _ _ _ _)
      exact not_attributeEntry_fails_of_plain (context.insideType definition)
        (hentries _ (List.mem_flatMap.mpr ⟨derivation, hderivation, List.mem_map_of_mem hin⟩))
        hattribute
  · rw [buildItem_of_unsupported hunsupported] at hplainItem
    obtain ⟨state, forms, after, -, hrun⟩ := hplainItem
    cases hrun

theorem templateCopyFails_of_element {levels : Nat}
    (hbelow : ∀ left, levels = left + 1 → PlainOrCopy schema settings root fault left)
    {context : Context} {atLeast : Nat} {node : Xml.Element} {bounds : Bounds}
    {path path' : String}
    (hvisited : Visited schema settings root context levels atLeast (.element node bounds))
    (hplain : (buildElement (levelBelow levels) context.plain node bounds atLeast
      path).CanSucceed)
    (hfails : (buildElement (levelBelow levels) context node bounds atLeast path').CanFail
      fault) :
    TemplateCopyFails schema settings root fault := by
  obtain ⟨state, forms, after, hcursor, hrun⟩ := hplain
  obtain ⟨failing, hfailing, hfails⟩ := hfails
  obtain ⟨declaration, hdeclaration, hrun⟩ := buildElement_eq_ok.mp hrun
  rw [ofParticle_plain] at hdeclaration
  rcases buildElement_fails hfails with h | ⟨found, hfound, h⟩
  · exact absurd (hdeclaration.symm.trans h) (by simp)
  obtain rfl : declaration = found := Except.ok.inj (hdeclaration.symm.trans hfound)
  rw [hvisited.same.1, hvisited.same.2] at hdeclaration
  rcases h with ⟨-, hcopies, h⟩ | ⟨cursor, hsome, -⟩
  · obtain ⟨hlength, -, hall⟩ := buildDeclared_eq_ok_of_none hcursor hrun
    -- If there is no copy without the setting, then this is the template copy. If there is
    -- one, its content can be compiled, and the failure is deeper.
    rcases Nat.eq_zero_or_pos forms.length with hzero | hpos
    · obtain ⟨hmin, hmax, rfl, hfree⟩ := bounds_of_template_copy (hlength ▸ hzero) hcopies
      obtain ⟨definition, hcontent, -⟩ := h.cases (levelBelow_advancing levels)
        (levelBelow_attributesOnly levels)
      exact ⟨context, levels, node, bounds, declaration, definition, hvisited, hmin, hmax,
        hdeclaration, hcontent, hfree definition hcontent, h⟩
    · obtain ⟨form, hform⟩ := List.exists_mem_of_length_pos hpos
      obtain ⟨place, content, hcontent, -⟩ := hall form hform
      exact templateCopyFails_of_content hbelow hvisited hdeclaration hcopies hcontent h
  · rw [hfailing] at hsome
    cases hsome

theorem templateCopyFails_of_group {levels : Nat}
    (hbelow : ∀ left, levels = left + 1 → PlainOrCopy schema settings root fault left)
    {context : Context} {atLeast : Nat} {compositor : Compositor} {node : Xml.Element}
    {bounds : Bounds} {path path' : String}
    (hvisited : Visited schema settings root context levels atLeast
      (.group compositor node bounds))
    (hplain : (buildGroup (levelBelow levels) context.plain compositor node bounds
      path).CanSucceed)
    (hfails : (buildGroup (levelBelow levels) context compositor node bounds path').CanFail
      fault) :
    TemplateCopyFails schema settings root fault := by
  obtain ⟨failing, hfailing, hfails⟩ := hfails
  obtain ⟨level, members, hlevel, hfree, hmembers, hplain⟩ :=
    buildGroup_canSucceed (levelBelow_advancing levels) hplain
  obtain ⟨left, rfl, rfl⟩ := mem_levelBelow hlevel
  rcases buildGroup_fails (levelBelow_advancing _) hfails with h | ⟨-, level, hlevel, h⟩
  · rcases Context.enter_eq_error.mp h with ⟨-, hencloses, -⟩ | ⟨-, hdeeper, -⟩
    · cases hfree.symm.trans hencloses
    · cases hdeeper
  obtain ⟨_, hleft, rfl⟩ := mem_levelBelow hlevel
  cases hleft
  rcases h with h | ⟨hmax, ⟨hsome, -⟩ | ⟨found, hfound, -, middle, hmiddle, h⟩⟩
  · exact absurd (hmembers.symm.trans h) (by simp)
  · rw [hfailing] at hsome
    cases hsome
  obtain rfl : members = found := Except.ok.inj (hmembers.symm.trans hfound)
  have hmiddle : middle.cursor = none := hmiddle.none hfailing
  rcases buildMembers_fails (levelBelow_advancing (left + 1) _ (levelBelow_succ left)) h with
    ⟨hsome, -⟩ | ⟨member, hmember, last, hlast, h⟩
  · rw [hmiddle] at hsome
    cases hsome
  have hlast : last.cursor = none := by
    rcases hlast with hlast | hlast
    · exact hlast.none hmiddle
    · exact hlast
  have hschema : context.schema = schema := hvisited.same.1
  have hmembers : Particle.members schema node = .ok members := hschema ▸ hmembers
  exact hbelow left rfl (context.insideGroup node bounds) _ _ path path'
    (.member hvisited hmax hfree hmembers hmember) (hplain hmax member hmember) ⟨last, hlast, h⟩

theorem templateCopyFails_of_particle {levels : Nat}
    (hbelow : ∀ left, levels = left + 1 → PlainOrCopy schema settings root fault left)
    {context : Context} {atLeast : Nat} {particle : Particle} {path path' : String}
    (hvisited : Visited schema settings root context levels atLeast particle)
    (hplain : (buildParticle (levelBelow levels) context.plain atLeast particle
      path).CanSucceed)
    (hfails : (buildParticle (levelBelow levels) context atLeast particle path').CanFail
      fault) :
    TemplateCopyFails schema settings root fault := by
  cases particle with
  | element node bounds => exact templateCopyFails_of_element hbelow hvisited hplain hfails
  | group compositor node bounds => exact templateCopyFails_of_group hbelow hvisited hplain hfails
  | attributeUse node =>
      obtain ⟨state, forms, after, hcursor, hrun⟩ := hplain
      obtain ⟨failing, -, hfails⟩ := hfails
      obtain ⟨huse, herror⟩ := buildAttribute_fails hfails
      obtain ⟨declared, hdeclared⟩ :=
        buildAttribute_canSucceed huse ⟨state, forms, after, hcursor, hrun⟩
      exact absurd (hdeclared.symm.trans herror) (by simp)

theorem plainOrCopy_all (levels : Nat) : PlainOrCopy schema settings root fault levels := by
  induction levels with
  | zero =>
      intro context atLeast particle path path' hvisited hplain hfails
      exact templateCopyFails_of_particle (fun left h => by cases h) hvisited hplain hfails
  | succ levels ih =>
      intro context atLeast particle path path' hvisited hplain hfails
      refine templateCopyFails_of_particle (fun left h => ?_) hvisited hplain hfails
      cases h
      exact ih

end

/-! ## Whole forms -/

theorem root_fails_of_compileForm {schema : Schema} {settings : Settings} {name : Option String}
    {root : Xml.Element} (hroot : schema.selectGlobal name = .ok root) {failure : Failure}
    (hfailure : compileForm schema settings name none = .error failure) :
    (buildParticle (levelBelow settings.maxDepth) (.start schema settings) 1
        (.element root .single) "").CanFail failure.error.fault ∨
      failure.error.fault = .noGlobals ∧ ∃ after, buildAtTop schema settings 1
        (.element root .single) "" none = .ok ([], after) := by
  rw [compileForm, hroot] at hfailure
  simp only [Option.map_none] at hfailure
  split at hfailure
  · rename_i found hbuild
    cases hfailure
    exact .inl ⟨_, rfl, failure, hbuild, rfl⟩
  · cases hfailure
  · rename_i after hbuild
    cases hfailure
    exact .inr ⟨rfl, after, hbuild⟩

theorem buildAtTop_ne_nil {schema : Schema} {settings : Settings} {root : Xml.Element}
    {path : String} {parent : Option Xml.Element} {after : BuildState} :
    buildAtTop schema settings 1 (.element root .single) path parent ≠ .ok ([], after) := by
  intro hrun
  obtain ⟨declaration, -, hrun⟩ := buildElement_eq_ok.mp hrun
  cases parent with
  | none =>
      obtain ⟨hlength, -, -⟩ := buildDeclared_eq_ok_of_none rfl hrun
      simp [copiesWithoutInstance, Bounds.single, initialCount, MaxOccurs.cap, Context.encloses,
        Context.start] at hlength
      split at hlength <;> cases hlength
  | some parent =>
      obtain ⟨made, copies, hforms, hmade, hcopies, -, -⟩ := buildDeclared_eq_ok_of_some rfl hrun
      obtain ⟨rfl, rfl⟩ := List.append_eq_nil_iff.mp hforms.symm
      have htaken := hmade.length_eq
      rw [List.length_zipIdx, List.length_nil] at htaken
      rw [htaken] at hcopies
      cases hcopies

/-- Whatever can be compiled without template copies can be compiled with them, or
the content of a template copy fails, with the error of the whole compilation. -/
theorem compileForm_template_of_none {schema : Schema} {settings : Settings}
    {name : Option String} {forms : RootForms}
    (hplain : compileForm schema { settings with placeholder := .none } name none = .ok forms) :
    (∃ others, compileForm schema { settings with placeholder := .template } name none =
      .ok others) ∨
    ∃ root fault, schema.selectGlobal name = .ok root ∧
      faultOf (compileForm schema { settings with placeholder := .template } name none) =
        some fault ∧
      TemplateCopyFails schema { settings with placeholder := .template } root fault := by
  obtain ⟨root, made, after, hroot, hrun, -⟩ := compileForm_eq_ok hplain
  cases htemplate : compileForm schema { settings with placeholder := .template } name none with
  | ok others => exact .inl ⟨others, rfl⟩
  | error failure =>
      refine .inr ⟨root, failure.error.fault, hroot, rfl, ?_⟩
      rcases root_fails_of_compileForm hroot htemplate with hfails | ⟨-, after, hbuild⟩
      · exact plainOrCopy_all settings.maxDepth (.start schema _) 1 (.element root .single) "" ""
          .root ⟨_, _, after, rfl, hrun⟩ hfails
      · exact absurd hbuild buildAtTop_ne_nil

def returningDocument : Xml.Document :=
  .ofRoots (.plain "schema" [] [
    .plain "element" [("name", "report"), ("type", "reportType")] [],
    .plain "complexType" [("name", "reportType")] [
      .plain "sequence" [] [
        .plain "element" [("name", "appendix"), ("type", "appendixType"), ("minOccurs", "0"),
          ("maxOccurs", "unbounded")] []]],
    .plain "complexType" [("name", "appendixType")] [
      .plain "sequence" [] [
        .plain "element" [("name", "report"), ("type", "reportType")] []]]]) []

theorem returning_template_of_none :
    (compileForm (Schema.given returningDocument) { Settings.default with placeholder := .none }
        none none).isOk = true ∧
      ∃ root fault, (Schema.given returningDocument).selectGlobal none = .ok root ∧
        faultOf (compileForm (Schema.given returningDocument)
          { Settings.default with placeholder := .template } none none) = some fault ∧
        TemplateCopyFails (Schema.given returningDocument)
          { Settings.default with placeholder := .template } root fault := by
  have hplain : (compileForm (Schema.given returningDocument)
      { Settings.default with placeholder := .none } none none).isOk = true := by decide +kernel
  refine ⟨hplain, ?_⟩
  cases hforms : compileForm (Schema.given returningDocument)
      { Settings.default with placeholder := .none } none none with
  | error failure =>
      rw [hforms] at hplain
      cases hplain
  | ok forms =>
      have hfails : (compileForm (Schema.given returningDocument)
          { Settings.default with placeholder := .template } none none).isOk = false := by
        decide +kernel
      rcases compileForm_template_of_none hforms with ⟨others, hothers⟩ | hcopy
      · rw [hothers] at hfails
        cases hfails
      · exact hcopy

/-- The template copy of the appendix would require a report inside of the report,
and the compilation ends with neither a form nor the depth limit. -/
theorem returning_template_is_circular :
    (compileForm (Schema.given returningDocument) { Settings.default with placeholder := .none }
        none none).isOk = true ∧
      faultOf (compileForm (Schema.given returningDocument)
        { Settings.default with placeholder := .template } none none) =
        some (.circularDefinition "complexType \"reportType\"") := by
  decide +kernel

end SchemaForms
