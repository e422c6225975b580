import Mathlib.Data.List.Perm.Subperm
import SchemaForms.Proofs.ContentModels
import SchemaForms.Proofs.FailingRuns

/-!
# Recursion over an instance

A definition may be entered inside of itself as long as elements of the instance
are taken in between. So a compilation over an instance finds a definition
circular only where it goes on without the instance: in an alternative that the
instance does not take, or in a copy of an element that the instance lacks.
-/

namespace SchemaForms

/-! ## References among groups -/

def Schema.Leads (schema : Schema) (step : Xml.Element → List Xml.Element)
    (first second : Xml.Element) : Prop :=
  schema.Owns first ∧ second ∈ step first

def Schema.Ends (schema : Schema) (step : Xml.Element → List Xml.Element) : Prop :=
  ∀ node, ¬Relation.TransGen (schema.Leads step) node node

/-- Steps that only lead to elements of a higher rank come to an end. -/
theorem Schema.ends_of_rank {schema : Schema} {step : Xml.Element → List Xml.Element}
    (rank : Xml.Element → Nat)
    (h : ∀ first ∈ schema.document.elements, ∀ second ∈ step first, rank first < rank second) :
    schema.Ends step := by
  have hrank : ∀ first second, Relation.TransGen (schema.Leads step) first second →
      rank first < rank second := by
    intro first second hleads
    induction hleads with
    | single hstep => exact h _ hstep.1 _ hstep.2
    | tail _ hstep ih => exact ih.trans (h _ hstep.1 _ hstep.2)
  exact fun node hcycle => absurd (hrank node node hcycle) (lt_irrefl _)

def Particle.group? : Particle → Option Xml.Element
  | .group _ node _ => some node
  | _ => none

def Schema.innerGroups (schema : Schema) (node : Xml.Element) : List Xml.Element :=
  match Particle.members schema node with
  | .ok members => members.filterMap Particle.group?
  | .error _ => []

def Schema.innerAttributeGroups (schema : Schema) (definition : Xml.Element) :
    List Xml.Element :=
  (definition.elementsNamed "attributeGroup").filterMap fun entry =>
    (Schema.followReference schema.attributeGroup entry).toOption

/-- No group refers to itself by references to groups alone, and no attribute group
does by references to attribute groups. -/
structure Schema.ReferencesEnd (schema : Schema) : Prop where
  groups : schema.Ends schema.innerGroups
  attributeGroups : schema.Ends schema.innerAttributeGroups

/-- The attribute group that an entry refers to leads to one that leads to itself. -/
def Schema.Circles (schema : Schema) (entry : Xml.Element) : Prop :=
  entry.name = "attributeGroup" ∧ ∃ target group,
    Schema.followReference schema.attributeGroup entry = .ok target ∧
      Relation.ReflTransGen (schema.Leads schema.innerAttributeGroups) target group ∧
      Relation.TransGen (schema.Leads schema.innerAttributeGroups) group group

section

variable {schema : Schema}

theorem Schema.leads_of_member {node inner : Xml.Element} (howns : schema.Owns node)
    {members : List Particle} (hmembers : Particle.members schema node = .ok members)
    {member : Particle} (hmember : member ∈ members) (hinner : member.group? = some inner) :
    schema.Leads schema.innerGroups node inner := by
  refine ⟨howns, ?_⟩
  simp only [innerGroups, hmembers]
  exact List.mem_filterMap.mpr ⟨member, hmember, hinner⟩

theorem Schema.leads_of_attributeGroup {definition entry target : Xml.Element}
    (howns : schema.Owns definition) (hentry : entry ∈ definition.elements)
    (hname : entry.name = "attributeGroup")
    (htarget : Schema.followReference schema.attributeGroup entry = .ok target) :
    schema.Leads schema.innerAttributeGroups definition target := by
  refine ⟨howns, List.mem_filterMap.mpr ⟨entry, ?_, by rw [htarget]; rfl⟩⟩
  exact List.mem_filter.mpr ⟨hentry, by simpa using hname⟩

theorem Schema.exists_entry_of_leads {definition target : Xml.Element}
    (h : schema.Leads schema.innerAttributeGroups definition target) :
    ∃ entry ∈ definition.elements, entry.name = "attributeGroup" ∧
      Schema.followReference schema.attributeGroup entry = .ok target := by
  obtain ⟨entry, hentry, htarget⟩ := List.mem_filterMap.mp h.2
  obtain ⟨hin, hname⟩ := List.mem_filter.mp hentry
  refine ⟨entry, hin, by simpa using hname, ?_⟩
  cases hfound : Schema.followReference schema.attributeGroup entry with
  | error fault =>
      rw [hfound] at htarget
      cases htarget
  | ok found =>
      rw [hfound] at htarget
      exact congrArg Except.ok (Option.some.inj htarget)

theorem Schema.Ends.not_circles (h : schema.Ends schema.innerAttributeGroups)
    (entry : Xml.Element) : ¬schema.Circles entry :=
  fun ⟨_, _, group, _, _, hcycle⟩ => h group hcycle

theorem Schema.Circles.of_child {entry definition child : Xml.Element}
    (h : schema.Circles child) (hname : entry.name = "attributeGroup")
    (hdefinition : Schema.followReference schema.attributeGroup entry = .ok definition)
    (howns : schema.Owns definition) (hchild : child ∈ definition.elements) :
    schema.Circles entry := by
  obtain ⟨hchildName, target, group, htarget, hway, hcycle⟩ := h
  exact ⟨hname, definition, group, hdefinition,
    .head (leads_of_attributeGroup howns hchild hchildName htarget) hway, hcycle⟩

theorem Schema.Circles.exists_child {entry definition : Xml.Element} (h : schema.Circles entry)
    (hdefinition : Schema.followReference schema.attributeGroup entry = .ok definition) :
    ∃ child ∈ definition.elements, schema.Circles child := by
  obtain ⟨-, target, group, htarget, hway, hcycle⟩ := h
  obtain rfl : definition = target := Except.ok.inj (hdefinition.symm.trans htarget)
  obtain ⟨next, hnext, hrest⟩ : ∃ next, schema.Leads schema.innerAttributeGroups definition next ∧
      Relation.ReflTransGen (schema.Leads schema.innerAttributeGroups) next group := by
    rcases Relation.ReflTransGen.cases_head hway with rfl | hfirst
    · exact Relation.TransGen.head'_iff.mp hcycle
    · exact hfirst
  obtain ⟨child, hchild, hname, hchildTarget⟩ := exists_entry_of_leads hnext
  exact ⟨child, hchild, hname, next, group, hchildTarget, hrest, hcycle⟩

/-! ## First names -/

structure OnSearch (schema : Schema) (fuel : Nat) (visiting : List Nat) (particle : Particle) :
    Prop where
  nodup : visiting.Nodup
  enough : schema.document.elements.length < visiting.length + fuel
  way : ∀ number ∈ visiting, ∃ outer, schema.Owns outer ∧ outer.number = number ∧
    ∀ node, particle.group? = some node →
      Relation.TransGen (schema.Leads schema.innerGroups) outer node

namespace OnSearch

theorem length_le {fuel : Nat} {visiting : List Nat} {particle : Particle}
    (h : OnSearch schema fuel visiting particle) :
    visiting.length ≤ schema.document.elements.length := by
  have hsubset : visiting ⊆ schema.document.elements.map Xml.Element.number := by
    intro number hnumber
    obtain ⟨outer, howns, rfl, -⟩ := h.way number hnumber
    exact List.mem_map_of_mem howns
  simpa using (List.subperm_of_subset h.nodup hsubset).length_le

variable {compositor : Compositor} {node : Xml.Element} {bounds : Bounds} {visiting : List Nat}

theorem not_mem {fuel : Nat} (h : OnSearch schema fuel visiting (.group compositor node bounds))
    (hends : schema.Ends schema.innerGroups) (howns : schema.Owns node) :
    node.number ∉ visiting := by
  intro hin
  obtain ⟨outer, houter, hnumber, hway⟩ := h.way _ hin
  obtain rfl := houter.eq_of_number_eq howns hnumber
  exact hends outer (hway outer rfl)

theorem member {fuel : Nat}
    (h : OnSearch schema (fuel + 1) visiting (.group compositor node bounds))
    (hends : schema.Ends schema.innerGroups) (howns : schema.Owns node)
    {members : List Particle} (hmembers : Particle.members schema node = .ok members)
    {member : Particle} (hmember : member ∈ members) :
    OnSearch schema fuel (node.number :: visiting) member := by
  refine ⟨List.nodup_cons.mpr ⟨h.not_mem hends howns, h.nodup⟩, ?_, fun number hnumber => ?_⟩
  · have henough := h.enough
    rw [List.length_cons]
    omega
  have hlast : ∀ inner, member.group? = some inner →
      schema.Leads schema.innerGroups node inner :=
    fun inner => Schema.leads_of_member howns hmembers hmember
  rcases List.mem_cons.mp hnumber with rfl | hnumber
  · exact ⟨node, howns, rfl, fun inner hinner => .single (hlast inner hinner)⟩
  · obtain ⟨outer, houter, hsame, hway⟩ := h.way number hnumber
    exact ⟨outer, houter, hsame, fun inner hinner => (hway node rfl).tail (hlast inner hinner)⟩

end OnSearch

theorem collectFirstNames_ne_circular (hgrounded : schema.Grounded)
    (hends : schema.Ends schema.innerGroups) {fuel : Nat} {visiting : List Nat}
    {particle : Particle} (hparticle : particle.OfSchema schema)
    (hsearch : OnSearch schema fuel visiting particle) (tags : List String)
    (definition : String) :
    collectFirstNames schema fuel visiting particle tags ≠
      .error (.circularDefinition definition) := by
  intro h
  induction fuel generalizing visiting particle tags with
  | zero =>
      have hlength := hsearch.length_le
      have henough := hsearch.enough
      omega
  | succ fuel ih =>
      cases particle with
      | element node bounds =>
          rcases bind_eq_error.mp h with h | ⟨name, -, h⟩
          · exact IsLocal.declaredName _ _ _ h trivial
          · cases h
      | attributeUse node => cases h
      | group compositor node bounds =>
          have hfree := hsearch.not_mem hends hparticle.1
          simp only [collectFirstNames] at h
          rw [if_neg (by simpa using hfree)] at h
          rcases bind_eq_error.mp h with h | ⟨members, hmembers, h⟩
          · exact IsLocal.membersOf _ _ _ h trivial
          obtain ⟨member, hmember, before, h⟩ := collectAll_eq_error h
          exact ih (Particle.members_ofSchema hgrounded hparticle.1 hmembers member hmember)
            (hsearch.member hends hparticle.1 hmembers hmember) before h

theorem firstNames_ne_circular (hgrounded : schema.Grounded)
    (hends : schema.Ends schema.innerGroups) {particle : Particle}
    (hparticle : particle.OfSchema schema) (definition : String) :
    firstNames schema particle ≠ .error (.circularDefinition definition) :=
  collectFirstNames_ne_circular hgrounded hends hparticle
    ⟨List.nodup_nil, by simp, by simp⟩ [] definition

/-! ## Attributes -/

def EntryInside (schema : Schema) (context : Context) (entry : Xml.Element) : Prop :=
  entry.name = "attributeGroup" → ∀ outer target, schema.Owns outer →
    outer.name = "attributeGroup" → context.encloses outer = true →
    Schema.followReference schema.attributeGroup entry = .ok target →
    Relation.TransGen (schema.Leads schema.innerAttributeGroups) outer target

theorem EntryInside.child {context : Context} {entry definition child : Xml.Element}
    (h : EntryInside schema context entry) (hname : entry.name = "attributeGroup")
    (hdefinition : Schema.followReference schema.attributeGroup entry = .ok definition)
    (howns : schema.Owns definition) (hchild : child ∈ definition.elements) :
    EntryInside schema (context.inside definition) child := by
  intro hchildName outer target houter hgroup hencloses htarget
  have hlast := Schema.leads_of_attributeGroup howns hchild hchildName htarget
  by_cases hsame : outer.number = definition.number
  · obtain rfl := houter.eq_of_number_eq howns hsame
    exact .single hlast
  · have hold : context.encloses outer = true := by
      simpa [Context.encloses, Context.inside, hsame] using hencloses
    exact (h hname outer definition houter hgroup hold hdefinition).tail hlast

theorem not_attributeEntry_fails_circular (hgrounded : schema.Grounded) {levels : Nat}
    {context : Context} (hschema : context.schema = schema) {entry : Xml.Element}
    (howns : schema.Owns entry) (hends : ¬schema.Circles entry)
    (hinside : EntryInside schema context entry) {path : String}
    {occurrence : Option Xml.Element} {state : BuildState} {definition : String} :
    ¬(buildAttributeEntry (levelBelow levels) context entry path occurrence).Fails state
      (.circularDefinition definition) := by
  intro h
  induction levels using Nat.strong_induction_on generalizing context entry with
  | _ levels ih =>
      rcases buildAttributeEntry_fails (levelBelow_attributesOnly levels) h with
        ⟨-, -, h⟩ | ⟨hname, h | ⟨target, htarget, h⟩⟩
      · exact IsLocal.declaredAttribute _ _ _ h trivial
      · exact IsLocal.followReference _ _ _ _ _ h trivial
      rw [hschema] at htarget
      have hgroup : schema.Owns target ∧ target.name = "attributeGroup" := by
        rcases Schema.followReference_eq_ok hgrounded htarget with hgroup | rfl
        · exact hgroup
        · exact ⟨howns, hname⟩
      rcases h with h | ⟨-, level, hlevel, child, hchild, h⟩
      · rcases Context.enter_eq_error.mp h with ⟨-, hencloses, -⟩ | ⟨-, -, hfault⟩
        · exact hends ⟨hname, target, target, htarget, .refl,
            hinside hname target target hgroup.1 hgroup.2 hencloses htarget⟩
        · cases hfault
      · obtain ⟨left, rfl, rfl⟩ := mem_levelBelow hlevel
        have hinner : (context.inside target).schema = schema := hschema
        exact ih left left.lt_succ_self hinner (hgroup.1.child hchild)
          (fun hcircles => hends (hcircles.of_child hname htarget hgroup.1 hchild))
          (hinside.child hname htarget hgroup.1 hchild) h

end

/-! ## The stages of a run over an instance -/

section

variable {schema : Schema} {settings : Settings}

structure Context.OutsideAttributes (context : Context) (schema : Schema) (settings : Settings) :
    Prop where
  sameSchema : context.schema = schema
  sameSettings : context.settings = settings
  outside : ∀ outer, schema.Owns outer → outer.name = "attributeGroup" →
    context.encloses outer = false

theorem Context.OutsideAttributes.enclosing {context : Context}
    (h : context.OutsideAttributes schema settings) {definition : Xml.Element}
    (howns : schema.Owns definition) (hname : definition.name ≠ "attributeGroup")
    {inner : Context} (hschema : inner.schema = context.schema)
    (hsettings : inner.settings = context.settings)
    (hinner : inner.enclosing = definition.number :: context.enclosing) :
    inner.OutsideAttributes schema settings := by
  refine ⟨hschema.trans h.sameSchema, hsettings.trans h.sameSettings, fun outer houter hgroup => ?_⟩
  have hother : outer.number ≠ definition.number := by
    intro hsame
    obtain rfl := houter.eq_of_number_eq howns hsame
    exact hname hgroup
  have hold := h.outside outer houter hgroup
  simpa [Context.encloses, hinner, hother] using hold

inductive Context.Entered (schema : Schema) (settings : Settings) : Context → Prop
  | start : Entered schema settings (.start schema settings)
  | type {context : Context} {definition : Xml.Element} : Entered schema settings context →
      schema.Owns definition → definition.name = "complexType" →
      Entered schema settings (context.insideType definition)
  | group {context : Context} {compositor : Compositor} {node : Xml.Element} {bounds : Bounds} :
      Entered schema settings context → schema.Owns node → node.name = compositor.label →
      Entered schema settings (context.insideGroup node bounds)

theorem Context.Entered.outsideAttributes {context : Context}
    (h : context.Entered schema settings) : context.OutsideAttributes schema settings := by
  induction h with
  | start => exact ⟨rfl, rfl, fun _ _ _ => rfl⟩
  | type _ howns hname ih => exact ih.enclosing howns (by rw [hname]; decide) rfl rfl rfl
  | @group context compositor node bounds _ howns hname ih =>
      refine ih.enclosing howns ?_ rfl rfl rfl
      rw [hname]
      cases compositor <;> decide

structure Stage.Within (schema : Schema) (settings : Settings) (stage : Stage) : Prop where
  editing : stage.state.cursor.isSome = true
  entered : stage.context.Entered schema settings
  ofSchema : stage.particle.OfSchema schema

theorem Stage.LeadsTo.levels_lt {stage inner : Stage} (h : stage.LeadsTo inner) :
    inner.levels < stage.levels := by
  cases h <;> exact Nat.lt_succ_self _

theorem Instantiates.member_ofSchema (hgrounded : schema.Grounded) {levels : Nat}
    {context : Context} {compositor : Compositor} {node : Xml.Element} {bounds : Bounds}
    {path : String} {members : List Particle} {state first : BuildState}
    (h : Instantiates levels context compositor node bounds path members state first)
    (hschema : context.schema = schema)
    (hgroup : (Particle.group compositor node bounds).OfSchema schema) {member : Particle}
    (hmember : member ∈ members) : member.OfSchema schema :=
  Particle.members_ofSchema hgrounded hgroup.1 (hschema ▸ h.known) member hmember

theorem Stage.LeadsTo.within (hgrounded : schema.Grounded) {stage inner : Stage}
    (h : stage.LeadsTo inner) (hstage : stage.Within schema settings) :
    inner.Within schema settings := by
  obtain ⟨hediting, hentered, hofSchema⟩ := hstage
  have hschema := hentered.outsideAttributes.sameSchema
  have hsettings := hentered.outsideAttributes.sameSettings
  cases h with
  | member hfirst hbefore =>
      have hadvances :=
        (buildMembers_advancing (innerLevel_advancing _) .sequence _).advances hbefore
      exact ⟨(hfirst.advances.trans hadvances).isSome.trans hediting,
        .group hentered hofSchema.1 hofSchema.2,
        hfirst.member_ofSchema hgrounded hschema hofSchema List.mem_append_cons_self⟩
  | alternative hfirst hmatched hbefore =>
      have hadvances :=
        (buildAlternativesBefore_advancing (innerLevel_advancing _) _ _ _).advances hbefore
      exact ⟨(hfirst.advances.trans hadvances).isSome.trans hediting,
        .group hentered hofSchema.1 hofSchema.2,
        hfirst.member_ofSchema hgrounded hschema hofSchema List.mem_append_cons_self⟩
  | item hdeclaration htakes hplace hcontent hitems hbefore hmodel hparticle =>
      rw [hschema, hsettings] at hdeclaration
      obtain ⟨howns, hname⟩ :=
        Declaration.owns_definition hgrounded hofSchema.1 hdeclaration hcontent
      have hadvances := (items_advancing (innerLevel_advancing _) (innerLevel_attributesOnly _) _ _
        _ _).advances hbefore
      exact ⟨hadvances.isSome, .type hentered howns hname, Particle.ofElement?_ofSchema hgrounded
        (howns.child (hitems ▸ List.mem_append_cons_self)) (hschema ▸ hparticle)⟩

theorem Stage.within_root {root : Xml.Element} (document : Xml.Document)
    (hroot : schema.Owns root ∧ root.name = "element") :
    (Stage.root schema settings root document).Within schema settings :=
  ⟨rfl, .start, hroot⟩

/-! ## Circular definitions -/

variable {definition : String} (hgrounded : schema.Grounded) (hends : schema.ReferencesEnd)
include hgrounded hends

theorem circular_of_occurrence {context : Context} {levels atLeast : Nat}
    {node occurrence : Xml.Element} {bounds : Bounds} {path : String} {state middle : BuildState}
    {declaration : Declaration} (hentered : context.Entered schema settings)
    (hnode : schema.Owns node)
    (hdeclaration : Declaration.ofParticle context.schema context.settings node = .ok declaration)
    (htakes : Takes (levelBelow levels) context declaration bounds path state occurrence middle)
    (h : (buildOccurrence (levelBelow levels) context declaration bounds path
      (some occurrence)).Fails middle (.circularDefinition definition)) :
    ∃ inner, Stage.LeadsTo ⟨context, levels, atLeast, .element node bounds, path, state⟩ inner ∧
      inner.Fails (.circularDefinition definition) := by
  have houtside := hentered.outsideAttributes
  cases levels with
  | zero =>
      obtain ⟨type, -, h | ⟨-, level, hlevel, -⟩⟩ :=
        elementContent_eq_error.mp (buildOccurrence_fails_iff.mp h)
      · rcases Context.enter_eq_error.mp h with ⟨hediting, -, -⟩ | ⟨-, -, hfault⟩
        · cases hediting
        · cases hfault
      · cases hlevel
  | succ levels =>
      obtain ⟨type, before, item, rest, last, hcontent, hitems, hbefore, h⟩ :=
        occurrence_fails_iff.mp h
      have hdeclared : Declaration.ofParticle schema settings node = .ok declaration := by
        rw [← houtside.sameSchema, ← houtside.sameSettings]
        exact hdeclaration
      obtain ⟨howns, htype⟩ := Declaration.owns_definition hgrounded hnode hdeclared hcontent
      have hitem : item ∈ type.elements := hitems ▸ List.mem_append_cons_self
      have hinner : (context.insideType type).OutsideAttributes schema settings :=
        houtside.enclosing howns (by rw [htype]; decide) rfl rfl rfl
      rcases buildItem_fails (innerLevel_attributesOnly levels) h with ⟨-, h⟩ |
        ⟨particle, hparticle, hmodel, h⟩ | ⟨entry, hentry, h⟩ | ⟨-, hfault⟩
      · exact absurd trivial (IsLocal.ofElement? _ _ _ h)
      · exact ⟨_, .item hdeclaration htakes rfl hcontent hitems hbefore hmodel hparticle, h⟩
      · have hentryOwns : schema.Owns entry := by
          rcases hentry with ⟨-, rfl⟩ | ⟨-, derivation, hderivation, hchild⟩
          · exact howns.child hitem
          · exact ((howns.child hitem).child hderivation).child hchild
        refine absurd h (not_attributeEntry_fails_circular hgrounded hinner.sameSchema hentryOwns
          (hends.attributeGroups.not_circles entry) ?_)
        intro _ outer _ houter hgroup hencloses
        rw [hinner.outside outer houter hgroup] at hencloses
        cases hencloses
      · cases hfault

/-- What is circular in a group over the instance is so in one of its members. -/
theorem circular_of_group {context : Context} {levels atLeast : Nat} {compositor : Compositor}
    {node : Xml.Element} {bounds : Bounds} {path : String} {state : BuildState}
    (hstage : Stage.Within schema settings
      ⟨context, levels, atLeast, .group compositor node bounds, path, state⟩)
    (h : (buildGroup (levelBelow levels) context compositor node bounds path).Fails state
      (.circularDefinition definition)) :
    Stage.FailsWithoutInstance (.circularDefinition definition)
        ⟨context, levels, atLeast, .group compositor node bounds, path, state⟩ ∨
      ∃ inner, Stage.LeadsTo ⟨context, levels, atLeast, .group compositor node bounds, path,
          state⟩ inner ∧ inner.Fails (.circularDefinition definition) := by
  obtain ⟨hediting, hentered, hgroup⟩ := hstage
  have hschema := hentered.outsideAttributes.sameSchema
  have hsearches : ∀ particle : Particle, particle.OfSchema schema →
      firstNames context.schema particle ≠ .error (.circularDefinition definition) := by
    intro particle hparticle
    rw [hschema]
    exact firstNames_ne_circular hgrounded hends.groups hparticle definition
  cases levels with
  | zero =>
      rcases buildGroup_fails_iff.mp h with h | ⟨-, level, hlevel, -⟩
      · rcases Context.enter_eq_error.mp h with ⟨hfresh, -, -⟩ | ⟨-, -, hfault⟩
        · cases hediting.symm.trans hfresh
        · cases hfault
      · cases hlevel
  | succ levels =>
      rcases (group_fails_iff hediting).mp h with h | ⟨members, -, -, h | ⟨first, hfirst, h⟩⟩
      · exact absurd trivial (IsLocal.membersOf _ _ _ h)
      · exact absurd h (hsearches _ hgroup)
      cases compositor with
      | sequence =>
          obtain ⟨before, member, rest, middle, rfl, hbefore, h⟩ := buildSequence_fails_iff.mp h
          exact .inr ⟨_, .member hfirst hbefore, h⟩
      | choice =>
          rcases buildChoice_fails_iff.mp h with h |
            ⟨matched, before, alternative, rest, middle, hmatched, rfl, hbefore, h⟩
          · obtain ⟨-, alternative, halternative, h⟩ := alternativeFor_eq_error h
            exact absurd h (hsearches _
              (hfirst.member_ofSchema hgrounded hschema hgroup halternative))
          by_cases hindex : matched = some before.length
          · subst hindex
            rw [if_pos rfl] at h
            exact .inr ⟨_, .alternative hfirst hmatched hbefore, h⟩
          · rw [if_neg hindex] at h
            exact .inl (.alternative hfirst hmatched hindex hbefore h)

theorem Stage.Within.circular {stage : Stage} (hstage : stage.Within schema settings)
    (h : stage.Fails (.circularDefinition definition)) :
    stage.FailsWithoutInstance (.circularDefinition definition) ∨
      ∃ inner, stage.LeadsTo inner ∧ inner.Fails (.circularDefinition definition) := by
  obtain ⟨context, levels, atLeast, particle, path, state⟩ := stage
  cases particle with
  | element node bounds =>
      rcases buildElement_fails_iff.mp h with h | ⟨declaration, hdeclaration, -⟩
      · exact absurd trivial (IsLocal.ofParticle _ _ _ _ h)
      rcases (element_fails_iff hstage.editing hdeclaration).mp h with
        ⟨occurrence, middle, htakes, h⟩ | ⟨last, hmisses, h⟩
      · exact .inr (circular_of_occurrence hgrounded hends hstage.entered hstage.ofSchema.1
          hdeclaration htakes h)
      · exact .inl (.copy hdeclaration hmisses h)
  | group compositor node bounds => exact circular_of_group hgrounded hends hstage h
  | attributeUse node =>
      exact absurd trivial (IsLocal.declaredAttribute _ _ _ (buildAttribute_fails h).2)

/-- A run over an instance is circular where it goes on without the instance. -/
theorem Stage.Within.exists_of_circular {stage : Stage} (hstage : stage.Within schema settings)
    (h : stage.Fails (.circularDefinition definition)) :
    ∃ last, Relation.ReflTransGen Stage.LeadsTo stage last ∧
      last.FailsWithoutInstance (.circularDefinition definition) := by
  induction hlevels : stage.levels using Nat.strong_induction_on generalizing stage with
  | _ levels ih =>
      rcases hstage.circular hgrounded hends h with h | ⟨inner, hinner, h⟩
      · exact ⟨stage, .refl, h⟩
      · obtain ⟨last, hlast, h⟩ := ih inner.levels (hlevels ▸ hinner.levels_lt)
          (hinner.within hgrounded hstage) h rfl
        exact ⟨last, .head hinner hlast, h⟩

end

/-- Over an instance, a definition is found circular where the compilation goes on without
the instance, and only there, if no group refers to itself by references to groups alone. -/
theorem compileForm_circular_iff {source : Xml.Document} {schema : Schema}
    (hschema : Schema.ofDocument source = .ok schema) (hends : schema.ReferencesEnd)
    (settings : Settings) (name : Option String) (document : Xml.Document)
    (definition : String) :
    faultOf (compileForm schema settings name (some document)) =
        some (.circularDefinition definition) ↔
      ∃ root stage, schema.selectGlobal name = .ok root ∧
        Relation.ReflTransGen Stage.LeadsTo (.root schema settings root document) stage ∧
        stage.FailsWithoutInstance (.circularDefinition definition) := by
  have hgrounded := Schema.grounded_of_ofDocument hschema
  constructor
  · intro h
    obtain ⟨failure, hfailure, hfault⟩ := faultOf_eq_some.mp h
    rcases compileForm_eq_error hfailure with h | ⟨root, hroot, h | h⟩
    · rw [hfault] at h
      exact absurd trivial (IsLocal.selectGlobal _ _ _ h)
    · rw [hfault] at h
      have hstage : (Stage.root schema settings root document).Within schema settings :=
        Stage.within_root document (Schema.selectGlobal_eq_ok hgrounded hroot)
      obtain ⟨stage, hleads, hfails⟩ := hstage.exists_of_circular hgrounded hends h
      exact ⟨root, stage, hroot, hleads, hfails⟩
    · rw [hfault] at h
      cases h
  · rintro ⟨root, stage, hroot, hleads, h⟩
    exact compileForm_fails hroot (Stage.fails_of_leads hleads h.fails)

def folderDocument : Xml.Document :=
  .ofRoots (.plain "schema" [] [
    .plain "element" [("name", "folder"), ("type", "folderType")] [],
    .plain "complexType" [("name", "folderType")] [
      .plain "choice" [] [
        .plain "element" [("name", "file")] [],
        .plain "element" [("name", "folder"), ("type", "folderType")] []]]]) []

def fileFolder : Xml.Document := .ofRoots (.plain "folder" [] [.plain "file" [] []]) []

theorem folders_referencesEnd : (Schema.given folderDocument).ReferencesEnd :=
  ⟨Schema.ends_of_rank Xml.Element.number (by decide +kernel),
    Schema.ends_of_rank Xml.Element.number (by decide +kernel)⟩

theorem fileFolder_failsWithoutInstance :
    (Schema.given folderDocument).ReferencesEnd ∧
      ∃ root stage, (Schema.given folderDocument).selectGlobal none = .ok root ∧
        Relation.ReflTransGen Stage.LeadsTo
          (.root (Schema.given folderDocument) .default root fileFolder) stage ∧
        stage.FailsWithoutInstance (.circularDefinition "complexType \"folderType\"") :=
  ⟨folders_referencesEnd,
    (compileForm_circular_iff (Schema.ofDocument_eq_given (by decide +kernel))
      folders_referencesEnd .default none fileFolder "complexType \"folderType\"").mp
      (by decide +kernel)⟩

/-- The file is all that a valid folder needs, but the other alternative is compiled
too, without the instance, and is a folder inside of a folder. -/
theorem fileFolder_is_valid_and_circular :
    (Schema.given folderDocument).ReferencesEnd ∧
      (Schema.given folderDocument).selectGlobal none = .ok (folderDocument.node 1) ∧
      fileFolder.Valid (Schema.given folderDocument) (folderDocument.node 1) ∧
      faultOf (compileForm (Schema.given folderDocument) .default none (some fileFolder)) =
        some (.circularDefinition "complexType \"folderType\"") := by
  have hfile : Particle.Word (Schema.given folderDocument)
      (.element (folderDocument.node 4) .single) (List.replicate 1 "file") :=
    .element (by decide +kernel) (by decide +kernel)
  have hmembers : Particle.members (Schema.given folderDocument) (folderDocument.node 3) =
      .ok [.element (folderDocument.node 4) .single, .element (folderDocument.node 5) .single] := by
    decide +kernel
  have hchoice : Particle.Word (Schema.given folderDocument)
      (.group .choice (folderDocument.node 3) .single) [["file"]].flatten :=
    .group hmembers (by decide +kernel) (by simpa using .alternative List.mem_cons_self hfile)
  have htype : Declaration.contentType (Schema.given folderDocument) (folderDocument.node 1) =
      .ok (.complex (folderDocument.node 2)) := by decide +kernel
  have hmodel : contentModel (Schema.given folderDocument) (folderDocument.node 2) =
      .ok [.group .choice (folderDocument.node 3) .single] := by decide +kernel
  have hchildren : fileFolder.root.elements = [fileFolder.node 1] := by decide +kernel
  have hvalid : ValidFor (Schema.given folderDocument) (folderDocument.node 1)
      fileFolder.root := by
    refine .complexContent (fun _ => folderDocument.node 4) htype (by decide +kernel) hmodel
      (.cons hchoice .nil) ?_ ?_ <;> rw [hchildren] <;> simp only [List.forall_mem_singleton]
    · exact ⟨[0, 0], folderDocument.node 4, ⟨0, [0], _, rfl, rfl, .member hmembers rfl .element⟩,
        by decide +kernel, by decide +kernel⟩
    · exact .simpleType (by decide +kernel) (by decide +kernel)
  exact ⟨folders_referencesEnd, by decide +kernel,
    ⟨by decide +kernel, rfl, ⟨_, by decide +kernel, hvalid⟩⟩, by decide +kernel⟩

/-- An optional group is compiled once, also over an instance that has nothing for it. -/
example : faultOf (compileForm (Schema.given (.ofRoots (.plain "schema" [] [
    .plain "element" [("name", "chapter"), ("type", "chapterType")] [],
    .plain "complexType" [("name", "chapterType")] [
      .plain "sequence" [("minOccurs", "0")] [
        .plain "element" [("name", "chapter"), ("type", "chapterType")] []]]]) []))
    .default none (some (.ofRoots (.plain "chapter" [] []) []))) =
    some (.circularDefinition "complexType \"chapterType\"") := by decide +kernel

end SchemaForms
