import Mathlib.Data.List.Perm.Subperm
import SchemaForms.Compile.Request
import SchemaForms.Proofs.Failures

/-!
# The depth of a compilation

Definitions are entered one inside the other: without an instance each of them
once, with an instance again for every level of the instance, since a group is
not entered again before the next element is taken. So a depth limit that is
large enough for the schema and the instance is never reached.
-/

namespace SchemaForms

namespace Xml

/-! ## Depth of elements -/

mutual
def Node.levels : Node → Nat
  | .element _ children => levelsOf children + 1
  | _ => 0

def levelsOf : List Node → Nat
  | [] => 0
  | node :: rest => max node.levels (levelsOf rest)
end

/-- The number of steps from an element to the deepest one inside of it. -/
def Element.depth (element : Element) : Nat := levelsOf element.children

theorem levels_le_levelsOf {nodes : List Node} {node : Node} (h : node ∈ nodes) :
    node.levels ≤ levelsOf nodes := by
  induction nodes with
  | nil => cases h
  | cons first rest ih =>
      rw [levelsOf]
      rcases List.mem_cons.mp h with rfl | h
      · exact Nat.le_max_left _ _
      · exact (ih h).trans (Nat.le_max_right _ _)

theorem Element.depth_lt {parent child : Element} (h : child ∈ parent.elements) :
    child.depth < parent.depth := by
  obtain ⟨node, hnode, helement⟩ := List.mem_filterMap.mp h
  have hlevels := levels_le_levelsOf hnode
  cases node with
  | element tag children =>
      cases helement
      exact hlevels
  | text value => cases helement
  | comment value => cases helement
  | instruction => cases helement

def Document.depth (document : Document) : Nat :=
  (document.roots.map Element.depth).foldr max 0

theorem Document.depth_le {document : Document} {element : Element}
    (h : element ∈ document.roots) : element.depth ≤ document.depth := by
  unfold Document.depth
  generalize document.roots = roots at h
  induction roots with
  | nil => cases h
  | cons first rest ih =>
      rw [List.map_cons, List.foldr_cons]
      rcases List.mem_cons.mp h with rfl | h
      · exact Nat.le_max_left _ _
      · exact (ih h).trans (Nat.le_max_right _ _)

end Xml

/-! ## Definitions of a schema -/

def definitionTags : List String := ["complexType", "sequence", "choice", "attributeGroup"]

def Schema.definitions (schema : Schema) : List Xml.Element :=
  schema.document.elements.filter fun element => definitionTags.contains element.name

theorem Schema.Owns.mem_definitions {schema : Schema} {element : Xml.Element}
    (howns : schema.Owns element) (htag : element.name ∈ definitionTags) :
    element ∈ schema.definitions :=
  List.mem_filter.mpr ⟨howns, by simpa using htag⟩

theorem Compositor.label_mem_definitionTags (compositor : Compositor) :
    compositor.label ∈ definitionTags := by
  cases compositor <;> decide

/-! ## First names and the groups on a path -/

theorem collectFirstNames_ne_tooDeep {schema : Schema} {limit : Nat} (fuel : Nat)
    (visiting : List Nat) (particle : Particle) (tags : List String) :
    collectFirstNames schema fuel visiting particle tags ≠ .error (.tooDeep limit) := by
  intro h
  induction fuel generalizing visiting particle tags with
  | zero =>
      cases particle with
      | element node bounds =>
          rcases bind_eq_error.mp h with h | ⟨name, -, h⟩
          · exact IsLocal.declaredName _ _ _ h trivial
          · cases h
      | group compositor node bounds => cases h
      | attributeUse node => cases h
  | succ fuel ih =>
      cases particle with
      | element node bounds =>
          rcases bind_eq_error.mp h with h | ⟨name, -, h⟩
          · exact IsLocal.declaredName _ _ _ h trivial
          · cases h
      | attributeUse node => cases h
      | group compositor node bounds =>
          simp only [collectFirstNames] at h
          split at h
          · cases h
          rcases bind_eq_error.mp h with h | ⟨members, -, h⟩
          · exact IsLocal.membersOf _ _ _ h trivial
          obtain ⟨member, -, before, h⟩ := collectAll_eq_error h
          exact ih _ _ _ h

def Searched (schema : Schema) (recent : List Nat) (particle : Particle) : Prop :=
  ∃ visiting,
    (∀ number ∈ recent, number ∈ visiting ∨
      ∃ definition, schema.Owns definition ∧ definition.name = "complexType" ∧
        definition.number = number) ∧
    (visiting = [] ∨ ∃ fuel tags names,
      collectFirstNames schema fuel visiting particle tags = .ok names)

section

variable {schema : Schema} {recent : List Nat} {compositor : Compositor} {node : Xml.Element}
  {bounds : Bounds}

theorem Searched.not_mem (howns : schema.Owns node) (hname : node.name = compositor.label)
    (h : Searched schema recent (.group compositor node bounds)) : node.number ∉ recent := by
  intro hin
  obtain ⟨visiting, hrecent, hsearch⟩ := h
  rcases hrecent _ hin with hvisiting | ⟨definition, hdefinition, htype, hnumber⟩
  · rcases hsearch with rfl | ⟨fuel, tags, names, hnames⟩
    · cases hvisiting
    · obtain ⟨left, members, -, hfree, -, -⟩ := collectFirstNames_group_eq_ok hnames
      exact hfree hvisiting
  · have hsame := hdefinition.eq_of_number_eq howns hnumber
    rw [hsame, hname] at htype
    cases compositor <;> exact absurd htype (by decide)

theorem Searched.member (h : Searched schema recent (.group compositor node bounds))
    (hfirst : ∃ names, firstNames schema (.group compositor node bounds) = .ok names)
    {members : List Particle} (hmembers : Particle.members schema node = .ok members)
    {member : Particle} (hmember : member ∈ members) :
    Searched schema (node.number :: recent) member := by
  obtain ⟨visiting, hrecent, hsearch⟩ := h
  have hgroup : ∃ fuel tags names, collectFirstNames schema fuel visiting
      (.group compositor node bounds) tags = .ok names := by
    rcases hsearch with rfl | hsearch
    · obtain ⟨names, hnames⟩ := hfirst
      exact ⟨_, _, names, hnames⟩
    · exact hsearch
  obtain ⟨fuel, tags, names, hnames⟩ := hgroup
  obtain ⟨left, others, -, -, hothers, hall⟩ := collectFirstNames_group_eq_ok hnames
  rw [hmembers] at hothers
  cases hothers
  obtain ⟨before, after, hcollect⟩ := collectAll_eq_ok hall hmember
  refine ⟨node.number :: visiting, fun number hnumber => ?_, .inr ⟨left, before, after, hcollect⟩⟩
  rcases List.mem_cons.mp hnumber with rfl | hnumber
  · exact .inl List.mem_cons_self
  · exact (hrecent number hnumber).imp_left (List.mem_cons_of_mem _)

end

/-! ## The levels that are left -/

/-- Inside of different definitions `recent`, which the innermost content has
entered, there are as many levels left as that content and those of the
elements in it, down to `depth` levels, can need. -/
structure Budget (schema : Schema) (enclosing recent : List Nat) (levels depth : Nat) : Prop where
  inside : recent ⊆ enclosing
  nodup : recent.Nodup
  definitions : recent ⊆ schema.definitions.map Xml.Element.number
  enough : schema.definitions.length * (depth + 1) ≤ levels + recent.length

namespace Budget

variable {schema : Schema} {enclosing recent : List Nat} {levels depth : Nat}

theorem length_le (h : Budget schema enclosing recent levels depth) :
    recent.length ≤ schema.definitions.length := by
  have hsubperm := List.subperm_of_subset h.nodup h.definitions
  simpa using hsubperm.length_le

theorem enter (h : Budget schema enclosing recent levels depth) {definition : Xml.Element}
    (hdefinition : definition ∈ schema.definitions) (hfree : definition.number ∉ recent) :
    ∃ left, levels = left + 1 ∧ Budget schema (definition.number :: enclosing)
      (definition.number :: recent) left depth := by
  have hnodup : (definition.number :: recent).Nodup := List.nodup_cons.mpr ⟨hfree, h.nodup⟩
  have hsubset : definition.number :: recent ⊆ schema.definitions.map Xml.Element.number :=
    List.cons_subset.mpr ⟨List.mem_map_of_mem hdefinition, h.definitions⟩
  have hlength : recent.length + 1 ≤ schema.definitions.length := by
    simpa using (List.subperm_of_subset hnodup hsubset).length_le
  have henough := h.enough
  have hone : schema.definitions.length ≤ schema.definitions.length * (depth + 1) :=
    Nat.le_mul_of_pos_right _ (Nat.succ_pos depth)
  refine ⟨levels - 1, by omega, ?_, hnodup, hsubset, ?_⟩
  · exact List.cons_subset_cons _ h.inside
  · rw [List.length_cons]
    omega

theorem start {definition : Xml.Element} (hdefinition : definition ∈ schema.definitions)
    (henough : schema.definitions.length * (depth + 1) ≤ levels) :
    ∃ left, levels = left + 1 ∧
      Budget schema (definition.number :: enclosing) [definition.number] left depth := by
  have hpos : 0 < schema.definitions.length := List.length_pos_of_mem hdefinition
  have hone : 0 < schema.definitions.length * (depth + 1) :=
    Nat.mul_pos hpos (Nat.succ_pos depth)
  refine ⟨levels - 1, by omega, ?_, List.nodup_singleton _, ?_, ?_⟩
  · simp
  · simpa using ⟨definition, hdefinition, rfl⟩
  · rw [List.length_singleton]
    omega

theorem enough_below (h : Budget schema enclosing recent levels depth) {lower : Nat}
    (hlower : lower < depth) : schema.definitions.length * (lower + 1) ≤ levels := by
  have hlength := h.length_le
  have henough := h.enough
  have hmul : schema.definitions.length * (lower + 1) ≤ schema.definitions.length * depth :=
    Nat.mul_le_mul_left _ hlower
  rw [Nat.mul_succ] at henough
  omega

end Budget

/-! ## Descending within the budget -/

def Ready (schema : Schema) (recent : List Nat) (depth : Nat) (particle : Particle)
    (state : BuildState) : Prop :=
  state.cursor.isSome = true →
    Searched schema recent particle ∧ ∀ element ∈ state.ahead, element.depth < depth

/-- With that many levels left, no particle and no attribute within the budget
reaches the depth limit. -/
structure Suffices (schema : Schema) (limit levels : Nat) : Prop where
  particle : ∀ (context : Context) (recent : List Nat) (depth atLeast : Nat)
    (particle : Particle) (path : String) (state : BuildState), context.schema = schema →
    Budget schema context.enclosing recent levels depth → particle.OfSchema schema →
    Ready schema recent depth particle state →
    ¬(buildParticle (levelBelow levels) context atLeast particle path).Fails state
      (.tooDeep limit)
  attributeEntry : ∀ (context : Context) (recent : List Nat) (depth : Nat) (entry : Xml.Element)
    (path : String) (occurrence : Option Xml.Element) (state : BuildState),
    context.schema = schema → Budget schema context.enclosing recent levels depth →
    schema.Owns entry →
    ¬(buildAttributeEntry (levelBelow levels) context entry path occurrence).Fails state
      (.tooDeep limit)

section

variable {schema : Schema} {limit levels : Nat} {context : Context} {recent : List Nat}
  {depth : Nat} {path : String} {state : BuildState}

theorem enter_eq_tooDeep {definition : Xml.Element} {editing : Bool}
    (h : context.enter (levelBelow levels) definition editing = .error (.tooDeep limit)) :
    (editing = true ∨ context.encloses definition = false) ∧ levels = 0 := by
  rcases Context.enter_eq_error.mp h with ⟨-, -, h⟩ | ⟨hfree, hdeeper, -⟩
  · cases h
  · cases levels with
    | zero => exact ⟨hfree, rfl⟩
    | succ left => cases hdeeper

theorem not_mem_of_encloses_eq_false {definition : Xml.Element}
    (henclosing : recent ⊆ context.enclosing) (h : context.encloses definition = false) :
    definition.number ∉ recent := by
  intro hin
  have hcontains : context.enclosing.contains definition.number = true := by
    simpa using henclosing hin
  rw [Context.encloses, hcontains] at h
  cases h

theorem Suffices.not_item_fails (hsuffices : Suffices schema limit levels)
    (hgrounded : schema.Grounded) (context : Context) (hschema : context.schema = schema)
    (hbudget : Budget schema context.enclosing recent levels depth) {item : Xml.Element}
    (howns : schema.Owns item) {occurrence : Option Xml.Element}
    (hready : ∀ particle, Ready schema recent depth particle state) :
    ¬(buildItem ⟨buildParticle (levelBelow levels), buildAttributeEntry (levelBelow levels)⟩
      context item path occurrence).Fails state (.tooDeep limit) := by
  intro h
  have hattributes : Level.AttributesOnly
      ⟨buildParticle (levelBelow levels), buildAttributeEntry (levelBelow levels)⟩ :=
    levelBelow_attributesOnly (levels + 1) _ rfl
  rcases buildItem_fails hattributes h with ⟨-, h⟩ | ⟨particle, hparticle, -, h⟩ |
    ⟨entry, hentry, h⟩ | ⟨-, h⟩
  · exact IsLocal.ofElement? _ _ _ h trivial
  · rw [hschema] at hparticle
    exact hsuffices.particle _ _ _ _ _ _ _ hschema hbudget
      (Particle.ofElement?_ofSchema hgrounded howns hparticle) (hready particle) h
  · refine hsuffices.attributeEntry _ _ _ _ _ _ _ hschema hbudget ?_ h
    rcases hentry with ⟨-, rfl⟩ | ⟨-, derivation, hderivation, hin⟩
    · exact howns
    · exact (howns.child hderivation).child hin
  · cases h

variable (hgrounded : schema.Grounded) (hbelow : ∀ left, left < levels → Suffices schema limit left)
include hgrounded hbelow

theorem not_contentFails_of_occurrence (hschema : context.schema = schema)
    {declaration : Declaration} (hdeclared : ∀ definition,
      declaration.content = .complex definition →
        schema.Owns definition ∧ definition.name = "complexType")
    {occurrence : Xml.Element}
    (henough : schema.definitions.length * (occurrence.depth + 1) ≤ levels) :
    ¬ContentFails (levelBelow levels) context declaration (some occurrence) (.tooDeep limit) := by
  intro h
  obtain ⟨definition, hcontent, h⟩ := h.cases (levelBelow_advancing levels)
    (levelBelow_attributesOnly levels)
  obtain ⟨howns, hname⟩ := hdeclared definition hcontent
  obtain ⟨left, rfl, hbudget⟩ : ∃ left, levels = left + 1 ∧ Budget schema
      (definition.number :: context.enclosing) [definition.number] left occurrence.depth :=
    Budget.start (howns.mem_definitions (by rw [hname]; decide)) henough
  rcases h with h | ⟨-, level, hlevel, item, hitem, path, middle, hmiddle, h⟩
  · cases (enter_eq_tooDeep h).2
  · obtain ⟨_, hleft, rfl⟩ := mem_levelBelow hlevel
    cases hleft
    refine (hbelow left left.lt_succ_self).not_item_fails hgrounded
      (context.insideType definition) hschema hbudget
      (howns.child hitem) (fun particle _ => ⟨?_, ?_⟩) h
    · exact ⟨[], by simpa using ⟨definition, howns, hname, rfl⟩, .inl rfl⟩
    · intro element helement
      exact Xml.Element.depth_lt (hmiddle.ahead.subset helement)

theorem not_contentFails_of_none (hschema : context.schema = schema)
    (hbudget : Budget schema context.enclosing recent levels depth)
    {declaration : Declaration} (hdeclared : ∀ definition,
      declaration.content = .complex definition →
        schema.Owns definition ∧ definition.name = "complexType") :
    ¬ContentFails (levelBelow levels) context declaration none (.tooDeep limit) := by
  intro h
  obtain ⟨definition, hcontent, h⟩ := h.cases (levelBelow_advancing levels)
    (levelBelow_attributesOnly levels)
  obtain ⟨howns, hname⟩ := hdeclared definition hcontent
  have hfree : context.encloses definition = false := by
    rcases h with h | ⟨hfree, -⟩
    · simpa using (enter_eq_tooDeep h).1
    · simpa using hfree
  obtain ⟨left, rfl, hinner⟩ := hbudget.enter
    (howns.mem_definitions (by rw [hname]; decide))
    (not_mem_of_encloses_eq_false hbudget.inside hfree)
  rcases h with h | ⟨-, level, hlevel, item, hitem, path, middle, hmiddle, h⟩
  · cases (enter_eq_tooDeep h).2
  · obtain ⟨_, hleft, rfl⟩ := mem_levelBelow hlevel
    cases hleft
    refine (hbelow left left.lt_succ_self).not_item_fails hgrounded
      (context.insideType definition) hschema hinner
      (howns.child hitem) (fun particle hsome => ?_) h
    rw [hmiddle.none rfl] at hsome
    cases hsome

theorem not_element_fails (hschema : context.schema = schema)
    (hbudget : Budget schema context.enclosing recent levels depth) {node : Xml.Element}
    (howns : schema.Owns node) {bounds : Bounds} {atLeast : Nat}
    (hready : ∀ cursor, state.cursor = some cursor →
      ∀ element ∈ cursor.ahead, schema.definitions.length * (element.depth + 1) ≤ levels) :
    ¬(buildElement (levelBelow levels) context node bounds atLeast path).Fails state
      (.tooDeep limit) := by
  intro h
  rcases buildElement_fails h with h | ⟨declaration, hdeclaration, h⟩
  · exact IsLocal.ofParticle _ _ _ _ h trivial
  rw [hschema] at hdeclaration
  have hdeclared : ∀ definition, declaration.content = .complex definition →
      schema.Owns definition ∧ definition.name = "complexType" :=
    fun definition => Declaration.owns_definition hgrounded howns hdeclaration
  rcases h with ⟨-, -, h⟩ | ⟨cursor, hcursor, h | ⟨occurrence, hin, h⟩⟩
  · exact not_contentFails_of_none hgrounded hbelow hschema hbudget hdeclared h
  · exact not_contentFails_of_none hgrounded hbelow hschema hbudget hdeclared h
  · exact not_contentFails_of_occurrence hgrounded hbelow hschema hdeclared
      (hready cursor hcursor occurrence hin) h

theorem not_group_fails (hschema : context.schema = schema)
    (hbudget : Budget schema context.enclosing recent levels depth) {compositor : Compositor}
    {node : Xml.Element} {bounds : Bounds}
    (hgroup : (Particle.group compositor node bounds).OfSchema schema)
    (hready : Ready schema recent depth (.group compositor node bounds) state) :
    ¬(buildGroup (levelBelow levels) context compositor node bounds path).Fails state
      (.tooDeep limit) := by
  intro h
  obtain ⟨howns, hname⟩ := hgroup
  rcases buildGroup_fails (levelBelow_advancing levels) h with h | ⟨hfree, level, hlevel, h⟩
  · obtain ⟨hfree, rfl⟩ := enter_eq_tooDeep h
    have hnew : node.number ∉ recent := by
      rcases hfree with hsome | hfree
      · exact (hready hsome).1.not_mem howns hname
      · exact not_mem_of_encloses_eq_false hbudget.inside hfree
    obtain ⟨left, hleft, -⟩ := hbudget.enter
      (howns.mem_definitions (hname ▸ compositor.label_mem_definitionTags)) hnew
    cases hleft
  -- Over an instance it is the search for first names that has not met the group before;
  -- without one it is the guard.
  have hnew : node.number ∉ recent := by
    rcases hfree with hsome | hfree
    · exact (hready hsome).1.not_mem howns hname
    · exact not_mem_of_encloses_eq_false hbudget.inside hfree
  obtain ⟨left, rfl, hinner⟩ := hbudget.enter
    (howns.mem_definitions (hname ▸ compositor.label_mem_definitionTags)) hnew
  obtain ⟨_, hleft, rfl⟩ := mem_levelBelow hlevel
  cases hleft
  rcases h with h | ⟨-, ⟨-, h⟩ | ⟨members, hmembers, hfirst, middle, hmiddle, h⟩⟩
  · exact IsLocal.membersOf _ _ _ h trivial
  · exact collectFirstNames_ne_tooDeep _ _ _ _ h
  rcases buildMembers_fails (levelBelow_advancing (left + 1) _ rfl) h with
    ⟨-, alternative, -, h⟩ | ⟨member, hmember, last, hlast, h⟩
  · exact collectFirstNames_ne_tooDeep _ _ _ _ h
  rw [hschema] at hmembers hfirst
  refine (hbelow left left.lt_succ_self).particle (context.insideGroup node bounds) _ _ _ _ _ _
    hschema hinner (Particle.members_ofSchema hgrounded howns hmembers member hmember)
    (fun hsome => ?_) h
  rcases hlast with hlast | hnone
  · have hadvances := hmiddle.trans hlast
    rw [hadvances.isSome] at hsome
    obtain ⟨hsearched, hdepth⟩ := hready hsome
    exact ⟨hsearched.member (hfirst hsome) hmembers hmember,
      fun element helement => hdepth element (hadvances.ahead.subset helement)⟩
  · rw [hnone] at hsome
    cases hsome

theorem not_attributeEntry_fails (hschema : context.schema = schema)
    (hbudget : Budget schema context.enclosing recent levels depth) {entry : Xml.Element}
    (howns : schema.Owns entry) {occurrence : Option Xml.Element} :
    ¬(buildAttributeEntry (levelBelow levels) context entry path occurrence).Fails state
      (.tooDeep limit) := by
  intro h
  rcases buildAttributeEntry_fails (levelBelow_attributesOnly levels) h with
    ⟨-, -, h⟩ | ⟨hname, h | ⟨definition, hdefinition, h⟩⟩
  · exact IsLocal.declaredAttribute _ _ _ h trivial
  · exact IsLocal.followReference _ _ _ _ _ h trivial
  rw [hschema] at hdefinition
  have htarget : schema.Owns definition ∧ definition.name = "attributeGroup" := by
    rcases Schema.followReference_eq_ok hgrounded hdefinition with htarget | rfl
    · exact htarget
    · exact ⟨howns, hname⟩
  have hfree : context.encloses definition = false := by
    rcases h with h | ⟨hfree, -⟩
    · simpa using (enter_eq_tooDeep h).1
    · exact hfree
  obtain ⟨left, rfl, hinner⟩ := hbudget.enter
    (htarget.1.mem_definitions (by rw [htarget.2]; decide))
    (not_mem_of_encloses_eq_false hbudget.inside hfree)
  rcases h with h | ⟨-, level, hlevel, child, hchild, h⟩
  · cases (enter_eq_tooDeep h).2
  · obtain ⟨_, hleft, rfl⟩ := mem_levelBelow hlevel
    cases hleft
    exact (hbelow left left.lt_succ_self).attributeEntry (context.inside definition) _ _ _ _ _ _
      hschema hinner
      (htarget.1.child hchild) h

omit hbelow in
theorem suffices_all (levels : Nat) : Suffices schema limit levels := by
  induction levels using Nat.strong_induction_on with
  | _ levels ih =>
      constructor
      · intro context recent depth atLeast particle path state hschema hbudget hparticle hready h
        cases particle with
        | element node bounds =>
            refine not_element_fails hgrounded ih hschema hbudget hparticle.1 ?_ h
            intro cursor hcursor element helement
            have hdepth := (hready (by simp [hcursor])).2 element
              (by simpa [BuildState.ahead, hcursor] using helement)
            exact hbudget.enough_below hdepth
        | group compositor node bounds =>
            exact not_group_fails hgrounded ih hschema hbudget hparticle hready h
        | attributeUse node =>
            exact IsLocal.declaredAttribute _ _ _ (buildAttribute_fails h).2 trivial
      · intro context recent depth entry path occurrence state hschema hbudget howns
        exact not_attributeEntry_fails hgrounded ih hschema hbudget howns

end

/-- A depth limit of one level for each definition is never reached without an
instance, and one of as many levels for each level of an instance not with it. -/
theorem compileForm_fault_ne_tooDeep {document : Xml.Document} {schema : Schema}
    (hschema : Schema.ofDocument document = .ok schema) (settings : Settings)
    (name : Option String) (limit : Nat) :
    (schema.definitions.length ≤ settings.maxDepth →
      faultOf (compileForm schema settings name none) ≠ some (.tooDeep limit)) ∧
    ∀ existing : Xml.Document,
      schema.definitions.length * (existing.depth + 1) ≤ settings.maxDepth →
        faultOf (compileForm schema settings name (some existing)) ≠ some (.tooDeep limit) := by
  have hgrounded := Schema.grounded_of_ofDocument hschema
  have hroot : ∀ (existing : Option Xml.Document),
      (∀ document ∈ existing,
        schema.definitions.length * (document.depth + 1) ≤ settings.maxDepth) →
      schema.definitions.length ≤ settings.maxDepth →
      faultOf (compileForm schema settings name existing) ≠ some (.tooDeep limit) := by
    intro existing hexisting henough hfault
    obtain ⟨failure, hfailure, hfault⟩ := faultOf_eq_some.mp hfault
    rcases compileForm_eq_error hfailure with h | ⟨element, helement, h | h⟩
    · rw [hfault] at h
      exact IsLocal.selectGlobal _ _ _ h trivial
    · rw [hfault] at h
      have hbudget : Budget schema (Context.start schema settings).enclosing []
          settings.maxDepth 0 :=
        ⟨by simp, List.nodup_nil, by simp, by simpa using henough⟩
      refine not_element_fails hgrounded (fun left _ => suffices_all hgrounded left) rfl hbudget
        (Schema.selectGlobal_eq_ok hgrounded helement).1 ?_ h
      intro cursor hcursor element hin
      cases existing with
      | none => cases hcursor
      | some document =>
          cases hcursor
          rw [Cursor.ofParent, Xml.Document.holder_elements] at hin
          refine le_trans (Nat.mul_le_mul_left _ ?_) (hexisting document rfl)
          exact Nat.succ_le_succ (Xml.Document.depth_le hin)
    · rw [hfault] at h
      cases h
  constructor
  · exact hroot none (by simp)
  · intro existing henough
    refine hroot (some existing) (by simpa using henough) (le_trans ?_ henough)
    exact Nat.le_mul_of_pos_right _ (Nat.succ_pos _)

def nodeDocument : Xml.Document :=
  .ofRoots (.plain "schema" [] [
    .plain "element" [("name", "node"), ("type", "nodeType")] [],
    .plain "complexType" [("name", "nodeType")] [
      .plain "sequence" [] [
        .plain "element" [("name", "label")] [],
        .plain "element" [("name", "node"), ("type", "nodeType"), ("minOccurs", "0"),
          ("maxOccurs", "unbounded")] []]]]) []

def nestedNodes : Xml.Document :=
  .ofRoots (.plain "node" [] [.plain "node" [] [.plain "node" [] []]]) []

theorem nestedNodes_fault_ne_tooDeep :
    (Schema.given nodeDocument).definitions.length * (nestedNodes.depth + 1) = 6 ∧
      faultOf (compileForm (Schema.given nodeDocument) ⟨.none, .none, 2, "module"⟩ none none) ≠
        some (.tooDeep 2) ∧
      faultOf (compileForm (Schema.given nodeDocument) ⟨.none, .none, 6, "module"⟩ none
        (some nestedNodes)) ≠ some (.tooDeep 6) :=
  ⟨by decide +kernel,
    (compileForm_fault_ne_tooDeep (Schema.ofDocument_eq_given (by decide +kernel))
      ⟨.none, .none, 2, "module"⟩ none 2).1 (by decide +kernel),
    (compileForm_fault_ne_tooDeep (Schema.ofDocument_eq_given (by decide +kernel))
      ⟨.none, .none, 6, "module"⟩ none 6).2 nestedNodes (by decide +kernel)⟩

/-- One level less, and the innermost node cannot be entered. -/
example : faultOf (compileForm (Schema.given nodeDocument) ⟨.none, .none, 5, "module"⟩ none
    (some nestedNodes)) = some (.tooDeep 5) := by decide +kernel

end SchemaForms
