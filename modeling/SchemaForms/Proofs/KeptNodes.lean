import Mathlib.Data.List.Induction
import SchemaForms.Proofs.Forests
import SchemaForms.Proofs.Invariants
import SchemaForms.Proofs.Paths
import SchemaForms.Proofs.References

/-!
# The nodes that a workspace keeps

A request leaves nodes in the arena when it is answered, and also when it fails: then
those that were finished before. A property that nodes have when they are made, and
that they keep when they are marked as selected or remarked on, all of these nodes have.
Only a request with an instance remarks on nodes.
-/

namespace SchemaForms

namespace Form

def Throughout (property : Form → Prop) (form : Form) : Prop :=
  ∀ node ∈ form.nodes, property node

variable {property : Form → Prop} {form : Form}

theorem throughout_iff : form.Throughout property ↔
    property form ∧ ∀ child ∈ form.children, child.Throughout property := by
  simp only [Throughout, nodes_eq form, nodesOf_eq_flatMap, List.forall_mem_cons,
    List.mem_flatMap, forall_exists_index, and_imp]
  exact and_congr_right fun _ =>
    ⟨fun h child hchild node hnode => h node child hchild hnode,
      fun h node child hchild hnode => h child hchild node hnode⟩

theorem Throughout.mapOptions {change : Options → Options} (h : form.Throughout property)
    (hchange : property form → property (form.mapOptions change)) :
    (form.mapOptions change).Throughout property := by
  rw [throughout_iff] at h ⊢
  rw [children_mapOptions]
  exact ⟨hchange h.1, h.2⟩

end Form

structure Schema.Makes (schema : Schema) (settings : Settings) (editing : Bool)
    (property : Form → Prop) : Prop where
  selected : ∀ (form : Form) (value : Bool), property form →
    property (form.insertOption OptionKey.selected (.bool value))
  remarked : ∀ (form : Form) (message : String), editing = true →
    form.label.kind ≠ .attributeUse → property form → property (form.remark message)
  attributeUse : ∀ (use declaration : Xml.Element) (name path : String)
    (occurrence : Option Xml.Element), useOf use ≠ "prohibited" →
    declaredAttribute schema use = .ok (declaration, name) →
    property (attributeForm use declaration name path occurrence)
  group : ∀ (compositor : Compositor) (node : Xml.Element) (bounds : Bounds) (path : String)
    (children : List Form), property (groupForm compositor node bounds path children)
  element : ∀ (levels : Nat) (context : Context) (particle : Xml.Element)
    (declaration : Declaration) (bounds : Bounds) (path : String)
    (occurrence : Option Xml.Element) (content : ComplexContent), context.schema = schema →
    Declaration.ofParticle schema settings particle = .ok declaration →
    elementContent (levelBelow levels) context declaration path occurrence = .ok content →
    property (elementForm declaration bounds path occurrence { content with mismatch := none })

def BuildState.Within (state : BuildState) (editing : Bool) : Prop :=
  state.cursor.isSome = true → editing = true

namespace Build

def Kept (editing : Bool) (property : Form → Prop) :
    Except Failure (List Form × BuildState) → Prop
  | .ok (forms, after) => (∀ form ∈ forms, property form) ∧ after.Within editing
  | .error failure => ∀ form ∈ failure.finished, property form

def Leaves (build : Build) (editing : Bool) (property : Form → Prop) : Prop :=
  ∀ state : BuildState, state.Within editing → Kept editing property (build state)

namespace Leaves

variable {build first second : Build} {editing : Bool} {property : Form → Prop}

theorem nothing : Build.nothing.Leaves editing property :=
  fun _ hstate => ⟨by simp, hstate⟩

theorem fail (error : Diagnostic) : (Build.fail error).Leaves editing property :=
  fun _ _ _ hform => absurd hform List.not_mem_nil

theorem emit {form : Form} (h : property form) : (Build.emit form).Leaves editing property :=
  fun _ hstate => ⟨by simpa using h, hstate⟩

theorem ofFault {α : Type} {outcome : Except SchemaFault α} {next : α → Build}
    (h : ∀ value, outcome = .ok value → (next value).Leaves editing property) :
    (Build.ofFault outcome next).Leaves editing property := by
  cases outcome with
  | error fault => exact fail _
  | ok value => exact h value rfl

theorem andThen (hfirst : first.Leaves editing property)
    (hsecond : second.Leaves editing property) :
    (first.andThen second).Leaves editing property := by
  intro state hstate
  have hbefore := hfirst state hstate
  simp only [Build.andThen]
  cases hrun : first state with
  | error failure =>
      rw [hrun] at hbefore
      exact hbefore
  | ok result =>
      obtain ⟨forms, middle⟩ := result
      rw [hrun] at hbefore
      have hafter := hsecond middle hbefore.2
      simp only
      cases hmore : second middle with
      | error failure =>
          rw [hmore] at hafter
          exact List.forall_mem_append.mpr ⟨hbefore.1, hafter⟩
      | ok result =>
          rw [hmore] at hafter
          exact ⟨List.forall_mem_append.mpr ⟨hbefore.1, hafter.1⟩, hafter.2⟩

theorem all {builds : List Build} (h : ∀ build ∈ builds, build.Leaves editing property) :
    (Build.all builds).Leaves editing property := by
  induction builds with
  | nil => exact nothing
  | cons build rest ih =>
      rw [List.forall_mem_cons] at h
      exact h.1.andThen (ih h.2)

theorem mapForms (h : build.Leaves editing property) (kind : Form → Prop)
    {change : Form → Form} (hkind : build.Ensures (Each kind))
    (hchange : ∀ form, kind form → property form → property (change form)) :
    (build.mapForms change).Leaves editing property := by
  intro state hstate
  have hleft := h state hstate
  simp only [Build.mapForms]
  cases hrun : build state with
  | error failure =>
      rw [hrun] at hleft
      exact hleft
  | ok result =>
      obtain ⟨forms, after⟩ := result
      rw [hrun] at hleft
      exact ⟨List.forall_mem_map.mpr fun form hform =>
        hchange form (hkind _ _ _ hrun form hform) (hleft.1 form hform), hleft.2⟩

theorem withoutInstance (h : build.Leaves editing property) :
    build.withoutInstance.Leaves editing property := by
  intro state hstate
  have hleft := h { state with cursor := none } nofun
  simp only [Build.withoutInstance]
  cases hrun : build { state with cursor := none } with
  | error failure =>
      rw [hrun] at hleft
      exact hleft
  | ok result =>
      rw [hrun] at hleft
      exact ⟨hleft.1, hstate⟩

theorem grouped {schema : Schema} {settings : Settings}
    (h : build.Leaves editing (Form.Throughout property))
    (hmakes : schema.Makes settings editing property) (compositor : Compositor)
    (node : Xml.Element) (bounds : Bounds) (path : String) :
    (build.grouped compositor node bounds path).Leaves editing (Form.Throughout property) := by
  intro state hstate
  have hleft := h state hstate
  simp only [Build.grouped]
  cases hrun : build state with
  | error failure =>
      rw [hrun] at hleft
      exact hleft
  | ok result =>
      rw [hrun] at hleft
      exact ⟨List.forall_mem_singleton.mpr
        (Form.throughout_iff.mpr ⟨hmakes.group _ _ _ _ _, hleft.1⟩), hleft.2⟩

theorem repeatOver {one : Build} {tag : String} {bounds : Bounds}
    (hone : ∀ error, (one.mapForms (remarkWith error)).Leaves editing property)
    (repeated : Bool) (names : List String) (fuel count : Nat) :
    (SchemaForms.repeatOver repeated names bounds tag one fuel count).Leaves editing
      property := by
  induction fuel generalizing count with
  | zero => exact nothing
  | succ fuel ih =>
      intro state hstate
      simp only [SchemaForms.repeatOver]
      split
      · exact ⟨by simp, hstate⟩
      · refine (hone _).andThen (fun after hafter => ?_) state hstate
        split
        · exact ⟨by simp, hafter⟩
        · exact ih _ after hafter

theorem instantiate {one : Build} (hone : one.Leaves editing property)
    (hremarked : editing = true → ∀ error,
      (one.mapForms (remarkWith error)).Leaves editing property)
    (context : Context) (group : Particle) (compositor : Compositor) (bounds : Bounds) :
    (SchemaForms.instantiate context group compositor bounds one).Leaves editing property := by
  intro state hstate
  simp only [SchemaForms.instantiate]
  split
  · exact ⟨by simp, hstate⟩
  · split
    · refine all (fun build hbuild => ?_) state hstate
      rw [List.eq_of_mem_replicate hbuild]
      exact hone
    · rename_i cursor hcursor
      have hediting : editing = true := hstate (by rw [hcursor, Option.isSome_some])
      exact ofFault (fun names _ => repeatOver (hremarked hediting) _ _ _ _) state hstate

end Leaves

end Build

/-! ## Levels -/

structure Level.Keeps (schema : Schema) (settings : Settings) (editing : Bool)
    (property : Form → Prop) (level : Level) : Prop where
  particle : ∀ context atLeast particle path, context.schema = schema →
    context.settings = settings →
    (level.particle context atLeast particle path).Leaves editing (Form.Throughout property)
  entry : ∀ context entry path occurrence, context.schema = schema →
    (level.attributeEntry context entry path occurrence).Leaves editing
      (Form.Throughout property)

section

variable {schema : Schema} {settings : Settings} {editing : Bool} {property : Form → Prop}
  (hmakes : schema.Makes settings editing property)
include hmakes

theorem Form.Throughout.remarkWith {form : Form} (h : form.Throughout property)
    (hediting : editing = true) (hkind : form.label.kind ≠ .attributeUse)
    (error : Option Mismatch) : (SchemaForms.remarkWith error form).Throughout property := by
  cases error with
  | none => exact h
  | some error => exact h.mapOptions (hmakes.remarked form error.message hediting hkind)

theorem Build.Leaves.remarked {build : Build}
    (h : build.Leaves editing (Form.Throughout property)) (hediting : editing = true)
    (hkind : build.Ensures (Each fun form => form.label.kind ≠ .attributeUse))
    (error : Option Mismatch) :
    (build.mapForms (remarkWith error)).Leaves editing (Form.Throughout property) :=
  h.mapForms _ hkind fun _ hform hkept => hkept.remarkWith hmakes hediting hform error

variable {context : Context} {path : String} (hschema : context.schema = schema)
include hschema

theorem buildAttribute_leaves (use : Xml.Element) (occurrence : Option Xml.Element) :
    (buildAttribute context use path occurrence).Leaves editing (Form.Throughout property) := by
  unfold buildAttribute
  split
  · exact .nothing
  · rename_i huse
    refine .ofFault fun declared hdeclared => .emit (Form.throughout_iff.mpr ⟨?_, nofun⟩)
    exact hmakes.attributeUse _ _ _ _ _ huse (hschema ▸ hdeclared)

variable {levels : Nat}
  (hlevels : ∀ level ∈ levelBelow levels, level.Keeps schema settings editing property)
include hlevels

theorem buildAttributeEntry_leaves (entry : Xml.Element) (occurrence : Option Xml.Element) :
    (buildAttributeEntry (levelBelow levels) context entry path occurrence).Leaves editing
      (Form.Throughout property) := by
  by_cases hattribute : entry.name = "attribute"
  · rw [buildAttributeEntry_of_attribute hattribute]
    exact buildAttribute_leaves hmakes hschema entry occurrence
  by_cases hgroup : entry.name = "attributeGroup"
  · rw [buildAttributeEntry_of_group hgroup]
    refine .ofFault fun definition _ => .ofFault fun entered henter => .all fun build hbuild => ?_
    obtain ⟨child, -, rfl⟩ := List.mem_map.mp hbuild
    obtain ⟨-, hlevel, hinner⟩ := Context.enter_eq_ok.mp henter
    exact (hlevels _ hlevel).entry _ _ _ _ (by rw [hinner]; exact hschema)
  · rw [buildAttributeEntry_of_other hattribute hgroup]
    exact .nothing

variable (hsettings : context.settings = settings)
include hsettings

omit hmakes hlevels in
theorem buildItem_leaves {level : Level} (hlevel : level.Keeps schema settings editing property)
    (item : Xml.Element) (occurrence : Option Xml.Element) :
    (buildItem level context item path occurrence).Leaves editing (Form.Throughout property) := by
  by_cases hmodel : item.name ∈ modelItems
  · rw [buildItem_of_model hmodel]
    refine .ofFault fun found _ => ?_
    cases found with
    | none => exact .nothing
    | some particle => exact hlevel.particle _ _ _ _ hschema hsettings
  rcases item_cases hmodel with hattribute | hsimple | hignored | hunsupported
  · rw [buildItem_of_attribute hattribute]
    exact hlevel.entry _ _ _ _ hschema
  · rw [buildItem_of_simpleContent hsimple]
    refine .all fun build hbuild => ?_
    obtain ⟨derivation, -, hbuild⟩ := List.mem_flatMap.mp hbuild
    obtain ⟨child, -, rfl⟩ := List.mem_map.mp hbuild
    exact hlevel.entry _ _ _ _ hschema
  · rw [buildItem_of_ignored hignored]
    exact .nothing
  · rw [buildItem_of_unsupported hunsupported]
    exact .fail _

/-! ## Elements -/

omit hmakes hlevels hschema hsettings in
theorem occurrence_isSome_of_mismatch {deeper : Option Level} {declaration : Declaration}
    {occurrence : Option Xml.Element} {content : ComplexContent}
    (hcontent : elementContent deeper context declaration path occurrence = .ok content)
    (hmismatch : content.mismatch ≠ none) : occurrence.isSome = true := by
  cases occurrence with
  | some occurrence => rfl
  | none =>
      rcases elementContent_eq_ok.mp hcontent with ⟨-, rfl⟩ | ⟨_, _, _, _, -, -, -, -, rfl⟩ <;>
        exact absurd rfl hmismatch

omit hmakes in
theorem elementContent_keeps (path : String) (declaration : Declaration)
    {occurrence : Option Xml.Element} (hediting : occurrence.isSome = true → editing = true) :
    (∀ content, elementContent (levelBelow levels) context declaration path occurrence =
        .ok content → ∀ child ∈ content.children, child.Throughout property) ∧
      ∀ failure, elementContent (levelBelow levels) context declaration path occurrence =
        .error failure → ∀ form ∈ failure.finished, form.Throughout property := by
  have hstart : (BuildState.start occurrence).Within editing := by
    cases occurrence with
    | none => exact nofun
    | some occurrence => exact fun _ => hediting rfl
  have hitems : ∀ level ∈ levelBelow levels, ∀ definition,
      (buildItems level (context.insideType definition) definition path occurrence).Leaves editing
        (Form.Throughout property) := by
    intro level hlevel definition
    refine .all fun build hbuild => ?_
    obtain ⟨item, -, rfl⟩ := List.mem_map.mp hbuild
    have hinner : (context.insideType definition).schema = schema := hschema
    exact buildItem_leaves hinner hsettings (hlevels level hlevel) item occurrence
  constructor
  · intro content hcontent
    rcases elementContent_eq_ok.mp hcontent with ⟨-, rfl⟩ |
      ⟨definition, level, children, after, -, hlevel, -, hrun, rfl⟩
    · rw [simpleContent_children]
      exact List.forall_mem_nil _
    · have hleft := hitems level hlevel definition _ hstart
      rw [hrun] at hleft
      exact hleft.1
  · intro failure hfailure
    simp only [elementContent] at hfailure
    split at hfailure
    · cases hfailure
    rename_i definition _
    simp only [complexContent] at hfailure
    split at hfailure
    · cases hfailure
      exact List.forall_mem_nil _
    rename_i inner level henter
    obtain ⟨-, hlevel, rfl⟩ := Context.enter_eq_ok.mp henter
    split at hfailure
    · rename_i found hrun
      cases hfailure
      have hleft := hitems level hlevel definition _ hstart
      rw [Context.insideType, hrun] at hleft
      exact hleft
    · cases hfailure

variable {particle : Xml.Element} {declaration : Declaration}
  (hdeclaration : Declaration.ofParticle schema settings particle = .ok declaration)
include hdeclaration

theorem buildOccurrence_leaves (bounds : Bounds) {occurrence : Option Xml.Element}
    (hediting : occurrence.isSome = true → editing = true) :
    (buildOccurrence (levelBelow levels) context declaration bounds path occurrence).Leaves editing
      (Form.Throughout property) := by
  intro state hstate
  obtain ⟨hchildren, hfinished⟩ := elementContent_keeps hschema hlevels hsettings
    (placePath path declaration.name (state.nextPlace declaration.name)) declaration hediting
  simp only [buildOccurrence]
  split
  · rename_i failure hfailure
    exact hfinished failure hfailure
  · rename_i content hcontent
    refine ⟨List.forall_mem_singleton.mpr ?_, hstate⟩
    have hplain : (elementForm declaration bounds
        (placePath path declaration.name (state.nextPlace declaration.name)) occurrence
        { content with mismatch := none }).Throughout property :=
      Form.throughout_iff.mpr
        ⟨hmakes.element _ _ _ _ _ _ _ _ hschema hdeclaration hcontent, hchildren content hcontent⟩
    by_cases hmismatch : content.mismatch = none
    · rwa [← hmismatch] at hplain
    · exact hplain.remarkWith hmakes
        (hediting (occurrence_isSome_of_mismatch hcontent hmismatch))
        (fun hkind => by cases hkind) content.mismatch

theorem buildDeclared_leaves (bounds : Bounds) (atLeast : Nat) :
    (buildDeclared (levelBelow levels) context declaration bounds atLeast path).Leaves editing
      (Form.Throughout property) := by
  have hcopies : ∀ count, (buildCopies (levelBelow levels) context declaration bounds path
      count).Leaves editing (Form.Throughout property) := by
    intro count
    refine .all fun build hbuild => ?_
    rw [List.eq_of_mem_replicate hbuild]
    exact buildOccurrence_leaves hmakes hschema hlevels hsettings hdeclaration bounds nofun
  have htaken : editing = true → ∀ taken, (buildTaken (levelBelow levels) context declaration
      bounds path taken).Leaves editing (Form.Throughout property) := by
    intro hediting taken
    refine .all fun build hbuild => ?_
    obtain ⟨⟨occurrence, index⟩, -, rfl⟩ := List.mem_map.mp hbuild
    refine Build.Leaves.remarked hmakes (buildOccurrence_leaves hmakes hschema hlevels hsettings
      hdeclaration bounds fun _ => hediting) hediting (fun state forms after hrun => ?_) _
    obtain ⟨content, hcontent, rfl, -⟩ := buildOccurrence_eq_ok.mp hrun
    have hfrom : CompiledFrom (levelBelow levels) context declaration bounds none
        (some occurrence) _ := ⟨_, content, hcontent, rfl⟩
    exact List.forall_mem_singleton.mpr fun hkind => nomatch hfrom.shown.1.symm.trans hkind
  intro state hstate
  simp only [buildDeclared]
  split
  · exact hcopies _ state hstate
  · rename_i cursor hcursor
    have hediting : editing = true := hstate (by rw [hcursor, Option.isSome_some])
    exact (htaken hediting _).andThen (hcopies _) _ fun _ => hediting

omit hdeclaration in
theorem buildElement_leaves (node : Xml.Element) (bounds : Bounds) (atLeast : Nat) :
    (buildElement (levelBelow levels) context node bounds atLeast path).Leaves editing
      (Form.Throughout property) := by
  unfold buildElement
  split
  · exact .fail _
  · rename_i declaration hdeclaration
    rw [hschema, hsettings] at hdeclaration
    exact buildDeclared_leaves hmakes hschema hlevels hsettings hdeclaration bounds _

/-! ## Groups -/

omit hdeclaration hlevels in
theorem buildMembers_leaves {level : Level}
    (hlevel : level.Keeps schema settings editing property) (compositor : Compositor)
    (members : List Particle) :
    (buildMembers level context compositor members path).Leaves editing
      (Form.Throughout property) := by
  cases compositor with
  | sequence =>
      refine .all fun build hbuild => ?_
      obtain ⟨member, -, rfl⟩ := List.mem_map.mp hbuild
      exact hlevel.particle _ _ _ _ hschema hsettings
  | choice =>
      intro state hstate
      refine Build.Leaves.ofFault (fun matched _ => .all fun build hbuild => ?_) state hstate
      obtain ⟨⟨alternative, index⟩, -, rfl⟩ := List.mem_map.mp hbuild
      have hparticle := hlevel.particle context 1 alternative path hschema hsettings
      refine Build.Leaves.mapForms ?_ (fun _ => True) (fun _ _ _ _ _ _ => trivial)
        fun form _ hform => hform.mapOptions (hmakes.selected form _)
      split
      · exact hparticle
      · exact hparticle.withoutInstance

omit hdeclaration in
theorem buildGroup_leaves (compositor : Compositor) (node : Xml.Element) (bounds : Bounds) :
    (buildGroup (levelBelow levels) context compositor node bounds path).Leaves editing
      (Form.Throughout property) := by
  intro state hstate
  refine Build.Leaves.ofFault (fun entered henter => .ofFault fun members _ => ?_) state hstate
  obtain ⟨inner, level⟩ := entered
  obtain ⟨-, hlevel, rfl⟩ := Context.enter_eq_ok.mp henter
  have hone : ((buildMembers level (context.insideGroup node bounds) compositor members
      path).grouped compositor node bounds path).Leaves editing (Form.Throughout property) := by
    have hinner : (context.insideGroup node bounds).schema = schema := hschema
    exact (buildMembers_leaves hmakes hinner hsettings (hlevels level hlevel) compositor
      members).grouped hmakes compositor node bounds path
  refine hone.instantiate (fun hediting error => ?_) _ _ _ _
  refine hone.remarked hmakes hediting (fun before made after hmade => ?_) error
  obtain ⟨children, last, -, rfl, -⟩ := Build.grouped_eq_ok.mp hmade
  refine List.forall_mem_singleton.mpr ?_
  cases compositor <;> exact nofun

omit hdeclaration in
theorem buildParticle_leaves (atLeast : Nat) (particle : Particle) :
    (buildParticle (levelBelow levels) context atLeast particle path).Leaves editing
      (Form.Throughout property) := by
  cases particle with
  | element node bounds =>
      exact buildElement_leaves hmakes hschema hlevels hsettings node bounds atLeast
  | group compositor node bounds =>
      exact buildGroup_leaves hmakes hschema hlevels hsettings compositor node bounds
  | attributeUse node =>
      exact fun state hstate => buildAttribute_leaves hmakes hschema node _ state hstate

omit hdeclaration hschema hsettings hlevels in
theorem levelBelow_keeps (levels : Nat) :
    ∀ level ∈ levelBelow levels, level.Keeps schema settings editing property := by
  induction levels with
  | zero => exact nofun
  | succ levels ih =>
      intro level hlevel
      rw [levelBelow_succ, Option.mem_some_iff] at hlevel
      subst hlevel
      exact ⟨fun _ atLeast particle _ hschema hsettings =>
          buildParticle_leaves hmakes hschema ih hsettings atLeast particle,
        fun _ entry _ occurrence hschema =>
          buildAttributeEntry_leaves hmakes hschema ih entry occurrence⟩

end

/-! ## Requests -/

def Request.hasInstance : Request → Bool
  | .root _ document => document.isSome
  | .particle _ _ _ parent => parent.isSome

def Request.left (schema : Schema) (settings : Settings) (request : Request) : List Form :=
  match request.compile schema settings with
  | .ok compiled => compiled.answer ++ compiled.surplus
  | .error failure => failure.finished

section

variable {schema : Schema} {settings : Settings} {editing : Bool} {property : Form → Prop}

theorem buildAtTop_leaves (hmakes : schema.Makes settings editing property)
    {parent : Option Xml.Element} (hediting : parent.isSome = true → editing = true)
    (atLeast : Nat) (particle : Particle) (path : String) :
    Build.Kept editing (Form.Throughout property)
      (buildAtTop schema settings atLeast particle path parent) := by
  refine buildParticle_leaves hmakes rfl (levelBelow_keeps hmakes _) rfl atLeast particle _ ?_
  cases parent with
  | none => exact nofun
  | some parent => exact fun _ => hediting rfl

theorem isSome_of_rootError {root : Form} {after : BuildState}
    (h : rootError root after ≠ none) : after.cursor.isSome = true := by
  cases hcursor : after.cursor with
  | some cursor => rfl
  | none => exact absurd (by rw [rootError, BuildState.ahead, hcursor]) h

theorem compileForm_keeps (name : Option String) {document : Option Xml.Document}
    (hmakes : schema.Makes settings document.isSome property) :
    (∀ forms, compileForm schema settings name document = .ok forms →
        ∀ form ∈ forms.root :: forms.surplus, form.Throughout property) ∧
      ∀ failure, compileForm schema settings name document = .error failure →
        ∀ form ∈ failure.finished, form.Throughout property := by
  have hkept : ∀ element, Build.Kept document.isSome (Form.Throughout property)
      (buildAtTop schema settings 1 (.element element .single) ""
        (document.map Xml.Document.holder)) :=
    fun element => buildAtTop_leaves hmakes (by rw [Option.isSome_map]; exact id) 1 _ _
  constructor
  · intro forms hforms
    obtain ⟨element, root, after, -, hbuild, hroot⟩ := compileForm_eq_ok hforms
    obtain ⟨declaration, -, hdeclared⟩ := buildElement_eq_ok.mp hbuild
    obtain ⟨_, _, hfrom⟩ := compiledFrom_of_buildDeclared hdeclared root List.mem_cons_self
    have hall := hkept element
    rw [buildAtTop, buildParticle, hbuild, Build.Kept, List.forall_mem_cons] at hall
    refine List.forall_mem_cons.mpr ⟨?_, hall.1.2⟩
    rw [hroot]
    by_cases herror : rootError root after = none
    · rw [herror]
      exact hall.1.1
    · exact hall.1.1.remarkWith hmakes (hall.2 (isSome_of_rootError herror))
        (fun hkind => by cases hfrom.shown.1.symm.trans hkind) _
  · intro failure hfailure
    simp only [compileForm] at hfailure
    split at hfailure
    · cases hfailure
      exact List.forall_mem_nil _
    rename_i element _
    have hall := hkept element
    split at hfailure
    · rename_i found hbuild
      cases hfailure
      rw [hbuild] at hall
      exact hall
    · cases hfailure
    · cases hfailure
      exact List.forall_mem_nil _

theorem compileParticle_keeps (tag : String) (node : Xml.Element) (path : String)
    {parent : Option Xml.Element} (hmakes : schema.Makes settings parent.isSome property) :
    (∀ forms, compileParticle schema settings tag node path parent = .ok forms →
        ∀ form ∈ forms, form.Throughout property) ∧
      ∀ failure, compileParticle schema settings tag node path parent = .error failure →
        ∀ form ∈ failure.finished, form.Throughout property := by
  have hkept : ∀ particle path, Build.Kept parent.isSome (Form.Throughout property)
      (buildAtTop schema settings 0 particle path parent) := buildAtTop_leaves hmakes id 0
  constructor
  · intro forms hforms
    obtain ⟨particle, after, -, hbuild⟩ := compileParticle_eq_ok hforms
    have hall := hkept particle path
    rw [hbuild] at hall
    exact hall.1
  · intro failure hfailure
    simp only [compileParticle] at hfailure
    split at hfailure
    · split at hfailure
      · cases hfailure
        exact List.forall_mem_nil _
      · cases hfailure
        exact List.forall_mem_nil _
      · rename_i particle _
        have hall := hkept particle path
        rw [map_eq_error.mp hfailure] at hall
        exact hall
    · cases hfailure
      exact List.forall_mem_nil _

theorem throughout_of_left {request : Request}
    (hmakes : schema.Makes settings request.hasInstance property) :
    ∀ form ∈ request.left schema settings, form.Throughout property := by
  intro form hform
  rw [Request.left] at hform
  cases request with
  | root name document =>
      obtain ⟨hok, hfailed⟩ := compileForm_keeps name hmakes
      split at hform
      · rename_i compiled hcompiled
        obtain ⟨forms, hforms, rfl⟩ := map_eq_ok.mp hcompiled
        exact hok forms hforms form hform
      · rename_i failure hfailure
        exact hfailed failure (map_eq_error.mp hfailure) form hform
  | particle tag node path parent =>
      obtain ⟨hok, hfailed⟩ := compileParticle_keeps tag node path hmakes
      split at hform
      · rename_i compiled hcompiled
        obtain ⟨forms, hforms, rfl⟩ := map_eq_ok.mp hcompiled
        exact hok forms hforms form (List.append_nil forms ▸ hform)
      · rename_i failure hfailure
        exact hfailed failure (map_eq_error.mp hfailure) form hform

end

/-! ## Runs -/

namespace Arena

theorem Grows.form? {earlier later : Arena} (h : earlier.Grows later) {id : FormId} {form : Form}
    (hform : earlier.form? id = some form) : later.form? id = some form :=
  h.formWithin hform

mutual
theorem form?_of_insert_added (arena : Arena) (form : Form) {id : FormId}
    (hnew : arena.size ≤ id.index) (hid : id.index < (arena.insert form).1.size) :
    ∃ node ∈ form.nodes, (arena.insert form).1.form? id = some node := by
  cases form with
  | node label children =>
      by_cases hbelow : id.index < (arena.insertAll children).1.size
      · obtain ⟨node, hnode, hread⟩ := form?_of_insertAll_added arena children hnew hbelow
        exact ⟨node, List.mem_cons_of_mem _ hnode, (grows_append _ _).form? hread⟩
      · have hlast : id = (arena.insert (.node label children)).2 := by
          obtain ⟨index⟩ := id
          rw [insert, size_append] at hid
          exact congrArg FormId.mk
            (Nat.le_antisymm (Nat.le_of_lt_succ hid) (Nat.le_of_not_lt hbelow))
        rw [hlast]
        exact ⟨_, Form.mem_nodes_self _, form?_of_insert (.refl _)⟩

theorem form?_of_insertAll_added (arena : Arena) (forms : List Form) {id : FormId}
    (hnew : arena.size ≤ id.index) (hid : id.index < (arena.insertAll forms).1.size) :
    ∃ node ∈ Form.nodesOf forms, (arena.insertAll forms).1.form? id = some node := by
  cases forms with
  | nil => exact absurd hid (Nat.not_lt.mpr hnew)
  | cons form rest =>
      by_cases hfirst : id.index < (arena.insert form).1.size
      · obtain ⟨node, hnode, hread⟩ := form?_of_insert_added arena form hnew hfirst
        exact ⟨node, List.mem_append_left _ hnode, (grows_insertAll _ rest).form? hread⟩
      · obtain ⟨node, hnode, hread⟩ :=
          form?_of_insertAll_added _ rest (Nat.le_of_not_lt hfirst) hid
        exact ⟨node, List.mem_append_right _ hnode, hread⟩
end

end Arena

namespace Workspace

theorem Idle.arena_run {workspace : Workspace} (h : workspace.Idle) (request : Request) :
    (workspace.run request).2.arena =
      (workspace.arena.insertAll (request.left workspace.schema workspace.settings)).1 := by
  rw [h.run_eq, Request.left]
  cases request.compile workspace.schema workspace.settings with
  | error failure => rfl
  | ok compiled => exact (congrArg Prod.fst (Arena.insertAll_append _ _ _)).symm

/-- The nodes that a run has were left by its requests, and have what each request gives
its nodes. -/
theorem property_of_runs {schema : Schema} {settings : Settings} {property : Bool → Form → Prop}
    (hmakes : ∀ editing, schema.Makes settings editing (property editing))
    (requests : List Request) {id : FormId}
    (hid : id.index < ((new schema settings).runAll requests).arena.size) :
    ∃ earlier request later form, requests = earlier ++ request :: later ∧
      ((new schema settings).runAll earlier).arena.size ≤ id.index ∧
      id.index < ((new schema settings).runAll (earlier ++ [request])).arena.size ∧
      ((new schema settings).runAll requests).arena.form? id = some form ∧
      property request.hasInstance form := by
  induction requests using List.reverseRecOn with
  | nil => exact absurd hid (Nat.not_lt_zero _)
  | append_singleton requests request ih =>
      have hnew := idle_new schema settings
      have hsame := hnew.runAll_eq requests
      have hafter : ((new schema settings).runAll (requests ++ [request])).arena =
          (((new schema settings).runAll requests).arena.insertAll
            (request.left schema settings)).1 := by
        rw [runAll_append, runAll, runAll, (hnew.runAll requests).arena_run,
          congrArg Workspace.schema hsame, congrArg Workspace.settings hsame]
        rfl
      by_cases hold : id.index < ((new schema settings).runAll requests).arena.size
      · obtain ⟨earlier, first, later, form, rfl, hfrom, hto, hform, hproperty⟩ := ih hold
        refine ⟨earlier, first, later ++ [request], form, by simp, hfrom, hto, ?_, hproperty⟩
        rw [hafter]
        exact (Arena.grows_insertAll _ _).form? hform
      · have hnew := Nat.le_of_not_lt hold
        have hadded := hafter ▸ hid
        obtain ⟨form, hnode, hform⟩ := Arena.form?_of_insertAll_added _ _ hnew hadded
        rw [Form.nodesOf_eq_flatMap, List.mem_flatMap] at hnode
        obtain ⟨left, hleft, hnode⟩ := hnode
        exact ⟨requests, request, [], form, rfl, hnew, hid, by rw [hafter]; exact hform,
          throughout_of_left (hmakes _) left hleft form hnode⟩

end Workspace

end SchemaForms
