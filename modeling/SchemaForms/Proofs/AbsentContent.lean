import SchemaForms.Proofs.Instantiations
import SchemaForms.Proofs.ReopenableSchemas
import SchemaForms.Proofs.Selections

/-!
# Content that an instance does not have

A particle that the next element cannot begin takes nothing from the instance, and becomes
what it is compiled to without one: every element as many copies as are required, every
group as many instantiations, and no alternative is matched. Only attributes among the
members of a group would tell the two runs apart, since they read the instance around them.
-/

namespace SchemaForms

def BuildState.Lacks (named : String → Prop) (state : BuildState) : Prop :=
  ∀ element ∈ state.next?, ¬named element.name

theorem BuildState.Lacks.mono {named other : String → Prop} {state : BuildState}
    (h : state.Lacks named) (hnames : ∀ name, other name → named name) : state.Lacks other :=
  fun element helement hname => h element helement (hnames _ hname)

theorem BuildState.Lacks.of_cursor_eq {named : String → Prop} {state after : BuildState}
    (h : state.Lacks named) (hcursor : after.cursor = state.cursor) : after.Lacks named := by
  rwa [Lacks, next?_of_cursor_eq hcursor]

theorem Cursor.takeRun_of_lacks {cursor : Cursor} {name : String}
    (h : ∀ element ∈ cursor.next?, element.name ≠ name) (limit : MaxOccurs) :
    cursor.takeRun name limit = ([], cursor) := by
  have hnone : cursor.ahead.takeWhile (·.name == name) = [] := by
    rw [List.takeWhile_eq_nil_iff]
    intro hpos
    have hnext : cursor.next? = some cursor.ahead[0] := by
      rw [next?, List.head?_eq_getElem?, List.getElem?_eq_getElem hpos]
    simpa using h _ hnext
  simp [takeRun, run, hnone]

theorem Particle.names_declaration {schema : Schema} {settings : Settings} {node : Xml.Element}
    {declaration : Declaration}
    (h : Declaration.ofParticle schema settings node = .ok declaration) (bounds : Bounds) :
    (Particle.element node bounds).Names schema declaration.name := by
  obtain ⟨helement, hname, -⟩ := Declaration.ofParticle_eq_ok h
  exact names_element.mpr (bind_eq_ok.mpr ⟨_, helement, hname⟩)

theorem Declaration.takeRun_of_lacks {schema : Schema} {settings : Settings}
    {node : Xml.Element} {declaration : Declaration}
    (h : Declaration.ofParticle schema settings node = .ok declaration) {bounds : Bounds}
    {state : BuildState} (hlacks : state.Lacks ((Particle.element node bounds).Names schema))
    {cursor : Cursor} (hcursor : state.cursor = some cursor) (limit : MaxOccurs) :
    cursor.takeRun declaration.name limit = ([], cursor) := by
  refine Cursor.takeRun_of_lacks (fun element helement hname => ?_) limit
  have hnext : state.next? = cursor.next? := by
    rw [BuildState.next?, hcursor]
    rfl
  exact hlacks element (hnext ▸ helement) (hname ▸ Particle.names_declaration h bounds)

/-! ## The cursor stays -/

def LeavesUnless (named : String → Prop) (state : BuildState) (_ : List Form)
    (after : BuildState) : Prop :=
  state.Lacks named → after.cursor = state.cursor

theorem leavesUnless_invariant (named : String → Prop) :
    Build.Invariant (LeavesUnless named) where
  nothing := fun _ _ => rfl
  append := fun hbefore hrest hlacks =>
    (hrest (hlacks.of_cursor_eq (hbefore hlacks))).trans (hbefore hlacks)
  mapOptions := fun _ h => h
  withoutInstance := fun _ _ => rfl

def Level.LeavesAbsent (level : Level) : Prop :=
  ∀ context atLeast particle path,
    (level.particle context atLeast particle path).Ensures
      (LeavesUnless (particle.Names context.schema))

section

variable {deeper : Option Level} {context : Context} {path : String}

theorem buildElement_leavesAbsent (node : Xml.Element) (bounds : Bounds) (atLeast : Nat) :
    (buildElement deeper context node bounds atLeast path).Ensures
      (LeavesUnless ((Particle.element node bounds).Names context.schema)) := by
  intro state forms after hrun hlacks
  obtain ⟨declaration, hdeclaration, hbuild⟩ := buildElement_eq_ok.mp hrun
  cases hcursor : state.cursor with
  | none => exact (buildDeclared_eq_ok_of_none hcursor hbuild).2.1
  | some cursor =>
      obtain ⟨made, copies, -, -, -, -, hafter⟩ := buildDeclared_eq_ok_of_some hcursor hbuild
      rw [hafter, Declaration.takeRun_of_lacks hdeclaration hlacks hcursor]

theorem buildParticle_leavesAbsent (hdeeper : ∀ level ∈ deeper, level.LeavesAbsent)
    (atLeast : Nat) (particle : Particle) :
    (buildParticle deeper context atLeast particle path).Ensures
      (LeavesUnless (particle.Names context.schema)) := by
  cases particle with
  | element node bounds => exact buildElement_leavesAbsent node bounds atLeast
  | group compositor node bounds =>
      refine (leavesUnless_invariant _).group (fun level hlevel members hmembers member hmember
        atLeast state forms after hrun hlacks => ?_) fun state children last h => h
      exact hdeeper level hlevel _ _ _ _ _ _ _ hrun
        (hlacks.mono fun _ hname => .of_member hmembers hmember hname)
  | attributeUse node =>
      intro state forms after hrun _
      rw [(buildAttribute_attributesOnly _ _ _ _ _ _ _ hrun).1]

end

theorem levelBelow_leavesAbsent (depth : Nat) : ∀ level ∈ levelBelow depth, level.LeavesAbsent :=
  level_induction (fun _ hdeeper _ atLeast particle _ =>
    buildParticle_leavesAbsent hdeeper atLeast particle) depth

/-! ## The run without an instance -/

def Build.FreshUnless (named : String → Prop) (build : Build) : Prop :=
  ∀ state forms after others last, state.Lacks named → build state = .ok (forms, after) →
    build { state with cursor := none } = .ok (others, last) →
      others = forms ∧ after.cursor = state.cursor ∧ last = { after with cursor := none }

namespace Build.FreshUnless

variable {named : String → Prop} {build first second : Build}

theorem mono {other : String → Prop} (h : build.FreshUnless named)
    (hnames : ∀ name, named name → other name) : build.FreshUnless other :=
  fun _ _ _ _ _ hlacks hrun hfresh => h _ _ _ _ _ (hlacks.mono hnames) hrun hfresh

theorem nothing : Build.nothing.FreshUnless named := by
  intro state forms after others last _ hrun hfresh
  obtain ⟨rfl, rfl⟩ := nothing_eq_ok.mp hrun
  obtain ⟨rfl, rfl⟩ := nothing_eq_ok.mp hfresh
  exact ⟨rfl, rfl, rfl⟩

theorem andThen (hfirst : first.FreshUnless named) (hsecond : second.FreshUnless named) :
    (first.andThen second).FreshUnless named := by
  intro state forms after others last hlacks hrun hfresh
  obtain ⟨before, middle, rest, hbefore, hrest, rfl⟩ := andThen_eq_ok.mp hrun
  obtain ⟨before', middle', rest', hbefore', hrest', rfl⟩ := andThen_eq_ok.mp hfresh
  obtain ⟨rfl, hmiddle, rfl⟩ := hfirst _ _ _ _ _ hlacks hbefore hbefore'
  obtain ⟨rfl, hafter, rfl⟩ :=
    hsecond _ _ _ _ _ (hlacks.of_cursor_eq hmiddle) hrest hrest'
  exact ⟨rfl, hafter.trans hmiddle, rfl⟩

theorem all {builds : List Build} (h : ∀ build ∈ builds, build.FreshUnless named) :
    (Build.all builds).FreshUnless named := by
  induction builds with
  | nil => exact nothing
  | cons build rest ih =>
      rw [List.forall_mem_cons] at h
      exact h.1.andThen (ih h.2)

theorem replicate (h : build.FreshUnless named) (count : Nat) :
    (Build.all (List.replicate count build)).FreshUnless named :=
  all fun _ hbuild => List.eq_of_mem_replicate hbuild ▸ h

theorem mapForms (h : build.FreshUnless named) (change : Form → Form) :
    (build.mapForms change).FreshUnless named := by
  intro state forms after others last hlacks hrun hfresh
  obtain ⟨made, hmade, rfl⟩ := mapForms_eq_ok.mp hrun
  obtain ⟨made', hmade', rfl⟩ := mapForms_eq_ok.mp hfresh
  obtain ⟨rfl, hafter, hlast⟩ := h _ _ _ _ _ hlacks hmade hmade'
  exact ⟨rfl, hafter, hlast⟩

theorem withoutInstance (build : Build) : build.withoutInstance.FreshUnless named := by
  intro state forms after others last _ hrun hfresh
  obtain ⟨reached, hmade, rfl⟩ := withoutInstance_eq_ok.mp hrun
  obtain ⟨reached', hmade', rfl⟩ := withoutInstance_eq_ok.mp hfresh
  cases hmade.symm.trans hmade'
  exact ⟨rfl, rfl, rfl⟩

theorem grouped (h : build.FreshUnless named) (compositor : Compositor) (node : Xml.Element)
    (bounds : Bounds) (path : String) :
    (build.grouped compositor node bounds path).FreshUnless named := by
  intro state forms after others last hlacks hrun hfresh
  obtain ⟨children, reached, hchildren, rfl, rfl⟩ := grouped_eq_ok.mp hrun
  obtain ⟨children', reached', hchildren', rfl, rfl⟩ := grouped_eq_ok.mp hfresh
  obtain ⟨rfl, hafter, rfl⟩ := h _ _ _ _ _ hlacks hchildren hchildren'
  exact ⟨rfl, hafter, rfl⟩

end Build.FreshUnless

/-! ## Elements -/

section

variable {named : String → Prop} {deeper : Option Level} {context : Context} {path : String}

theorem buildCopies_freshUnless (declaration : Declaration) (bounds : Bounds) (count : Nat) :
    (buildCopies deeper context declaration bounds path count).FreshUnless named := by
  refine Build.FreshUnless.replicate ?_ count
  intro state forms after others last _ hrun hfresh
  obtain ⟨content, hcontent, rfl, rfl⟩ := buildOccurrence_eq_ok.mp hrun
  obtain ⟨content', hcontent', rfl, rfl⟩ := buildOccurrence_eq_ok.mp hfresh
  cases hcontent.symm.trans hcontent'
  exact ⟨rfl, rfl, rfl⟩

/-- Copies of a type that is being compiled cannot be made. -/
theorem not_encloses_of_buildCopies {declaration : Declaration} {definition : Xml.Element}
    (hcontent : declaration.content = .complex definition) {bounds : Bounds} {count : Nat}
    (hcount : 0 < count) {state after : BuildState} {forms : List Form}
    (hrun : buildCopies deeper context declaration bounds path count state =
      .ok (forms, after)) : context.encloses definition = false := by
  obtain ⟨hlength, -, hcopies⟩ := buildCopies_eq_ok hrun
  obtain ⟨form, hform⟩ := List.exists_mem_of_length_pos (hlength ▸ hcount)
  obtain ⟨place, content, helement, -⟩ := hcopies form hform
  rcases elementContent_eq_ok.mp helement with ⟨hsimple, -⟩ |
    ⟨other, level, children, last, hother, -, hfree, -⟩
  · cases hcontent.symm.trans hsimple
  · cases hcontent.symm.trans hother
    exact hfree.resolve_left (by simp)

theorem copiesWithoutInstance_eq (hplaceholder : context.settings.placeholder = .none)
    {declaration : Declaration} {bounds : Bounds} {atLeast : Nat} {state after : BuildState}
    {forms : List Form}
    (hrun : buildCopies deeper context declaration bounds path (max bounds.min atLeast) state =
      .ok (forms, after)) :
    copiesWithoutInstance context declaration bounds atLeast = max bounds.min atLeast := by
  have hinitial : initialCount bounds context.settings.placeholder = bounds.min := by
    simp [initialCount, hplaceholder]
  rw [copiesWithoutInstance, hinitial]
  cases hcontent : declaration.content with
  | simple => rfl
  | complex definition =>
      rcases Nat.eq_zero_or_pos (max bounds.min atLeast) with hzero | hcount
      · simp [hzero]
      · simp [not_encloses_of_buildCopies hcontent hcount hrun]

theorem buildDeclared_of_lacks {node : Xml.Element} {declaration : Declaration} {bounds : Bounds}
    (hdeclaration : Declaration.ofParticle context.schema context.settings node =
      .ok declaration) {state : BuildState}
    (hlacks : state.Lacks ((Particle.element node bounds).Names context.schema))
    (hcursor : state.cursor.isSome = true) (atLeast : Nat) :
    buildDeclared deeper context declaration bounds atLeast path state =
      buildCopies deeper context declaration bounds path (max bounds.min atLeast) state := by
  obtain ⟨steps, _ | cursor⟩ := state
  · cases hcursor
  · simp only [buildDeclared, Declaration.takeRun_of_lacks hdeclaration hlacks rfl]
    exact congrFun (Build.nothing_andThen _) _

theorem buildElement_freshUnless (hplaceholder : context.settings.placeholder = .none)
    (node : Xml.Element) (bounds : Bounds) (atLeast : Nat) :
    (buildElement deeper context node bounds atLeast path).FreshUnless
      ((Particle.element node bounds).Names context.schema) := by
  intro state forms after others last hlacks hrun hfresh
  obtain ⟨declaration, hdeclaration, hbuild⟩ := buildElement_eq_ok.mp hrun
  obtain ⟨declaration', hdeclaration', hfresh⟩ := buildElement_eq_ok.mp hfresh
  cases hdeclaration.symm.trans hdeclaration'
  have hcopies : ∃ count, buildCopies deeper context declaration bounds path count state =
      .ok (forms, after) ∧
      copiesWithoutInstance context declaration bounds (bounds.max.cap atLeast) = count := by
    cases hcursor : state.cursor with
    | none =>
        rw [buildDeclared, hcursor] at hbuild
        exact ⟨_, hbuild, rfl⟩
    | some cursor =>
        rw [buildDeclared_of_lacks hdeclaration hlacks (by rw [hcursor]; rfl)] at hbuild
        exact ⟨_, hbuild, copiesWithoutInstance_eq hplaceholder hbuild⟩
  obtain ⟨count, hcopies, hcount⟩ := hcopies
  simp only [buildDeclared, hcount] at hfresh
  exact buildCopies_freshUnless declaration bounds count _ _ _ _ _ hlacks hcopies hfresh

end

/-! ## Groups -/

section

variable {one : Build} {names : List String} {bounds : Bounds}

theorem lt_requiredCount_of_lacks {repeated : Bool} {count : Nat} {state : BuildState}
    (hlacks : state.Lacks (· ∈ names))
    (hgoes : endsAfter repeated names bounds count state.next? = false) :
    count < requiredCount bounds := by
  refine Nat.lt_of_not_le fun hrequired => ?_
  obtain ⟨element, helement, hname⟩ := (begins_of_endsAfter_eq_false hgoes hrequired).1
  exact hlacks element helement hname

theorem Repetition.fresh (hone : one.FreshUnless (· ∈ names)) {repeated : Bool} {count : Nat}
    {state after last : BuildState} {runs : List Instantiation} {others : List Form}
    (h : Repetition repeated names bounds one count state runs after)
    (hlacks : state.Lacks (· ∈ names))
    (hfresh : Build.all (List.replicate (requiredCount bounds - count) one)
      { state with cursor := none } = .ok (others, last)) :
    others = runs.map (·.form) ∧ after.cursor = state.cursor ∧
      last = { after with cursor := none } := by
  -- Nothing is taken, so the instance lacks the names at every instantiation, and ends them
  -- where the replicates end too: after the required ones.
  induction h generalizing others with
  | ends hends =>
      rw [Nat.sub_eq_zero_of_le (endsAfter_eq_true.mp hends).1] at hfresh
      obtain ⟨rfl, rfl⟩ := Build.nothing_eq_ok.mp hfresh
      exact ⟨rfl, rfl, rfl⟩
  | @stops count before after form hgoes hrun hrequired _ =>
      have hlt := lt_requiredCount_of_lacks hlacks hgoes
      rw [show requiredCount bounds - count = 1 by omega] at hfresh
      obtain ⟨made, middle, rest, hmade, hrest, rfl⟩ := Build.andThen_eq_ok.mp hfresh
      obtain ⟨rfl, rfl⟩ := Build.nothing_eq_ok.mp hrest
      obtain ⟨rfl, hcursor, hlast⟩ := hone _ _ _ _ _ hlacks hrun hmade
      exact ⟨rfl, hcursor, hlast⟩
  | @goesOn count before middle after form rest hgoes hrun _ _ ih =>
      have hlt := lt_requiredCount_of_lacks hlacks hgoes
      rw [show requiredCount bounds - count = requiredCount bounds - (count + 1) + 1 by omega]
        at hfresh
      obtain ⟨made, reached, more, hmade, hmore, rfl⟩ := Build.andThen_eq_ok.mp hfresh
      obtain ⟨rfl, hcursor, rfl⟩ := hone _ _ _ _ _ hlacks hrun hmade
      obtain ⟨rfl, hafter, hlast⟩ := ih (hlacks.of_cursor_eq hcursor) hmore
      exact ⟨rfl, hafter.trans hcursor, hlast⟩

theorem remarkedForms_of_allows {tag : String} {max : MaxOccurs} {count : Nat}
    {runs : List Instantiation} (h : max.allows (count + runs.length) = true) :
    remarkedForms tag max count runs = runs.map (·.form) := by
  induction runs generalizing count with
  | nil => rfl
  | cons run rest ih =>
      rw [List.length_cons, Nat.add_comm rest.length, ← Nat.add_assoc] at h
      have hfirst : surplusError tag max (count + 1) = none :=
        surplusError_eq_none.mpr (MaxOccurs.allows_of_le (Nat.le_add_right _ rest.length) h)
      have hrest := ih h
      simp only [remarkedForms, List.zipIdx_cons, List.map_cons, hfirst] at hrest ⊢
      rw [hrest]
      rfl

theorem instantiate_freshUnless {named : String → Prop} {context : Context} {group : Particle}
    {compositor : Compositor} (hmakes : one.MakesOne fun _ => True) (hadvancing : one.Advancing)
    (hone : one.FreshUnless named)
    (hnames : ∀ names, firstNames context.schema group = .ok names →
      ∀ name, name ∈ names ↔ named name) :
    (instantiate context group compositor bounds one).FreshUnless named := by
  intro state forms after others last hlacks hrun hfresh
  by_cases hmax : bounds.max = .count 0
  · simp only [instantiate, if_pos hmax] at hrun hfresh
    cases hrun
    cases hfresh
    exact ⟨rfl, rfl, rfl⟩
  have hreplicate : Build.all (List.replicate (requiredCount bounds) one)
      { state with cursor := none } = .ok (others, last) := by
    simpa only [instantiate, if_neg hmax] using hfresh
  cases hcursor : state.cursor with
  | none =>
      simp only [instantiate, if_neg hmax, hcursor] at hrun
      exact hcursor ▸ hone.replicate _ _ _ _ _ _ hlacks hrun hreplicate
  | some cursor =>
      obtain ⟨names, runs, hfound, hruns, rfl⟩ := instantiate_eq_ok_of_some hmakes hadvancing hmax
        (by rw [hcursor]; rfl) hrun
      have hmem := hnames names hfound
      obtain ⟨rfl, hafter, hlast⟩ := hruns.fresh (hone.mono fun name => (hmem name).mpr)
        (hlacks.mono fun name => (hmem name).mp) hreplicate
      have hlength := (hmakes.replicate hreplicate).1
      rw [List.length_map] at hlength
      rw [remarkedForms_of_allows (allows_required hmax (by omega)), ← hcursor]
      exact ⟨rfl, hafter, hlast⟩

end

/-! ## Particles -/

/-- No attribute stands among the members of a group of the particle. -/
def Particle.AttributeFree (schema : Schema) (particle : Particle) : Prop :=
  ∀ node, ¬particle.Contains schema (.attributeUse node)

theorem Particle.attributeFree_element {schema : Schema} (node : Xml.Element)
    (bounds : Bounds) : (Particle.element node bounds).AttributeFree schema := by
  rintro inner hinner
  cases hinner

theorem Particle.attributeFree_group {schema : Schema} {node : Xml.Element}
    {members : List Particle} (hmembers : Particle.members schema node = .ok members)
    (compositor : Compositor) (bounds : Bounds) :
    (Particle.group compositor node bounds).AttributeFree schema ↔
      ∀ member ∈ members, member.AttributeFree schema := by
  constructor
  · exact fun h member hmember inner hinner => h inner (.member hmembers hmember hinner)
  · rintro h inner hinner
    cases hinner with
    | member hothers hmember hinner =>
        cases hmembers.symm.trans hothers
        exact h _ hmember inner hinner

def Level.FreshAbsent (level : Level) : Prop :=
  ∀ context atLeast particle path, context.settings.placeholder = .none →
    particle.AttributeFree context.schema →
      (level.particle context atLeast particle path).FreshUnless
        (particle.Names context.schema)

section

variable {context : Context} {path : String} {level : Level} {members : List Particle}

theorem buildSequence_freshUnless {named : String → Prop}
    (hmembers : ∀ member ∈ members,
      (level.particle context 0 member path).FreshUnless named) :
    (buildSequence level context members path).FreshUnless named := by
  refine Build.FreshUnless.all fun build hbuild => ?_
  obtain ⟨member, hmember, rfl⟩ := List.mem_map.mp hbuild
  exact hmembers member hmember

theorem buildChoice_freshUnless :
    (buildChoice level context members path).FreshUnless (Named context.schema members) := by
  intro state forms after others last hlacks hrun hfresh
  obtain ⟨matched, hmatched, hrun⟩ := Build.ofFault_eq_ok.mp hrun
  obtain ⟨matched', hmatched', hfresh⟩ := Build.ofFault_eq_ok.mp hfresh
  obtain rfl := alternativeFor_eq_none hmatched hlacks
  obtain rfl := alternativeFor_eq_none hmatched' (by simp [BuildState.next?])
  refine Build.FreshUnless.all (fun build hbuild => ?_) _ _ _ _ _ hlacks hrun hfresh
  obtain ⟨⟨alternative, index⟩, -, rfl⟩ := List.mem_map.mp hbuild
  simp only [buildAlternative, reduceCtorEq, if_false]
  exact (Build.FreshUnless.withoutInstance _).mapForms _

variable {deeper : Option Level}

theorem buildGroup_freshUnless
    (hdeeper : ∀ level ∈ deeper, level.Advancing ∧ level.FreshAbsent)
    (hplaceholder : context.settings.placeholder = .none) {compositor : Compositor}
    {node : Xml.Element} {bounds : Bounds}
    (hfree : (Particle.group compositor node bounds).AttributeFree context.schema) :
    (buildGroup deeper context compositor node bounds path).FreshUnless
      ((Particle.group compositor node bounds).Names context.schema) := by
  intro state forms after others last hlacks hrun hfresh
  obtain ⟨level, members, hlevel, -, hmembers, hrun⟩ := buildGroup_eq_ok.mp hrun
  obtain ⟨level', members', hlevel', -, hmembers', hfresh⟩ := buildGroup_eq_ok.mp hfresh
  obtain rfl := Option.mem_unique hlevel hlevel'
  cases hmembers.symm.trans hmembers'
  obtain ⟨hadvancing, habsent⟩ := hdeeper level hlevel
  have hnamed : ∀ member ∈ members, ∀ name, member.Names context.schema name →
      (Particle.group compositor node bounds).Names context.schema name :=
    fun member hmember name hname => .of_member hmembers hmember hname
  have hone : (oneInstantiation level context compositor members node bounds path).FreshUnless
      ((Particle.group compositor node bounds).Names context.schema) := by
    refine Build.FreshUnless.grouped ?_ compositor node bounds path
    cases compositor with
    | sequence =>
        refine buildSequence_freshUnless fun member hmember => ?_
        have hinner := (Particle.attributeFree_group hmembers .sequence bounds).mp hfree
        exact (habsent (context.insideGroup node bounds) 0 member path hplaceholder
          (hinner member hmember)).mono (hnamed member hmember)
    | choice =>
        refine buildChoice_freshUnless.mono fun name hname => ?_
        obtain ⟨member, hmember, hname⟩ := hname
        exact hnamed member hmember name hname
  exact instantiate_freshUnless
    ((oneInstantiation_makesOne _ _ _ _ _ _ _).mono fun _ _ => trivial)
    (oneInstantiation_advancing hadvancing compositor members node bounds) hone
    (fun names hnames name => mem_firstNames hnames) _ _ _ _ _ hlacks hrun hfresh

theorem buildParticle_freshUnless
    (hdeeper : ∀ level ∈ deeper, level.Advancing ∧ level.FreshAbsent)
    (hplaceholder : context.settings.placeholder = .none) {particle : Particle}
    (hfree : particle.AttributeFree context.schema) (atLeast : Nat) :
    (buildParticle deeper context atLeast particle path).FreshUnless
      (particle.Names context.schema) := by
  cases particle with
  | element node bounds => exact buildElement_freshUnless hplaceholder node bounds atLeast
  | group compositor node bounds => exact buildGroup_freshUnless hdeeper hplaceholder hfree
  | attributeUse node => exact (hfree node .self).elim

end

theorem levelBelow_freshAbsent (depth : Nat) :
    ∀ level ∈ levelBelow depth, level.Advancing ∧ level.FreshAbsent :=
  level_induction_of levelBelow_advancing (fun _ hdeeper _ atLeast _ _ hplaceholder hfree =>
    buildParticle_freshUnless hdeeper hplaceholder hfree atLeast) depth

theorem Particle.lacks_of_begins {schema : Schema} {particle : Particle} {state : BuildState}
    {names : List String} (hnames : firstNames schema particle = .ok names)
    (h : particle.begins schema state.next? = false) : state.Lacks (particle.Names schema) := by
  intro element helement hname
  have hbegins := (begins_eq_true hnames).mpr ⟨element, helement, hname⟩
  rw [h] at hbegins
  cases hbegins

theorem firstNames_of_buildParticle {deeper : Option Level} {context : Context} {atLeast : Nat}
    {particle : Particle} {path : String} {state after : BuildState} {forms : List Form}
    (hcursor : state.cursor.isSome = true)
    (hrun : buildParticle deeper context atLeast particle path state = .ok (forms, after)) :
    (∃ names, firstNames context.schema particle = .ok names) ∨
      ∃ compositor node bounds, particle = .group compositor node bounds ∧
        bounds.max = .count 0 := by
  cases particle with
  | element node bounds =>
      obtain ⟨declaration, hdeclaration, -⟩ := buildElement_eq_ok.mp hrun
      have hname := Particle.names_element.mp (Particle.names_declaration hdeclaration bounds)
      exact .inl ⟨_, bind_eq_ok.mpr ⟨_, hname, rfl⟩⟩
  | group compositor node bounds =>
      by_cases hmax : bounds.max = .count 0
      · exact .inr ⟨compositor, node, bounds, rfl, hmax⟩
      obtain ⟨level, members, -, -, -, hrun⟩ := buildGroup_eq_ok.mp hrun
      obtain ⟨cursor, hcursor⟩ := Option.isSome_iff_exists.mp hcursor
      simp only [instantiate, if_neg hmax, hcursor] at hrun
      obtain ⟨names, hnames, -⟩ := Build.ofFault_eq_ok.mp hrun
      exact .inl ⟨names, hnames⟩
  | attributeUse node => exact .inl ⟨[], rfl⟩

/-- A particle that the next element cannot begin takes nothing from the instance. Without
placeholders, it becomes the same forms as without an instance, and gives the same places. -/
theorem buildParticle_of_absent {depth atLeast : Nat} {context : Context} {particle : Particle}
    {path : String} {state after : BuildState} {forms : List Form}
    (hplaceholder : context.settings.placeholder = .none)
    (hfree : particle.AttributeFree context.schema)
    (habsent : particle.begins context.schema state.next? = false)
    (hrun : buildParticle (levelBelow depth) context atLeast particle path state =
      .ok (forms, after)) :
    after.cursor = state.cursor ∧
      ∀ others last, buildParticle (levelBelow depth) context atLeast particle path
          { state with cursor := none } = .ok (others, last) →
        others = forms ∧ last.steps = after.steps := by
  have hlacks : state.Lacks (particle.Names context.schema) ∨
      ∃ compositor node bounds, particle = .group compositor node bounds ∧
        bounds.max = .count 0 := by
    cases hcursor : state.cursor with
    | none =>
        refine .inl fun element helement => ?_
        rw [BuildState.next?, hcursor] at helement
        cases helement
    | some cursor =>
        refine (firstNames_of_buildParticle (by rw [hcursor]; rfl) hrun).imp_left ?_
        rintro ⟨names, hnames⟩
        exact Particle.lacks_of_begins hnames habsent
  rcases hlacks with hlacks | ⟨compositor, node, bounds, rfl, hmax⟩
  · refine ⟨buildParticle_leavesAbsent (levelBelow_leavesAbsent depth) atLeast particle _ _ _ hrun
      hlacks, fun others last hfresh => ?_⟩
    obtain ⟨hforms, -, rfl⟩ := buildParticle_freshUnless (levelBelow_freshAbsent depth)
      hplaceholder hfree atLeast _ _ _ _ _ hlacks hrun hfresh
    exact ⟨hforms, rfl⟩
  · obtain ⟨rfl, rfl⟩ := (buildParticle_instantiates hrun).1 hmax
    refine ⟨rfl, fun others last hfresh => ?_⟩
    obtain ⟨rfl, rfl⟩ := (buildParticle_instantiates hfresh).1 hmax
    exact ⟨rfl, rfl⟩

def mealChoice : Particle := .group .choice (mealDocument.node 3) ⟨1, .unbounded, rfl⟩

def tipFirst : Xml.Document :=
  .ofRoots (.plain "meal" [] [.plain "tip" [] [], .plain "dish" [] []]) []

theorem mealChoice_attributeFree : mealChoice.AttributeFree (Schema.given mealDocument) := by
  have hdrinks : Particle.members (Schema.given mealDocument) (mealDocument.node 5) =
      .ok [.element (mealDocument.node 6) .single,
        .element (mealDocument.node 7) ⟨0, .count 1, rfl⟩] := by decide +kernel
  have hmeal : Particle.members (Schema.given mealDocument) (mealDocument.node 3) =
      .ok mealAlternatives := by decide +kernel
  rw [mealChoice, Particle.attributeFree_group hmeal, mealAlternatives]
  simp only [List.forall_mem_cons, List.not_mem_nil, false_imp_iff, implies_true, and_true,
    Particle.attributeFree_element, Particle.attributeFree_group hdrinks]

theorem tipFirst_absent :
    Settings.default.placeholder = .none ∧
    mealChoice.AttributeFree (Schema.given mealDocument) ∧
    mealChoice.begins (Schema.given mealDocument)
      (BuildState.start (some tipFirst.root)).next? = false ∧
    ∃ forms after last,
      buildParticle (levelBelow 4) (.start (Schema.given mealDocument) .default) 0 mealChoice
        "/meal[1]" (.start (some tipFirst.root)) = .ok (forms, after) ∧
      after.cursor = (BuildState.start (some tipFirst.root)).cursor ∧
      buildParticle (levelBelow 4) (.start (Schema.given mealDocument) .default) 0 mealChoice
        "/meal[1]" (.start none) = .ok (forms, last) ∧
      last.steps = after.steps := by
  have habsent : mealChoice.begins (Schema.given mealDocument)
      (BuildState.start (some tipFirst.root)).next? = false := by decide +kernel
  obtain ⟨⟨forms, after⟩, hrun⟩ : ∃ made, buildParticle (levelBelow 4)
      (.start (Schema.given mealDocument) .default) 0 mealChoice "/meal[1]"
      (.start (some tipFirst.root)) = .ok made := exists_of_isOk (by decide +kernel)
  obtain ⟨⟨others, last⟩, hfresh⟩ : ∃ made, buildParticle (levelBelow 4)
      (.start (Schema.given mealDocument) .default) 0 mealChoice "/meal[1]" (.start none) =
        .ok made := exists_of_isOk (by decide +kernel)
  obtain ⟨hcursor, hsame⟩ := buildParticle_of_absent rfl mealChoice_attributeFree habsent hrun
  obtain ⟨rfl, hsteps⟩ := hsame others last hfresh
  exact ⟨rfl, mealChoice_attributeFree, habsent, others, after, last, hrun, hcursor, hfresh,
    hsteps⟩

end SchemaForms
