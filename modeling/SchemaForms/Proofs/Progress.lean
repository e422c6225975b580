import SchemaForms.Proofs.AbsentContent
import SchemaForms.Proofs.Reconciliation

/-!
# What first names promise

If the next element has one of the first names of a particle, the particle takes it: an
element particle takes its occurrences, a sequence does so at its first member with that
name, and a choice in the alternative that is matched. This needs that no particle with
the name occurs never. First names do not look at bounds, so without it a group can be
instantiated for an element that it leaves where it is.
-/

namespace SchemaForms

/-- Nothing in the particle that has the name occurs never. -/
def Particle.OccursFor (schema : Schema) (name : String) (particle : Particle) : Prop :=
  ∀ inner, particle.Contains schema inner → inner.Names schema name →
    inner.bounds.max ≠ .count 0

theorem Particle.names_of_begins {schema : Schema} {next : Option Xml.Element}
    {particle : Particle} (h : particle.begins schema next = true) :
    ∃ element ∈ next, particle.Names schema element.name := by
  cases hnames : firstNames schema particle with
  | error fault =>
      cases next <;> simp [begins, hnames, Except.toOption] at h
  | ok names => exact (begins_eq_true hnames).mp h

theorem Particle.OccursFor.of_member {schema : Schema} {name : String} {compositor : Compositor}
    {node : Xml.Element} {bounds : Bounds} {members : List Particle}
    (h : (Particle.group compositor node bounds).OccursFor schema name)
    (hmembers : Particle.members schema node = .ok members) {member : Particle}
    (hmember : member ∈ members) : member.OccursFor schema name :=
  fun inner hinner => h inner (.member hmembers hmember hinner)

def BuildState.Meets (name : String) (state : BuildState) : Prop :=
  ∃ element ∈ state.next?, element.name = name

theorem BuildState.Meets.of_cursor_eq {name : String} {state after : BuildState}
    (h : state.Meets name) (hcursor : after.cursor = state.cursor) : after.Meets name := by
  rwa [Meets, next?_of_cursor_eq hcursor]

theorem BuildState.Meets.isSome {name : String} {state : BuildState} (h : state.Meets name) :
    state.cursor.isSome = true := by
  obtain ⟨element, helement, -⟩ := h
  obtain ⟨cursor, hcursor, -⟩ := Option.bind_eq_some_iff.mp helement
  rw [hcursor]
  rfl

theorem BuildState.Meets.lacks {name : String} {state : BuildState} {named : String → Prop}
    (h : state.Meets name) (hnamed : ¬named name) : state.Lacks named := by
  obtain ⟨element, helement, rfl⟩ := h
  intro other hother
  rwa [Option.mem_unique hother helement]

def TakesAt (name : String) (state : BuildState) (_ : List Form) (after : BuildState) : Prop :=
  state.Meets name → after.ahead.length < state.ahead.length

namespace Build

variable {name : String} {first second : Build}

theorem Ensures.takesAt_andThen (hfirst : first.Ensures (TakesAt name))
    (hsecond : second.Advancing) : (first.andThen second).Ensures (TakesAt name) := by
  intro state forms after hrun hmeets
  obtain ⟨before, middle, rest, hbefore, hrest, rfl⟩ := andThen_eq_ok.mp hrun
  exact Nat.lt_of_le_of_lt (hsecond _ _ _ hrest).ahead.length_le (hfirst _ _ _ hbefore hmeets)

theorem Ensures.andThen_takesAt
    (hfirst : first.Ensures fun state _ after => state.Meets name → after.cursor = state.cursor)
    (hsecond : second.Ensures (TakesAt name)) :
    (first.andThen second).Ensures (TakesAt name) := by
  intro state forms after hrun hmeets
  obtain ⟨before, middle, rest, hbefore, hrest, rfl⟩ := andThen_eq_ok.mp hrun
  have hcursor := hfirst _ _ _ hbefore hmeets
  have hlater := hsecond _ _ _ hrest (hmeets.of_cursor_eq hcursor)
  simpa only [BuildState.ahead, hcursor] using hlater

end Build

/-! ## Elements -/

theorem Cursor.length_takeRun_lt {cursor : Cursor} {element : Xml.Element}
    (hnext : element ∈ cursor.next?) {limit : MaxOccurs} (hlimit : limit ≠ .count 0) :
    (cursor.takeRun element.name limit).2.ahead.length < cursor.ahead.length := by
  obtain ⟨rest, hahead⟩ := List.head?_eq_some_iff.mp hnext
  have hleft : (cursor.takeRun element.name limit).2.ahead <:+ rest :=
    takeRun_suffix (hahead ▸ List.suffix_rfl : cursor.ahead <:+ [element] ++ rest) (by simp)
      (MaxOccurs.allows_one hlimit)
  rw [hahead, List.length_cons]
  exact Nat.lt_succ_of_le hleft.length_le

section

variable {deeper : Option Level} {context : Context} {path name : String}

theorem buildElement_takesAt {node : Xml.Element} {bounds : Bounds}
    (hname : (Particle.element node bounds).Names context.schema name)
    (hmax : bounds.max ≠ .count 0) (atLeast : Nat) :
    (buildElement deeper context node bounds atLeast path).Ensures (TakesAt name) := by
  rintro state forms after hrun ⟨element, helement, rfl⟩
  obtain ⟨declaration, hdeclaration, hbuild⟩ := buildElement_eq_ok.mp hrun
  have hsame : declaration.name = element.name := by
    have hfound := Particle.names_element.mp (Particle.names_declaration hdeclaration bounds)
    exact Except.ok.inj (hfound.symm.trans (Particle.names_element.mp hname))
  obtain ⟨cursor, hcursor, hnext⟩ := Option.bind_eq_some_iff.mp helement
  obtain ⟨made, copies, -, -, -, -, hafter⟩ := buildDeclared_eq_ok_of_some hcursor hbuild
  simp only [BuildState.ahead, hafter, hcursor, hsame]
  refine Cursor.length_takeRun_lt hnext ?_
  unfold takingLimit
  split
  · exact hmax
  · simp

end

/-! ## Groups -/

def Level.TakesNamed (level : Level) : Prop :=
  ∀ context atLeast particle path name, particle.Names context.schema name →
    particle.OccursFor context.schema name →
      (level.particle context atLeast particle path).Ensures (TakesAt name)

section

variable {level : Level} {context : Context} {members : List Particle} {path name : String}

theorem buildSequence_takesAt (hadvancing : level.Advancing) (hleaves : level.LeavesAbsent)
    (htakes : level.TakesNamed) (hnamed : Named context.schema members name)
    (hoccurs : ∀ member ∈ members, member.OccursFor context.schema name) :
    (buildSequence level context members path).Ensures (TakesAt name) := by
  induction members with
  | nil =>
      obtain ⟨member, hmember, -⟩ := hnamed
      cases hmember
  | cons member rest ih =>
      rw [List.forall_mem_cons] at hoccurs
      by_cases hname : member.Names context.schema name
      · exact (htakes _ _ _ _ _ hname hoccurs.1).takesAt_andThen
          (buildMembers_advancing hadvancing .sequence rest)
      · have hleft : Named context.schema rest name := by
          obtain ⟨other, hother, hin⟩ := hnamed
          rcases List.mem_cons.mp hother with rfl | hother
          · exact (hname hin).elim
          · exact ⟨other, hother, hin⟩
        exact Build.Ensures.andThen_takesAt (fun state forms after hmade hmeets =>
          hleaves _ _ _ _ _ _ _ hmade (hmeets.lacks hname)) (ih hleft hoccurs.2)

theorem buildAlternatives_takesAt (hadvancing : level.Advancing)
    {matched selected : Option Nat} {alternative : Particle} {index offset : Nat}
    (hmatched : matched = some (index + offset))
    (halternative : members[offset]? = some alternative)
    (htakes : (level.particle context 1 alternative path).Ensures (TakesAt name)) :
    (Build.all ((members.zipIdx index).map fun numbered =>
      buildAlternative level context path matched selected numbered.1 numbered.2)).Ensures
        (TakesAt name) := by
  induction members generalizing index offset with
  | nil => cases halternative
  | cons member rest ih =>
      cases offset with
      | zero =>
          cases halternative
          refine Build.Ensures.takesAt_andThen (fun state forms after hrun => ?_)
            (Build.Advancing.all fun build hbuild => ?_)
          · obtain ⟨made, rfl, ⟨-, hmade⟩ | ⟨hother, -⟩⟩ := buildAlternative_eq_ok.mp hrun
            · have htaken := htakes _ _ _ hmade
              exact htaken
            · exact (hother hmatched).elim
          · obtain ⟨numbered, -, rfl⟩ := List.mem_map.mp hbuild
            exact buildAlternative_advancing hadvancing _ _ _ _
      | succ offset =>
          refine Build.Ensures.andThen_takesAt (fun state forms after hrun _ => ?_)
            (ih (by rw [hmatched]; congr 1; omega) halternative)
          obtain ⟨made, rfl, ⟨hfirst, -⟩ | ⟨-, last, -, rfl⟩⟩ := buildAlternative_eq_ok.mp hrun
          · have hindex := Option.some.inj (hmatched.symm.trans hfirst)
            omega
          · rfl

theorem buildChoice_takesAt (hadvancing : level.Advancing) (htakes : level.TakesNamed)
    (hnamed : Named context.schema members name)
    (hoccurs : ∀ member ∈ members, member.OccursFor context.schema name) :
    (buildChoice level context members path).Ensures (TakesAt name) := by
  rintro state forms after hrun ⟨element, helement, rfl⟩
  obtain ⟨matched, hmatched, hrun⟩ := Build.ofFault_eq_ok.mp hrun
  rw [Option.mem_def.mp helement] at hmatched
  obtain ⟨hsome, hnone⟩ := firstBeginning_eq_ok hmatched
  cases matched with
  | none => exact (hnone rfl hnamed).elim
  | some index =>
      obtain ⟨alternative, halternative, hname⟩ := hsome index rfl
      have htaken := htakes context 1 alternative path element.name hname
        (hoccurs alternative (List.mem_of_getElem? halternative))
      exact buildAlternatives_takesAt hadvancing (congrArg some (Nat.zero_add index).symm)
        halternative htaken _ _ _ hrun ⟨element, helement, rfl⟩

theorem oneInstantiation_takesAt (hadvancing : level.Advancing) (hleaves : level.LeavesAbsent)
    (htakes : level.TakesNamed) {compositor : Compositor} {node : Xml.Element} {bounds : Bounds}
    (hmembers : Particle.members context.schema node = .ok members)
    (hname : (Particle.group compositor node bounds).Names context.schema name)
    (hoccurs : (Particle.group compositor node bounds).OccursFor context.schema name) :
    (oneInstantiation level context compositor members node bounds path).Ensures
      (TakesAt name) := by
  have hnamed : Named context.schema members name := (Particle.names_group hmembers).mp hname
  have hinner : ∀ member ∈ members, member.OccursFor context.schema name :=
    fun member hmember => hoccurs.of_member hmembers hmember
  intro state forms after hrun
  obtain ⟨children, last, hchildren, -, rfl⟩ := Build.grouped_eq_ok.mp hrun
  have hbuild : (buildMembers level (context.insideGroup node bounds) compositor members
      path).Ensures (TakesAt name) := by
    cases compositor with
    | sequence => exact buildSequence_takesAt hadvancing hleaves htakes hnamed hinner
    | choice => exact buildChoice_takesAt hadvancing htakes hnamed hinner
  have htaken := hbuild _ _ _ hchildren
  exact htaken

end

/-! ## Particles -/

section

variable {one : Build} {name : String}

/-- There is a first instantiation, and it takes the element. -/
theorem instantiate_takesAt {context : Context} {group : Particle} {compositor : Compositor}
    {bounds : Bounds} (hmakes : one.MakesOne fun _ => True) (hadvancing : one.Advancing)
    (hone : one.Ensures (TakesAt name)) (hmax : bounds.max ≠ .count 0) :
    (instantiate context group compositor bounds one).Ensures (TakesAt name) := by
  intro state forms after hrun hmeets
  obtain ⟨names, runs, -, hruns, -⟩ :=
    instantiate_eq_ok_of_some hmakes hadvancing hmax hmeets.isSome hrun
  cases hruns with
  | ends hends =>
      have hrequired : 1 ≤ requiredCount bounds := Nat.le_max_right _ _
      have hnone := (endsAfter_eq_true.mp hends).1
      omega
  | stops _ hfirst _ _ => exact hone _ _ _ hfirst hmeets
  | goesOn _ hfirst _ hrest =>
      exact Nat.lt_of_le_of_lt (hrest.instantiations.advances hadvancing).ahead.length_le
        (hone _ _ _ hfirst hmeets)

end

theorem buildParticle_takesAt {deeper : Option Level} {context : Context} {path name : String}
    (hdeeper : ∀ level ∈ deeper,
      (level.Advancing ∧ level.LeavesAbsent) ∧ level.TakesNamed)
    {particle : Particle} (hname : particle.Names context.schema name)
    (hoccurs : particle.OccursFor context.schema name) (atLeast : Nat) :
    (buildParticle deeper context atLeast particle path).Ensures (TakesAt name) := by
  cases particle with
  | element node bounds => exact buildElement_takesAt hname (hoccurs _ .self hname) atLeast
  | group compositor node bounds =>
      intro state forms after hrun
      obtain ⟨level, members, hlevel, -, hmembers, hrun⟩ := buildGroup_eq_ok.mp hrun
      obtain ⟨⟨hadvancing, hleaves⟩, htakes⟩ := hdeeper level hlevel
      exact instantiate_takesAt ((oneInstantiation_makesOne _ _ _ _ _ _ _).mono fun _ _ => trivial)
        (oneInstantiation_advancing hadvancing compositor members node bounds)
        (oneInstantiation_takesAt hadvancing hleaves htakes hmembers hname hoccurs)
        (hoccurs _ .self hname) _ _ _ hrun
  | attributeUse node => exact (Particle.not_names_attributeUse hname).elim

theorem levelBelow_takesNamed (depth : Nat) :
    ∀ level ∈ levelBelow depth, (level.Advancing ∧ level.LeavesAbsent) ∧ level.TakesNamed :=
  level_induction_of
    (fun depth level hlevel =>
      ⟨levelBelow_advancing depth level hlevel, levelBelow_leavesAbsent depth level hlevel⟩)
    (fun _ hdeeper _ atLeast _ _ _ hname hoccurs =>
      buildParticle_takesAt hdeeper hname hoccurs atLeast) depth

/-- A particle that the next element can begin takes an element, unless something in it that
has the name of the element occurs never. So does each instantiation of a group past the
required ones. -/
theorem buildParticle_takes {depth atLeast : Nat} {context : Context} {particle : Particle}
    {path : String} {state after : BuildState} {forms : List Form}
    (hrun : buildParticle (levelBelow depth) context atLeast particle path state =
      .ok (forms, after)) :
    (particle.begins context.schema state.next? = true →
      (∀ element ∈ state.next?, particle.OccursFor context.schema element.name) →
        after.ahead.length < state.ahead.length) ∧
    ∀ compositor node bounds, particle = .group compositor node bounds →
      bounds.max ≠ .count 0 → state.cursor.isSome = true →
      ∃ level members names runs, level ∈ levelBelow depth ∧
        Particle.members context.schema node = .ok members ∧
        firstNames context.schema particle = .ok names ∧
        Instantiations (oneInstantiation level context compositor members node bounds path)
          state runs after ∧
        forms = remarkedForms compositor.label bounds.max 0 runs ∧
        ∀ index run, runs[index]? = some run → max bounds.min 1 ≤ index →
          ∃ element ∈ run.before.next?, element.name ∈ names ∧
            (particle.OccursFor context.schema element.name →
              run.after.ahead.length < run.before.ahead.length) := by
  constructor
  · intro hbegins hoccurs
    obtain ⟨element, hnext, hname⟩ := Particle.names_of_begins hbegins
    exact buildParticle_takesAt (levelBelow_takesNamed depth) hname (hoccurs element hnext)
      atLeast _ _ _ hrun ⟨element, hnext, rfl⟩
  · rintro compositor node bounds rfl hmax hcursor
    obtain ⟨level, members, hlevel, -, hmembers, hrun⟩ := buildGroup_eq_ok.mp hrun
    obtain ⟨⟨hadvancing, hleaves⟩, htakes⟩ := levelBelow_takesNamed depth level hlevel
    obtain ⟨names, runs, hnames, hruns, rfl⟩ := instantiate_eq_ok_of_some
      ((oneInstantiation_makesOne level context compositor members node bounds path).mono
        fun _ _ => trivial)
      (oneInstantiation_advancing hadvancing compositor members node bounds) hmax hcursor hrun
    refine ⟨level, members, names, runs, hlevel, hmembers, hnames, hruns.instantiations, rfl,
      fun index run hindex hrequired => ?_⟩
    rw [← Nat.zero_add index] at hrequired
    obtain ⟨⟨element, helement, hname⟩, -⟩ := hruns.begins index run hindex hrequired
    refine ⟨element, helement, hname, fun hoccurs => ?_⟩
    exact oneInstantiation_takesAt hadvancing hleaves htakes hmembers
      ((mem_firstNames hnames).mp hname) hoccurs _ _ _
      (hruns.instantiations.run_of_mem run (List.mem_of_getElem? hindex)) ⟨element, helement, rfl⟩

def poemStanza : Particle := .group .sequence (poemDocument.node 3) ⟨2, .count 3, rfl⟩

theorem poemStanza_occurs (name : String) :
    poemStanza.OccursFor (Schema.given poemDocument) name := by
  have hmembers : Particle.members (Schema.given poemDocument) (poemDocument.node 3) =
      .ok [.element (poemDocument.node 4) .single,
        .element (poemDocument.node 5) ⟨0, .count 1, rfl⟩] := by decide +kernel
  intro inner hinner _
  cases hinner with
  | self => decide
  | member hothers hmember hinner =>
      cases hmembers.symm.trans hothers
      simp only [List.mem_cons, List.not_mem_nil, or_false] at hmember
      rcases hmember with rfl | rfl <;> cases hinner <;> decide

theorem fourLines_taken :
    poemStanza.begins (Schema.given poemDocument)
        (BuildState.start (some fourLines.root)).next? = true ∧
      (∀ element ∈ (BuildState.start (some fourLines.root)).next?,
        poemStanza.OccursFor (Schema.given poemDocument) element.name) ∧
      ∃ forms after,
        buildParticle (levelBelow 4) (.start (Schema.given poemDocument) .default) 0 poemStanza
          "/poem[1]" (.start (some fourLines.root)) = .ok (forms, after) ∧
        after.ahead.length < (BuildState.start (some fourLines.root)).ahead.length ∧
        ∃ level members names runs, level ∈ levelBelow 4 ∧
          Particle.members (Schema.given poemDocument) (poemDocument.node 3) = .ok members ∧
          firstNames (Schema.given poemDocument) poemStanza = .ok names ∧
          Instantiations (oneInstantiation level
              (.start (Schema.given poemDocument) .default) .sequence members
              (poemDocument.node 3) ⟨2, .count 3, rfl⟩ "/poem[1]")
            (.start (some fourLines.root)) runs after ∧
          forms = remarkedForms "sequence" (.count 3) 0 runs ∧
          ∀ index run, runs[index]? = some run → max 2 1 ≤ index →
            ∃ element ∈ run.before.next?, element.name ∈ names ∧
              (poemStanza.OccursFor (Schema.given poemDocument) element.name →
                run.after.ahead.length < run.before.ahead.length) := by
  have hbegins : poemStanza.begins (Schema.given poemDocument)
      (BuildState.start (some fourLines.root)).next? = true := by decide +kernel
  obtain ⟨⟨forms, after⟩, hrun⟩ : ∃ made, buildParticle (levelBelow 4)
      (.start (Schema.given poemDocument) .default) 0 poemStanza "/poem[1]"
      (.start (some fourLines.root)) = .ok made := exists_of_isOk (by decide +kernel)
  obtain ⟨htakes, hruns⟩ := buildParticle_takes hrun
  have hoccurs : ∀ element ∈ (BuildState.start (some fourLines.root)).next?,
      poemStanza.OccursFor (Schema.given poemDocument) element.name :=
    fun element _ => poemStanza_occurs element.name
  exact ⟨hbegins, hoccurs, forms, after, hrun, htakes hbegins hoccurs,
    hruns .sequence (poemDocument.node 3) ⟨2, .count 3, rfl⟩ rfl (by decide) rfl⟩

def stampDocument : Xml.Document :=
  .ofRoots (.plain "schema" [] [
    .plain "element" [("name", "album")] [
      .plain "complexType" [] [
        .plain "sequence" [("maxOccurs", "unbounded")] [
          .plain "element" [("name", "page")] [],
          .plain "element" [("name", "stamp"), ("minOccurs", "0"), ("maxOccurs", "0")] []]]]]) []

def stampedPage : Xml.Document :=
  .ofRoots (.plain "album" [] [.plain "page" [] [], .plain "stamp" [] []]) []

def loneStamp : Xml.Document := .ofRoots (.plain "album" [] [.plain "stamp" [] []]) []

/-- The name of the stamp is a first name, but no stamp is taken, and a second sequence is
instantiated for the one behind the only page. -/
theorem stampedPage_instantiated_twice :
    (Particle.group .sequence (stampDocument.node 3) ⟨1, .unbounded, rfl⟩).begins
        (Schema.given stampDocument) (BuildState.start (some loneStamp.root)).next? = true ∧
    (∃ forms after,
      buildParticle (levelBelow 4) (.start (Schema.given stampDocument) .default) 0
        (.group .sequence (stampDocument.node 3) ⟨1, .unbounded, rfl⟩) "/album[1]"
        (.start (some loneStamp.root)) = .ok (forms, after) ∧
      after.ahead = (BuildState.start (some loneStamp.root)).ahead) ∧
    ∃ forms, compileForm (Schema.given stampDocument) .default none (some stampedPage) =
        .ok forms ∧
      forms.root.children.map (·.children.map fun child => (child.label.tag, child.label.source)) =
        [[("page", some (stampedPage.node 1))], [("page", none)]] ∧
      forms.root.label.options.mismatch? =
        some "<album> contains unexpected element <stamp>" := by
  have hbuilds : (buildParticle (levelBelow 4) (.start (Schema.given stampDocument) .default) 0
      (.group .sequence (stampDocument.node 3) ⟨1, .unbounded, rfl⟩) "/album[1]"
      (.start (some loneStamp.root))).toOption.any (fun made =>
        made.2.ahead == (BuildState.start (some loneStamp.root)).ahead) = true := by
    decide +kernel
  have hcompiles : (compileForm (Schema.given stampDocument) .default none
      (some stampedPage)).toOption.any (fun forms =>
        forms.root.children.map (·.children.map fun child =>
            (child.label.tag, child.label.source)) ==
          [[("page", some (stampedPage.node 1))], [("page", none)]] &&
        forms.root.label.options.mismatch? ==
          some "<album> contains unexpected element <stamp>") = true := by decide +kernel
  obtain ⟨⟨forms, after⟩, hrun, hahead⟩ := exists_of_checked hbuilds
  obtain ⟨root, hroot, hshape⟩ := exists_of_checked hcompiles
  rw [Bool.and_eq_true] at hshape
  exact ⟨by decide +kernel, ⟨forms, after, hrun, by simpa using hahead⟩, root, hroot,
    by simpa using hshape.1, by simpa using hshape.2⟩

end SchemaForms
