import SchemaForms.Proofs.Placeholders

/-!
# The paths of errors

An error that is found in an element tells the path of the content around it, or of
the element itself. A group adds no path of its own: an error on entering it, among
its members or in the search for its first names keeps its path only if an element
around the group gives it one.
-/

namespace SchemaForms

namespace Build

/-- A failure tells a path, or its fault is one of these. -/
def LocatesBut (build : Build) (unplaced : SchemaFault → Prop) : Prop :=
  ∀ state failure, build state = .error failure →
    failure.error.path.isSome = true ∨ unplaced failure.error.fault

namespace LocatesBut

variable {build first second : Build} {unplaced : SchemaFault → Prop}

theorem mono (h : build.LocatesBut unplaced) {others : SchemaFault → Prop}
    (hmore : ∀ fault, unplaced fault → others fault) : build.LocatesBut others :=
  fun state failure hrun => (h state failure hrun).imp_right (hmore _)

theorem nothing : Build.nothing.LocatesBut unplaced := by
  intro state failure hrun
  cases hrun

theorem fail {error : Diagnostic} (h : error.path.isSome = true ∨ unplaced error.fault) :
    (Build.fail error).LocatesBut unplaced := by
  intro state failure hrun
  cases hrun
  exact h

theorem ofFault {α : Type} {outcome : Except SchemaFault α} {next : α → Build}
    (hfault : ∀ fault, outcome = .error fault → unplaced fault)
    (hnext : ∀ value, outcome = .ok value → (next value).LocatesBut unplaced) :
    (Build.ofFault outcome next).LocatesBut unplaced := by
  cases outcome with
  | error fault => exact fail (.inr (hfault fault rfl))
  | ok value => exact hnext value rfl

theorem andThen (hfirst : first.LocatesBut unplaced) (hsecond : second.LocatesBut unplaced) :
    (first.andThen second).LocatesBut unplaced := by
  intro state failure hrun
  simp only [Build.andThen] at hrun
  split at hrun
  · rename_i found hfound
    cases hrun
    exact hfirst _ _ hfound
  · split at hrun
    · rename_i found hfound
      cases hrun
      exact hsecond _ found hfound
    · cases hrun

theorem all {builds : List Build} (h : ∀ build ∈ builds, build.LocatesBut unplaced) :
    (Build.all builds).LocatesBut unplaced := by
  induction builds with
  | nil => exact nothing
  | cons build rest ih =>
      rw [List.forall_mem_cons] at h
      exact h.1.andThen (ih h.2)

theorem mapForms (h : build.LocatesBut unplaced) (change : Form → Form) :
    (build.mapForms change).LocatesBut unplaced := by
  intro state failure hrun
  simp only [Build.mapForms] at hrun
  split at hrun
  · rename_i found hfound
    cases hrun
    exact h _ _ hfound
  · cases hrun

theorem withoutInstance (h : build.LocatesBut unplaced) :
    build.withoutInstance.LocatesBut unplaced := by
  intro state failure hrun
  simp only [Build.withoutInstance] at hrun
  split at hrun
  · rename_i found hfound
    cases hrun
    exact h _ _ hfound
  · cases hrun

theorem grouped (h : build.LocatesBut unplaced) (compositor : Compositor) (node : Xml.Element)
    (bounds : Bounds) (path : String) :
    (build.grouped compositor node bounds path).LocatesBut unplaced := by
  intro state failure hrun
  simp only [Build.grouped] at hrun
  split at hrun
  · rename_i found hfound
    cases hrun
    exact h _ _ hfound
  · cases hrun

theorem repeatOver (h : build.LocatesBut unplaced) (repeated : Bool) (names : List String)
    (bounds : Bounds) (tag : String) (fuel count : Nat) :
    (SchemaForms.repeatOver repeated names bounds tag build fuel count).LocatesBut unplaced := by
  induction fuel generalizing count with
  | zero => exact nothing
  | succ fuel ih =>
      intro state failure hrun
      simp only [SchemaForms.repeatOver] at hrun
      split at hrun
      · cases hrun
      · refine andThen (h.mapForms _) (fun after failure hrun => ?_) _ _ hrun
        split at hrun
        · cases hrun
        · exact ih _ _ _ hrun

theorem instantiate (h : build.LocatesBut unplaced) {context : Context} {group : Particle}
    (hnames : ∀ fault, firstNames context.schema group = .error fault → unplaced fault)
    (compositor : Compositor) (bounds : Bounds) :
    (SchemaForms.instantiate context group compositor bounds build).LocatesBut unplaced := by
  intro state failure hrun
  simp only [SchemaForms.instantiate] at hrun
  split at hrun
  · cases hrun
  · split at hrun
    · refine all (fun other hother => ?_) _ _ hrun
      rw [List.eq_of_mem_replicate hother]
      exact h
    · exact ofFault hnames (fun names _ => h.repeatOver _ _ _ _ _ _) _ _ hrun

end LocatesBut

end Build

/-! ## Elements -/

section

variable {deeper : Option Level} {context : Context} {path : String}

theorem buildOccurrence_located (declaration : Declaration) (bounds : Bounds)
    (occurrence : Option Xml.Element) (unplaced : SchemaFault → Prop) :
    (buildOccurrence deeper context declaration bounds path occurrence).LocatesBut unplaced := by
  intro state failure hrun
  simp only [buildOccurrence] at hrun
  split at hrun
  · cases hrun
    rw [Diagnostic.path_located]
    exact .inl rfl
  · cases hrun

theorem buildElement_located (node : Xml.Element) (bounds : Bounds) (atLeast : Nat)
    (unplaced : SchemaFault → Prop) :
    (buildElement deeper context node bounds atLeast path).LocatesBut unplaced := by
  have hcopies : ∀ declaration count,
      (buildCopies deeper context declaration bounds path count).LocatesBut unplaced := by
    intro declaration count
    refine .all fun build hbuild => ?_
    rw [List.eq_of_mem_replicate hbuild]
    exact buildOccurrence_located declaration bounds none unplaced
  have htaken : ∀ declaration taken,
      (buildTaken deeper context declaration bounds path taken).LocatesBut unplaced := by
    intro declaration taken
    refine .all fun build hbuild => ?_
    obtain ⟨⟨occurrence, index⟩, -, rfl⟩ := List.mem_map.mp hbuild
    exact (buildOccurrence_located declaration bounds _ unplaced).mapForms _
  unfold buildElement
  split
  · exact .fail (.inl (by rw [Diagnostic.path_located]; rfl))
  · rename_i declaration _
    intro state failure hrun
    simp only [buildDeclared] at hrun
    split at hrun
    · exact hcopies _ _ _ _ hrun
    · exact (htaken _ _).andThen (hcopies _ _) _ _ hrun

end

/-! ## Groups -/

/-- Faults that are found about a particle, but not in an element: on entering a group, in
the list of its members, in the search for the first names of the group or of a member, in
the declaration of an attribute, or in the same way about a member of a group. -/
inductive FoundOutsideElements (schema : Schema) (limit : Nat) : Particle → SchemaFault → Prop
  | circular {compositor : Compositor} {node : Xml.Element} {bounds : Bounds} :
      FoundOutsideElements schema limit (.group compositor node bounds)
        (.circularDefinition (schema.describe node))
  | tooDeep {compositor : Compositor} {node : Xml.Element} {bounds : Bounds} :
      FoundOutsideElements schema limit (.group compositor node bounds) (.tooDeep limit)
  | members {compositor : Compositor} {node : Xml.Element} {bounds : Bounds}
      {fault : SchemaFault} :
      Particle.members schema node = .error fault →
      FoundOutsideElements schema limit (.group compositor node bounds) fault
  | firstNames {compositor : Compositor} {node : Xml.Element} {bounds : Bounds}
      {fault : SchemaFault} :
      SchemaForms.firstNames schema (.group compositor node bounds) = .error fault →
      FoundOutsideElements schema limit (.group compositor node bounds) fault
  | alternative {node : Xml.Element} {bounds : Bounds} {members : List Particle}
      {member : Particle} {fault : SchemaFault} :
      Particle.members schema node = .ok members → member ∈ members →
      SchemaForms.firstNames schema member = .error fault →
      FoundOutsideElements schema limit (.group .choice node bounds) fault
  | attributeUse {node : Xml.Element} {fault : SchemaFault} :
      declaredAttribute schema node = .error fault →
      FoundOutsideElements schema limit (.attributeUse node) fault
  | member {compositor : Compositor} {node : Xml.Element} {bounds : Bounds}
      {members : List Particle} {member : Particle} {fault : SchemaFault} :
      Particle.members schema node = .ok members → member ∈ members →
      FoundOutsideElements schema limit member fault →
      FoundOutsideElements schema limit (.group compositor node bounds) fault

def Level.LocatesInElements (schema : Schema) (limit : Nat) (level : Level) : Prop :=
  ∀ (context : Context) (atLeast : Nat) (particle : Particle) (path : String),
    context.schema = schema → context.settings.maxDepth = limit →
    (level.particle context atLeast particle path).LocatesBut
      (FoundOutsideElements schema limit particle)

section

variable {schema : Schema} {limit : Nat} {context : Context} {path : String}
  (hschema : context.schema = schema) (hlimit : context.settings.maxDepth = limit)
include hschema hlimit

theorem buildMembers_located {level : Level} (hlevel : level.LocatesInElements schema limit)
    {compositor : Compositor} {node : Xml.Element} {bounds : Bounds} {members : List Particle}
    (hmembers : Particle.members schema node = .ok members) :
    (buildMembers level context compositor members path).LocatesBut
      (FoundOutsideElements schema limit (.group compositor node bounds)) := by
  have hmember : ∀ member ∈ members, ∀ atLeast,
      (level.particle context atLeast member path).LocatesBut
        (FoundOutsideElements schema limit (.group compositor node bounds)) :=
    fun member hin atLeast => (hlevel _ _ _ _ hschema hlimit).mono
      fun _ hfault => .member hmembers hin hfault
  cases compositor with
  | sequence =>
      refine .all fun build hbuild => ?_
      obtain ⟨member, hin, rfl⟩ := List.mem_map.mp hbuild
      exact hmember member hin _
  | choice =>
      intro state failure hrun
      refine Build.LocatesBut.ofFault (fun fault herror => ?_) (fun matched _ => ?_) _ _ hrun
      · obtain ⟨-, alternative, hin, hnames⟩ := alternativeFor_eq_error herror
        exact .alternative hmembers hin (hschema ▸ hnames)
      · refine .all fun build hbuild => ?_
        obtain ⟨⟨alternative, index⟩, hin, rfl⟩ := List.mem_map.mp hbuild
        have halternative := hmember alternative (List.fst_mem_of_mem_zipIdx hin) 1
        refine Build.LocatesBut.mapForms ?_ _
        split
        · exact halternative
        · exact halternative.withoutInstance

theorem buildGroup_located {deeper : Option Level}
    (hdeeper : ∀ level ∈ deeper, level.LocatesInElements schema limit)
    (compositor : Compositor) (node : Xml.Element) (bounds : Bounds) :
    (buildGroup deeper context compositor node bounds path).LocatesBut
      (FoundOutsideElements schema limit (.group compositor node bounds)) := by
  intro state failure hrun
  simp only [buildGroup] at hrun
  refine Build.LocatesBut.ofFault (fun fault herror => ?_)
    (fun entered henter => ?_) _ _ hrun
  · rcases Context.enter_eq_error.mp herror with ⟨-, -, rfl⟩ | ⟨-, -, rfl⟩
    · rw [hschema]
      exact .circular
    · rw [hlimit]
      exact .tooDeep
  · obtain ⟨inner, level⟩ := entered
    obtain ⟨-, hlevel, rfl⟩ := Context.enter_eq_ok.mp henter
    refine Build.LocatesBut.ofFault (fun fault herror => ?_) (fun members hmembers => ?_)
    · exact .members (hschema ▸ herror)
    · have hone : (oneInstantiation level context compositor members node bounds path).LocatesBut
          (FoundOutsideElements schema limit (.group compositor node bounds)) := by
        have hinner : (context.insideGroup node bounds).schema = schema := hschema
        refine Build.LocatesBut.grouped ?_ _ _ _ _
        exact buildMembers_located hinner hlimit (hdeeper level hlevel) (hschema ▸ hmembers)
      exact hone.instantiate (fun fault herror => .firstNames (hschema ▸ herror)) _ _

theorem buildParticle_located {deeper : Option Level}
    (hdeeper : ∀ level ∈ deeper, level.LocatesInElements schema limit) (atLeast : Nat)
    (particle : Particle) :
    (buildParticle deeper context atLeast particle path).LocatesBut
      (FoundOutsideElements schema limit particle) := by
  cases particle with
  | element node bounds => exact buildElement_located node bounds atLeast _
  | group compositor node bounds => exact buildGroup_located hschema hlimit hdeeper _ _ _
  | attributeUse node =>
      intro state failure hrun
      have herror := (buildAttribute_fails ⟨failure, hrun, rfl⟩).2
      exact .inr (.attributeUse (hschema ▸ herror))

end

theorem levelBelow_locatesInElements (schema : Schema) (limit depth : Nat) :
    ∀ level ∈ levelBelow depth, level.LocatesInElements schema limit :=
  level_induction (fun _ hdeeper _ atLeast particle _ hschema hlimit =>
    buildParticle_located hschema hlimit hdeeper atLeast particle) depth

/-! ## Requests -/

section

variable {schema : Schema} {settings : Settings} {failure : Failure}

theorem path_isSome_of_compileForm {name : Option String} {document : Option Xml.Document}
    {element : Xml.Element} (helement : schema.selectGlobal name = .ok element)
    (hfailure : compileForm schema settings name document = .error failure) :
    failure.error.path.isSome = true := by
  simp only [compileForm, helement] at hfailure
  split at hfailure
  · rename_i found hbuild
    cases hfailure
    exact (buildElement_located element .single 1 (fun _ => False) _ _ hbuild).resolve_right id
  · cases hfailure
  · rename_i after hbuild
    exact absurd hbuild buildAtTop_ne_nil

theorem compileParticle_eq_error {tag : String} {node : Xml.Element} {path : String}
    {parent : Option Xml.Element}
    (hfailure : compileParticle schema settings tag node path parent = .error failure) :
    failure.error.path.isSome = true ∨
      node.name = tag ∧ (Particle.ofElement? schema node = .ok none ∨
        ∃ particle, Particle.ofElement? schema node = .ok (some particle) ∧
          buildAtTop schema settings 0 particle path parent = .error failure) := by
  simp only [compileParticle] at hfailure
  split at hfailure
  · rename_i htag
    split at hfailure
    · cases hfailure
      exact .inl (by rw [Diagnostic.path_located]; rfl)
    · rename_i hnone
      exact .inr ⟨htag, .inl hnone⟩
    · rename_i particle hparticle
      exact .inr ⟨htag, .inr ⟨particle, hparticle, map_eq_error.mp hfailure⟩⟩
  · cases hfailure
    exact .inl (by rw [Diagnostic.path_located]; rfl)

end

theorem Particle.ofElement?_of_element {schema : Schema} {node : Xml.Element}
    (hname : node.name = "element") {found : Option Particle}
    (hfound : Particle.ofElement? schema node = .ok found) :
    ∃ bounds, found = some (.element node bounds) := by
  simp only [Particle.ofElement?, hname] at hfound
  obtain ⟨bounds, -, hbounds⟩ := bind_eq_ok.mp hfound
  cases hbounds
  exact ⟨bounds, rfl⟩

theorem Particle.ofElement?_of_compositor {schema : Schema} {node : Xml.Element}
    {compositor : Compositor} (hname : node.name = compositor.label) {found : Option Particle}
    (hfound : Particle.ofElement? schema node = .ok found) :
    ∃ bounds, found = some (.group compositor node bounds) := by
  cases compositor <;>
  · simp only [Particle.ofElement?, hname, Compositor.label] at hfound
    obtain ⟨bounds, -, hbounds⟩ := bind_eq_ok.mp hfound
    cases hbounds
    exact ⟨bounds, rfl⟩

/-- The errors of whole forms and of elements tell a path. An error of a group tells one
too, unless it was found in no element. -/
theorem path_isSome_of_error (schema : Schema) (settings : Settings) :
    (∀ name document element failure, schema.selectGlobal name = .ok element →
      compileForm schema settings name document = .error failure →
        failure.error.path.isSome = true) ∧
    (∀ node path parent failure,
      compileParticle schema settings "element" node path parent = .error failure →
        failure.error.path.isSome = true) ∧
    ∀ (compositor : Compositor) node path parent failure,
      compileParticle schema settings compositor.label node path parent = .error failure →
        failure.error.path.isSome = true ∨
          ∃ bounds, FoundOutsideElements schema settings.maxDepth
            (.group compositor node bounds) failure.error.fault := by
  refine ⟨fun _ _ _ _ => path_isSome_of_compileForm, ?_, ?_⟩
  · intro node path parent failure hfailure
    rcases compileParticle_eq_error hfailure with h | ⟨hname, h⟩
    · exact h
    rcases h with hnone | ⟨particle, hparticle, hbuild⟩
    · obtain ⟨bounds, h⟩ := Particle.ofElement?_of_element hname hnone
      cases h
    · obtain ⟨bounds, h⟩ := Particle.ofElement?_of_element hname hparticle
      cases h
      exact (buildElement_located node bounds 0 (fun _ => False) _ _ hbuild).resolve_right id
  · intro compositor node path parent failure hfailure
    rcases compileParticle_eq_error hfailure with h | ⟨hname, h⟩
    · exact .inl h
    rcases h with hnone | ⟨particle, hparticle, hbuild⟩
    · obtain ⟨bounds, h⟩ := Particle.ofElement?_of_compositor hname hnone
      cases h
    · obtain ⟨bounds, h⟩ := Particle.ofElement?_of_compositor hname hparticle
      cases h
      refine (buildGroup_located rfl rfl (levelBelow_locatesInElements schema settings.maxDepth
        settings.maxDepth) compositor node bounds _ _ hbuild).imp_right fun h => ⟨bounds, h⟩

def openDocument : Xml.Document :=
  .ofRoots (.plain "schema" [] [
    .plain "element" [("name", "bag")] [
      .plain "complexType" [] [
        .plain "sequence" [] [.plain "any" [] []]]]]) []

theorem openBag_located :
    (∃ element failure, (Schema.given openDocument).selectGlobal none = .ok element ∧
      compileForm (Schema.given openDocument) .default none none = .error failure ∧
      failure.error.path.isSome = true) ∧
    ∃ node failure, openDocument.element? 1 = some node ∧
      compileParticle (Schema.given openDocument) .default "element" node "/shelf[1]" none =
        .error failure ∧
      failure.error.path.isSome = true := by
  obtain ⟨hform, helement, -⟩ := path_isSome_of_error (Schema.given openDocument) .default
  constructor
  · obtain ⟨element, hglobal⟩ : ∃ element,
        (Schema.given openDocument).selectGlobal none = .ok element :=
      exists_of_isOk (by decide +kernel)
    obtain ⟨failure, hfailure⟩ : ∃ failure,
        compileForm (Schema.given openDocument) .default none none = .error failure :=
      exists_of_not_isOk (by decide +kernel)
    exact ⟨element, failure, hglobal, hfailure, hform _ _ _ _ hglobal hfailure⟩
  · obtain ⟨node, hnode⟩ : ∃ node, openDocument.element? 1 = some node :=
      Option.isSome_iff_exists.mp (by decide +kernel)
    have hfails : (openDocument.element? 1).all (fun node => !(compileParticle
        (Schema.given openDocument) .default "element" node "/shelf[1]" none).isOk) = true := by
      decide +kernel
    rw [hnode, Option.all_some, Bool.not_eq_true'] at hfails
    obtain ⟨failure, hfailure⟩ := exists_of_not_isOk hfails
    exact ⟨node, failure, hnode, hfailure, helement _ _ _ _ hfailure⟩

def diagnosticOf {α : Type} : Except Failure α → Option Diagnostic
  | .ok _ => none
  | .error failure => some failure.error

/-- The sequence alone gives the error of the whole form, but without a path. -/
theorem openSequence_unlocated :
    diagnosticOf (compileForm (Schema.given openDocument) .default none none) =
        some ⟨.unsupported "any", some "/bag[1]"⟩ ∧
      ((openDocument.element? 3).map fun node =>
        (node.name, diagnosticOf (compileParticle (Schema.given openDocument) .default "sequence"
          node "/bag[1]" none))) =
        some ("sequence", some ⟨.unsupported "any", none⟩) := by
  decide +kernel

end SchemaForms
