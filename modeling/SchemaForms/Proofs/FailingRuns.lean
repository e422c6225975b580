import Mathlib.Logic.Relation
import SchemaForms.Proofs.Failures

/-!
# Failing runs over an instance

A run over an instance goes from a particle to those inside of it, and comes to each of
them in the state that the run so far has left. It goes on without the instance in the
alternatives that the next element does not select, and in the copies that are missing.
What fails in any of these makes the whole run fail.
-/

namespace SchemaForms

/-- The compilation of a particle in the course of a run, with so many levels left. -/
structure Stage where
  context : Context
  levels : Nat
  atLeast : Nat
  particle : Particle
  path : String
  state : BuildState

def Stage.Fails (stage : Stage) (fault : SchemaFault) : Prop :=
  (buildParticle (levelBelow stage.levels) stage.context stage.atLeast stage.particle
    stage.path).Fails stage.state fault

def Stage.root (schema : Schema) (settings : Settings) (element : Xml.Element)
    (document : Xml.Document) : Stage :=
  ⟨.start schema settings, settings.maxDepth, 1, .element element .single, "",
    .start (some document.holder)⟩

def innerLevel (levels : Nat) : Level :=
  ⟨buildParticle (levelBelow levels), buildAttributeEntry (levelBelow levels)⟩

theorem innerLevel_mem (levels : Nat) : innerLevel levels ∈ levelBelow (levels + 1) :=
  levelBelow_succ levels

theorem innerLevel_advancing (levels : Nat) : (innerLevel levels).Advancing :=
  levelBelow_advancing (levels + 1) _ (innerLevel_mem levels)

theorem innerLevel_attributesOnly (levels : Nat) : (innerLevel levels).AttributesOnly :=
  levelBelow_attributesOnly (levels + 1) _ (innerLevel_mem levels)

/-- The group is compiled over the instance, and an instantiation of it begins in the state
`first`. -/
structure Instantiates (levels : Nat) (context : Context) (compositor : Compositor)
    (node : Xml.Element) (bounds : Bounds) (path : String) (members : List Particle)
    (state first : BuildState) : Prop where
  editing : state.cursor.isSome = true
  allowed : bounds.max ≠ .count 0
  known : Particle.members context.schema node = .ok members
  begins : ∃ names, firstNames context.schema (.group compositor node bounds) = .ok names ∧
    Build.ComesTo context.repeated names bounds
      (oneInstantiation (innerLevel levels) context compositor members node bounds path) 0
      state first

/-- The occurrence is one of those that the element takes, and is come to in the state `middle`. -/
def Takes (deeper : Option Level) (context : Context) (declaration : Declaration)
    (bounds : Bounds) (path : String) (state : BuildState) (occurrence : Xml.Element)
    (middle : BuildState) : Prop :=
  ∃ cursor before rest, state.cursor = some cursor ∧
    cursor.run declaration.name (takingLimit context bounds) = before ++ occurrence :: rest ∧
    (buildTaken deeper context declaration bounds path before).Reaches
      (state.pastRun cursor declaration.name (takingLimit context bounds)) middle

/-- The element takes fewer occurrences than it asks for, and the copy that is come to in the
state `last` is one of those that they leave missing. -/
def Misses (deeper : Option Level) (context : Context) (declaration : Declaration)
    (bounds : Bounds) (atLeast : Nat) (path : String) (state last : BuildState) : Prop :=
  ∃ cursor taken middle done, state.cursor = some cursor ∧
    cursor.run declaration.name (takingLimit context bounds) = taken ∧
    (buildTaken deeper context declaration bounds path taken).Reaches
      (state.pastRun cursor declaration.name (takingLimit context bounds)) middle ∧
    taken.length + done < max bounds.min (bounds.max.cap atLeast) ∧
    (buildCopies deeper context declaration bounds path done).Reaches middle last

/-- A stage of a run over an instance leads to one inside of it. -/
inductive Stage.LeadsTo : Stage → Stage → Prop
  | member {context : Context} {levels atLeast : Nat} {node : Xml.Element} {bounds : Bounds}
      {path : String} {state first middle : BuildState} {before rest : List Particle}
      {member : Particle} :
      Instantiates levels context .sequence node bounds path (before ++ member :: rest) state
        first →
      (buildSequence (innerLevel levels) (context.insideGroup node bounds) before path).Reaches
        first middle →
      LeadsTo ⟨context, levels + 1, atLeast, .group .sequence node bounds, path, state⟩
        ⟨context.insideGroup node bounds, levels, 0, member, path, middle⟩
  | alternative {context : Context} {levels atLeast : Nat} {node : Xml.Element}
      {bounds : Bounds} {path : String} {state first middle : BuildState}
      {before rest : List Particle} {alternative : Particle} :
      Instantiates levels context .choice node bounds path (before ++ alternative :: rest) state
        first →
      alternativeFor context.schema (before ++ alternative :: rest) first.next? =
        .ok (some before.length) →
      (buildAlternativesBefore (innerLevel levels) (context.insideGroup node bounds) path
        (some before.length) (before ++ alternative :: rest) before).Reaches first middle →
      LeadsTo ⟨context, levels + 1, atLeast, .group .choice node bounds, path, state⟩
        ⟨context.insideGroup node bounds, levels, 1, alternative, path, middle⟩
  | item {context : Context} {levels atLeast : Nat}
      {node occurrence definition item : Xml.Element} {bounds : Bounds} {path place : String}
      {state middle last : BuildState} {declaration : Declaration}
      {before rest : List Xml.Element} {particle : Particle} :
      Declaration.ofParticle context.schema context.settings node = .ok declaration →
      Takes (levelBelow (levels + 1)) context declaration bounds path state occurrence middle →
      place = placePath path declaration.name (middle.nextPlace declaration.name) →
      declaration.content = .complex definition →
      definition.elements = before ++ item :: rest →
      (Build.all (before.map fun item => buildItem (innerLevel levels)
        (context.insideType definition) item place (some occurrence))).Reaches
        (.start (some occurrence)) last →
      item.name ∈ modelItems →
      Particle.ofElement? context.schema item = .ok (some particle) →
      LeadsTo ⟨context, levels + 1, atLeast, .element node bounds, path, state⟩
        ⟨context.insideType definition, levels, 0, particle, place, last⟩

/-- The stage of a run over an instance fails where it goes on without the instance. -/
inductive Stage.FailsWithoutInstance (fault : SchemaFault) : Stage → Prop
  /-- The next element begins another alternative first, or none. -/
  | alternative {context : Context} {levels atLeast : Nat} {node : Xml.Element}
      {bounds : Bounds} {path : String} {state first middle : BuildState}
      {before rest : List Particle} {alternative : Particle} {matched : Option Nat} :
      Instantiates levels context .choice node bounds path (before ++ alternative :: rest) state
        first →
      alternativeFor context.schema (before ++ alternative :: rest) first.next? = .ok matched →
      matched ≠ some before.length →
      (buildAlternativesBefore (innerLevel levels) (context.insideGroup node bounds) path
        matched (before ++ alternative :: rest) before).Reaches first middle →
      Stage.Fails ⟨context.insideGroup node bounds, levels, 1, alternative, path,
        { middle with cursor := none }⟩ fault →
      FailsWithoutInstance fault
        ⟨context, levels + 1, atLeast, .group .choice node bounds, path, state⟩
  /-- There are fewer elements than the element particle asks for. -/
  | copy {context : Context} {levels atLeast : Nat} {node : Xml.Element} {bounds : Bounds}
      {path : String} {state last : BuildState} {declaration : Declaration} :
      Declaration.ofParticle context.schema context.settings node = .ok declaration →
      Misses (levelBelow levels) context declaration bounds atLeast path state last →
      (buildOccurrence (levelBelow levels) context declaration bounds path none).Fails last
        fault →
      FailsWithoutInstance fault ⟨context, levels, atLeast, .element node bounds, path, state⟩

section

variable {levels : Nat} {context : Context} {node : Xml.Element} {bounds : Bounds}
  {path : String} {state : BuildState} {fault : SchemaFault}

/-! ## Groups -/

theorem Context.enter_below_succ {editing : Bool} (h : editing = true) :
    context.enter (levelBelow (levels + 1)) node editing =
      .ok (context.inside node, innerLevel levels) :=
  enter_eq_ok.mpr ⟨.inl h, innerLevel_mem levels, rfl⟩

theorem group_fails_iff {compositor : Compositor} (hediting : state.cursor.isSome = true) :
    (buildGroup (levelBelow (levels + 1)) context compositor node bounds path).Fails state fault ↔
      Particle.members context.schema node = .error fault ∨
        ∃ members, Particle.members context.schema node = .ok members ∧
          bounds.max ≠ .count 0 ∧
            (firstNames context.schema (.group compositor node bounds) = .error fault ∨
              ∃ first, Instantiates levels context compositor node bounds path members state
                  first ∧
                (buildMembers (innerLevel levels) (context.insideGroup node bounds) compositor
                  members path).Fails first fault) := by
  have hone : ∀ members, (oneInstantiation (innerLevel levels) context compositor members node
      bounds path).Advancing :=
    fun members => oneInstantiation_advancing (innerLevel_advancing levels) compositor members
      node bounds
  rw [buildGroup_fails_iff, Context.enter_below_succ hediting]
  constructor
  · rintro (h | ⟨-, level, hlevel, h⟩)
    · cases h
    obtain rfl := Option.mem_unique (innerLevel_mem levels) hlevel
    refine h.imp_right fun ⟨members, hmembers, h⟩ => ⟨members, hmembers, ?_⟩
    obtain ⟨hmax, h⟩ := (Build.instantiate_fails_iff (hone members) hediting).mp h
    refine ⟨hmax, h.imp_right fun ⟨names, first, hnames, hfirst, h⟩ => ?_⟩
    exact ⟨first, ⟨hediting, hmax, hmembers, names, hnames, hfirst⟩, Build.grouped_fails.mp h⟩
  · refine fun h => .inr ⟨.inl hediting, _, innerLevel_mem levels, h.imp_right ?_⟩
    rintro ⟨members, hmembers, hmax, h⟩
    refine ⟨members, hmembers, (Build.instantiate_fails_iff (hone members) hediting).mpr
      ⟨hmax, h.imp_right ?_⟩⟩
    rintro ⟨first, hfirst, h⟩
    obtain ⟨names, hnames, hcomes⟩ := hfirst.begins
    exact ⟨names, first, hnames, hcomes, Build.grouped_fails.mpr h⟩

theorem Instantiates.fails {compositor : Compositor} {members : List Particle} {atLeast : Nat}
    {first : BuildState}
    (h : Instantiates levels context compositor node bounds path members state first)
    (hfails : (buildMembers (innerLevel levels) (context.insideGroup node bounds) compositor
      members path).Fails first fault) :
    Stage.Fails ⟨context, levels + 1, atLeast, .group compositor node bounds, path, state⟩ fault :=
  (group_fails_iff h.editing).mpr
    (.inr ⟨members, h.known, h.allowed, .inr ⟨first, h, hfails⟩⟩)

theorem Instantiates.advances {compositor : Compositor} {members : List Particle}
    {first : BuildState}
    (h : Instantiates levels context compositor node bounds path members state first) :
    state.Advances first :=
  let ⟨_, _, hcomes⟩ := h.begins
  hcomes.advances (oneInstantiation_advancing (innerLevel_advancing levels) _ _ _ _)

/-! ## Elements -/

variable {deeper : Option Level} {declaration : Declaration} {atLeast : Nat}

theorem element_fails_iff (hediting : state.cursor.isSome = true)
    (hdeclaration : Declaration.ofParticle context.schema context.settings node =
      .ok declaration) :
    (buildElement deeper context node bounds atLeast path).Fails state fault ↔
      (∃ occurrence middle, Takes deeper context declaration bounds path state occurrence middle ∧
        (buildOccurrence deeper context declaration bounds path (some occurrence)).Fails middle
          fault) ∨
      ∃ last, Misses deeper context declaration bounds atLeast path state last ∧
        (buildOccurrence deeper context declaration bounds path none).Fails last fault := by
  obtain ⟨cursor, hcursor⟩ := Option.isSome_iff_exists.mp hediting
  have hbuild : (buildElement deeper context node bounds atLeast path).Fails state fault ↔
      (buildDeclared deeper context declaration bounds (bounds.max.cap atLeast) path).Fails state
        fault := by
    simp [buildElement_fails_iff, hdeclaration]
  rw [hbuild, buildDeclared_fails_iff hcursor rfl, buildTaken_fails_iff]
  refine or_congr ⟨?_, ?_⟩ ⟨?_, ?_⟩
  · rintro ⟨before, occurrence, rest, middle, htaken, hbefore, h⟩
    exact ⟨occurrence, middle, ⟨cursor, before, rest, hcursor, htaken, hbefore⟩, h⟩
  · rintro ⟨occurrence, middle, ⟨other, before, rest, hother, htaken, hbefore⟩, h⟩
    obtain rfl := Option.some.inj (hcursor.symm.trans hother)
    exact ⟨before, occurrence, rest, middle, htaken, hbefore, h⟩
  · rintro ⟨middle, htaken, h⟩
    obtain ⟨done, hdone, last, hlast, h⟩ := buildCopies_fails_iff.mp h
    exact ⟨last, ⟨cursor, _, middle, done, hcursor, rfl, htaken, by omega, hlast⟩, h⟩
  · rintro ⟨last, ⟨other, _, middle, done, hother, rfl, htaken, hdone, hlast⟩, h⟩
    obtain rfl := Option.some.inj (hcursor.symm.trans hother)
    exact ⟨middle, htaken, buildCopies_fails_iff.mpr ⟨done, by omega, last, hlast, h⟩⟩

theorem Takes.editing {occurrence : Xml.Element} {middle : BuildState}
    (h : Takes deeper context declaration bounds path state occurrence middle) :
    state.cursor.isSome = true := by
  obtain ⟨cursor, -, -, hcursor, -⟩ := h
  exact Option.isSome_of_eq_some hcursor

theorem Misses.editing {last : BuildState}
    (h : Misses deeper context declaration bounds atLeast path state last) :
    state.cursor.isSome = true := by
  obtain ⟨cursor, -, -, -, hcursor, -⟩ := h
  exact Option.isSome_of_eq_some hcursor

theorem occurrence_fails_iff {occurrence : Xml.Element} :
    (buildOccurrence (levelBelow (levels + 1)) context declaration bounds path
        (some occurrence)).Fails state fault ↔
      ∃ definition before item rest last, declaration.content = .complex definition ∧
        definition.elements = before ++ item :: rest ∧
        (Build.all (before.map fun item => buildItem (innerLevel levels)
          (context.insideType definition) item
          (placePath path declaration.name (state.nextPlace declaration.name))
          (some occurrence))).Reaches (.start (some occurrence)) last ∧
        (buildItem (innerLevel levels) (context.insideType definition) item
          (placePath path declaration.name (state.nextPlace declaration.name))
          (some occurrence)).Fails last fault := by
  rw [buildOccurrence_fails_iff, elementContent_eq_error]
  constructor
  · rintro ⟨definition, hcontent, h | ⟨-, level, hlevel, h⟩⟩
    · cases (Context.enter_below_succ rfl).symm.trans h
    obtain rfl := Option.mem_unique (innerLevel_mem levels) hlevel
    obtain ⟨before, item, rest, last, hitems, hbefore, h⟩ := Build.all_map_fails.mp h
    exact ⟨definition, before, item, rest, last, hcontent, hitems, hbefore, h⟩
  · rintro ⟨definition, before, item, rest, last, hcontent, hitems, hbefore, h⟩
    exact ⟨definition, hcontent, .inr ⟨.inl rfl, _, innerLevel_mem levels,
      Build.all_map_fails.mpr ⟨before, item, rest, last, hitems, hbefore, h⟩⟩⟩

theorem item_fails_iff {definition item : Xml.Element} {particle : Particle}
    (hmodel : item.name ∈ modelItems)
    (hparticle : Particle.ofElement? context.schema item = .ok (some particle))
    {occurrence : Option Xml.Element} :
    (buildItem (innerLevel levels) (context.insideType definition) item path
        occurrence).Fails state fault ↔
      Stage.Fails ⟨context.insideType definition, levels, 0, particle, path, state⟩ fault := by
  have hinside : Particle.ofElement? (context.insideType definition).schema item =
      .ok (some particle) := hparticle
  rw [buildItem_of_particle hmodel hinside]
  rfl

/-! ## Stages -/

theorem Stage.LeadsTo.fails {stage inner : Stage} (h : stage.LeadsTo inner)
    (hinner : inner.Fails fault) : stage.Fails fault := by
  cases h with
  | member hfirst hbefore =>
      exact hfirst.fails (buildSequence_fails_iff.mpr ⟨_, _, _, _, rfl, hbefore, hinner⟩)
  | alternative hfirst hmatched hbefore =>
      refine hfirst.fails (buildChoice_fails_iff.mpr
        (.inr ⟨_, _, _, _, _, hmatched, rfl, hbefore, ?_⟩))
      rw [if_pos rfl]
      exact hinner
  | item hdeclaration htakes hplace hcontent hitems hbefore hmodel hparticle =>
      subst hplace
      exact (element_fails_iff htakes.editing hdeclaration).mpr (.inl ⟨_, _, htakes,
        occurrence_fails_iff.mpr ⟨_, _, _, _, _, hcontent, hitems, hbefore,
          (item_fails_iff hmodel hparticle).mpr hinner⟩⟩)

theorem Stage.FailsWithoutInstance.fails {stage : Stage}
    (h : stage.FailsWithoutInstance fault) : stage.Fails fault := by
  cases h with
  | alternative hfirst hmatched hother hbefore h =>
      refine hfirst.fails (buildChoice_fails_iff.mpr
        (.inr ⟨_, _, _, _, _, hmatched, rfl, hbefore, ?_⟩))
      rw [if_neg hother]
      exact h
  | copy hdeclaration hmisses h =>
      exact (element_fails_iff hmisses.editing hdeclaration).mpr (.inr ⟨_, hmisses, h⟩)

/-- What fails at some stage of a run fails the whole run. -/
theorem Stage.fails_of_leads {stage last : Stage}
    (h : Relation.ReflTransGen Stage.LeadsTo stage last) (hlast : last.Fails fault) :
    stage.Fails fault := by
  induction h using Relation.ReflTransGen.head_induction_on with
  | refl => exact hlast
  | head hstep _ ih => exact hstep.fails ih

end

end SchemaForms
