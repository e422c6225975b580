import Mathlib.Data.List.TakeWhile
import SchemaForms.Proofs.Steps

/-!
# The instance ahead

A compilation takes the children of an instance element from the first to the
last: what is ahead of the cursor after a step is a last part of what was ahead
before, and a step without an instance stays without one.
-/

namespace SchemaForms

namespace BuildState

theorem next?_eq_head? (state : BuildState) : state.next? = state.ahead.head? := by
  cases hcursor : state.cursor <;> simp [next?, ahead, hcursor, Cursor.next?]

theorem next?_of_cursor_eq {state after : BuildState} (h : after.cursor = state.cursor) :
    after.next? = state.next? := by
  rw [next?, h, next?]

structure Advances (state after : BuildState) : Prop where
  parent : after.cursor.map Cursor.parent = state.cursor.map Cursor.parent
  ahead : after.ahead <:+ state.ahead

theorem Advances.refl (state : BuildState) : state.Advances state :=
  ⟨rfl, List.suffix_rfl⟩

theorem Advances.trans {state middle after : BuildState} (hfirst : state.Advances middle)
    (hsecond : middle.Advances after) : state.Advances after :=
  ⟨hsecond.parent.trans hfirst.parent, hsecond.ahead.trans hfirst.ahead⟩

theorem Advances.isSome {state after : BuildState} (h : state.Advances after) :
    after.cursor.isSome = state.cursor.isSome := by
  simpa using congrArg Option.isSome h.parent

theorem Advances.of_cursor_eq {state after : BuildState} (h : after.cursor = state.cursor) :
    state.Advances after := by
  have hahead : after.ahead = state.ahead := by simp only [BuildState.ahead, h]
  exact ⟨by rw [h], hahead ▸ List.suffix_rfl⟩

theorem Advances.none {state after : BuildState} (h : state.Advances after)
    (hstate : state.cursor = none) : after.cursor = none := by
  have hsome := h.isSome
  rw [hstate] at hsome
  simpa using hsome

end BuildState

def Build.Advancing (build : Build) : Prop :=
  build.Ensures fun state _ after => state.Advances after

theorem advances_additive :
    Build.Additive fun state _ after => BuildState.Advances state after where
  nothing := BuildState.Advances.refl
  append := BuildState.Advances.trans

namespace Build

theorem Advancing.all {builds : List Build} (h : ∀ build ∈ builds, build.Advancing) :
    (all builds).Advancing :=
  Ensures.all advances_additive h

theorem Advancing.mapForms {build : Build} (h : build.Advancing) (change : Form → Form) :
    (build.mapForms change).Advancing := by
  intro state forms after hrun
  obtain ⟨made, hmade, -⟩ := mapForms_eq_ok.mp hrun
  exact h _ _ _ hmade

theorem Advancing.withoutInstance (build : Build) : build.withoutInstance.Advancing := by
  intro state forms after hrun
  obtain ⟨last, -, rfl⟩ := withoutInstance_eq_ok.mp hrun
  exact .of_cursor_eq rfl

theorem Advancing.grouped {build : Build} (h : build.Advancing) (compositor : Compositor)
    (node : Xml.Element) (bounds : Bounds) (path : String) :
    (build.grouped compositor node bounds path).Advancing := by
  intro state forms after hrun
  obtain ⟨children, last, hbuild, -, rfl⟩ := grouped_eq_ok.mp hrun
  exact (h _ _ _ hbuild).trans (.of_cursor_eq rfl)

theorem Advancing.of_attributesOnly {build : Build} (h : build.Ensures AttributesOnly) :
    build.Advancing := by
  intro state forms after hrun
  obtain ⟨rfl, -⟩ := h _ _ _ hrun
  exact .refl after

end Build

theorem Cursor.ahead_takeRun_suffix (cursor : Cursor) (name : String) (limit : MaxOccurs) :
    (cursor.takeRun name limit).2.ahead <:+ cursor.ahead :=
  List.drop_suffix _ _

theorem Cursor.mem_run {cursor : Cursor} {name : String} {limit : MaxOccurs}
    {occurrence : Xml.Element} (h : occurrence ∈ cursor.run name limit) :
    occurrence ∈ cursor.ahead ∧ occurrence.name = name := by
  have hnamed := List.mem_of_mem_take h
  exact ⟨(List.takeWhile_prefix _).subset hnamed, by simpa using List.mem_takeWhile_imp hnamed⟩

/-! ## Particles -/

def Level.Advancing (level : Level) : Prop :=
  ∀ context atLeast particle path, (level.particle context atLeast particle path).Advancing

section

variable {deeper : Option Level} {context : Context} {path : String}

theorem buildDeclared_advancing (declaration : Declaration) (bounds : Bounds) (atLeast : Nat) :
    (buildDeclared deeper context declaration bounds atLeast path).Advancing := by
  intro state forms after hrun
  cases hcursor : state.cursor with
  | none =>
      obtain ⟨-, hafter, -⟩ := buildDeclared_eq_ok_of_none hcursor hrun
      exact .of_cursor_eq (hafter.trans hcursor.symm)
  | some cursor =>
      obtain ⟨made, copies, -, -, -, -, hafter⟩ := buildDeclared_eq_ok_of_some hcursor hrun
      refine ⟨by simp [hafter, hcursor, Cursor.takeRun], ?_⟩
      simp only [BuildState.ahead, hafter, hcursor]
      exact Cursor.ahead_takeRun_suffix _ _ _

theorem buildElement_advancing (node : Xml.Element) (bounds : Bounds) (atLeast : Nat) :
    (buildElement deeper context node bounds atLeast path).Advancing := by
  intro state forms after hrun
  obtain ⟨declaration, -, hbuild⟩ := buildElement_eq_ok.mp hrun
  exact buildDeclared_advancing _ _ _ _ _ _ hbuild

theorem instantiate_advancing {group : Particle} {compositor : Compositor} {bounds : Bounds}
    {one : Build} (hone : one.Advancing) :
    (instantiate context group compositor bounds one).Advancing :=
  Build.Ensures.instantiate advances_additive hone (fun _ => hone.mapForms _) _ _ _ _

theorem buildAlternative_advancing {level : Level} (hlevel : level.Advancing)
    (matched selected : Option Nat) (alternative : Particle) (index : Nat) :
    (buildAlternative level context path matched selected alternative index).Advancing := by
  unfold buildAlternative
  split
  · exact (hlevel _ _ _ _).mapForms _
  · exact (Build.Advancing.withoutInstance _).mapForms _

theorem buildMembers_advancing {level : Level} (hlevel : level.Advancing)
    (compositor : Compositor) (members : List Particle) :
    (buildMembers level context compositor members path).Advancing := by
  cases compositor with
  | sequence =>
      refine Build.Advancing.all fun build hbuild => ?_
      obtain ⟨member, -, rfl⟩ := List.mem_map.mp hbuild
      exact hlevel _ _ _ _
  | choice =>
      intro state forms after hrun
      obtain ⟨matched, -, hall⟩ := Build.ofFault_eq_ok.mp hrun
      refine Build.Advancing.all (fun build hbuild => ?_) _ _ _ hall
      obtain ⟨⟨alternative, index⟩, -, rfl⟩ := List.mem_map.mp hbuild
      exact buildAlternative_advancing hlevel _ _ _ _

theorem oneInstantiation_advancing {level : Level} (hlevel : level.Advancing)
    (compositor : Compositor) (members : List Particle) (node : Xml.Element) (bounds : Bounds) :
    (oneInstantiation level context compositor members node bounds path).Advancing :=
  (buildMembers_advancing hlevel compositor members).grouped _ _ _ _

theorem buildParticle_advancing (hdeeper : ∀ level ∈ deeper, level.Advancing) (atLeast : Nat)
    (particle : Particle) : (buildParticle deeper context atLeast particle path).Advancing := by
  cases particle with
  | element node bounds => exact buildElement_advancing node bounds atLeast
  | group compositor node bounds =>
      intro state forms after hrun
      obtain ⟨level, members, hlevel, -, -, hinstantiate⟩ := buildGroup_eq_ok.mp hrun
      exact instantiate_advancing
        (oneInstantiation_advancing (hdeeper level hlevel) compositor members node bounds)
        _ _ _ hinstantiate
  | attributeUse node =>
      intro state forms after hrun
      exact Build.Advancing.of_attributesOnly (buildAttribute_attributesOnly _ _ _ _) _ _ _ hrun

end

theorem levelBelow_advancing (depth : Nat) : ∀ level ∈ levelBelow depth, level.Advancing :=
  level_induction (fun _ hdeeper _ atLeast particle _ =>
    buildParticle_advancing hdeeper atLeast particle) depth

/-! ## Content -/

theorem buildItem_advancing {level : Level} (hparticle : level.Advancing)
    (hattribute : level.AttributesOnly) (context : Context) (item : Xml.Element) (path : String)
    (occurrence : Option Xml.Element) :
    (buildItem level context item path occurrence).Advancing := by
  intro state forms after hrun
  rcases buildItem_eq_ok hattribute hrun with ⟨-, particle, -, hrun⟩ | ⟨-, rfl, -⟩
  · exact hparticle _ _ _ _ _ _ _ hrun
  · exact .refl after

end SchemaForms
