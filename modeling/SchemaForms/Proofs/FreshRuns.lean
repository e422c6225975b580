import SchemaForms.Proofs.Failures

/-!
# Fresh runs

Without an instance a run compiles all that its builds and groups have to compile, so
what succeeds as a whole succeeds in each of its parts.
-/

namespace SchemaForms

namespace Build

def CanSucceed (build : Build) : Prop :=
  ∃ state forms after, state.cursor = none ∧ build state = .ok (forms, after)

namespace CanSucceed

theorem of_ofFault {α : Type} {outcome : Except SchemaFault α} {next : α → Build}
    (h : (ofFault outcome next).CanSucceed) :
    ∃ value, outcome = .ok value ∧ (next value).CanSucceed := by
  obtain ⟨state, forms, after, hcursor, hrun⟩ := h
  obtain ⟨value, hvalue, hnext⟩ := ofFault_eq_ok.mp hrun
  exact ⟨value, hvalue, state, forms, after, hcursor, hnext⟩

theorem of_all {builds : List Build} (hadvancing : ∀ build ∈ builds, build.Advancing)
    (h : (all builds).CanSucceed) : ∀ build ∈ builds, build.CanSucceed := by
  obtain ⟨state, forms, after, hcursor, hrun⟩ := h
  induction builds generalizing state forms with
  | nil => simp
  | cons first rest ih =>
      obtain ⟨before, middle, others, hfirst, hothers, -⟩ := andThen_eq_ok.mp hrun
      have hmiddle := (hadvancing first List.mem_cons_self _ _ _ hfirst).none hcursor
      intro build hbuild
      rcases List.mem_cons.mp hbuild with rfl | hbuild
      · exact ⟨state, before, middle, hcursor, hfirst⟩
      · exact ih (fun other hother => hadvancing other (List.mem_cons_of_mem _ hother))
          middle others hmiddle hothers build hbuild

end CanSucceed

end Build

/-! ## Groups -/

theorem members_canSucceed {level : Level} (hlevel : level.Advancing) {context : Context}
    {compositor : Compositor} {members : List Particle} {path : String}
    (h : (buildMembers level context compositor members path).CanSucceed) :
    ∀ member ∈ members,
      (level.particle context compositor.memberCount member path).CanSucceed := by
  cases compositor with
  | sequence =>
      intro member hmember
      refine Build.CanSucceed.of_all (fun build hbuild => ?_) h _ (List.mem_map_of_mem hmember)
      obtain ⟨other, -, rfl⟩ := List.mem_map.mp hbuild
      exact hlevel _ _ _ _
  | choice =>
      obtain ⟨state, forms, after, hcursor, hrun⟩ := h
      obtain ⟨matched, -, hall⟩ := Build.ofFault_eq_ok.mp hrun
      have halternatives := Build.CanSucceed.of_all (fun build hbuild => by
        obtain ⟨⟨other, index⟩, -, rfl⟩ := List.mem_map.mp hbuild
        exact buildAlternative_advancing hlevel _ _ _ _) ⟨state, forms, after, hcursor, hall⟩
      intro member hmember
      obtain ⟨index, hindex, rfl⟩ := List.mem_iff_getElem.mp hmember
      obtain ⟨before, made, last, hbefore, hmade⟩ := halternatives _ (List.mem_map_of_mem
        (List.mk_mem_zipIdx_iff_getElem?.mpr (List.getElem?_eq_getElem hindex)))
      obtain ⟨single, -, ⟨-, hsingle⟩ | ⟨-, other, hother, -⟩⟩ := buildAlternative_eq_ok.mp hmade
      · exact ⟨before, single, last, hbefore, hsingle⟩
      · exact ⟨_, single, other, rfl, hother⟩

theorem instantiate_of_none {context : Context} {group : Particle} {compositor : Compositor}
    {bounds : Bounds} {one : Build} (hmax : bounds.max ≠ .count 0) {state : BuildState}
    (hcursor : state.cursor = none) :
    instantiate context group compositor bounds one state =
      Build.all (List.replicate (requiredCount bounds) one) state := by
  simp only [instantiate, if_neg hmax, hcursor]

theorem buildGroup_canSucceed {deeper : Option Level}
    (hadvancing : ∀ level ∈ deeper, level.Advancing) {context : Context}
    {compositor : Compositor} {node : Xml.Element} {bounds : Bounds} {path : String}
    (h : (buildGroup deeper context compositor node bounds path).CanSucceed) :
    ∃ level members, level ∈ deeper ∧ context.encloses node = false ∧
      Particle.members context.schema node = .ok members ∧
      (bounds.max ≠ .count 0 → ∀ member ∈ members,
        (level.particle (context.insideGroup node bounds) compositor.memberCount member
          path).CanSucceed) := by
  obtain ⟨state, forms, after, hcursor, hrun⟩ := h
  obtain ⟨level, members, hlevel, hfree, hmembers, hrun⟩ := buildGroup_eq_ok.mp hrun
  have hfree : context.encloses node = false := hfree.resolve_left (by simp [hcursor])
  refine ⟨level, members, hlevel, hfree, hmembers, fun hmax => ?_⟩
  rw [instantiate_of_none hmax hcursor] at hrun
  have hrequired : requiredCount bounds ≠ 0 := Nat.ne_of_gt (Nat.le_max_right _ _)
  obtain ⟨before, made, last, hbefore, hmade⟩ := Build.CanSucceed.of_all (fun build hbuild => by
    rw [List.eq_of_mem_replicate hbuild]
    exact oneInstantiation_advancing (hadvancing level hlevel) compositor members node bounds)
    ⟨state, forms, after, hcursor, hrun⟩ _ (List.mem_replicate.mpr ⟨hrequired, rfl⟩)
  obtain ⟨children, inner, hchildren, -, -⟩ := Build.grouped_eq_ok.mp hmade
  exact members_canSucceed (hadvancing level hlevel) ⟨before, children, inner, hbefore, hchildren⟩

end SchemaForms
