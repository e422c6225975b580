import SchemaForms.Proofs.Advance

/-!
# Failing builds

A build that consists of others fails in one of them, in the state that those before
it have left.
-/

namespace SchemaForms

namespace Build

def Fails (build : Build) (state : BuildState) (fault : SchemaFault) : Prop :=
  ∃ failure, build state = .error failure ∧ failure.error.fault = fault

def CanFail (build : Build) (fault : SchemaFault) : Prop :=
  ∃ state, state.cursor = none ∧ build.Fails state fault

def Reaches (build : Build) (state after : BuildState) : Prop :=
  ∃ forms, build state = .ok (forms, after)

variable {build first second : Build} {state after : BuildState} {fault : SchemaFault}

theorem not_nothing_fails : ¬nothing.Fails state fault := by
  rintro ⟨failure, h, -⟩
  cases h

theorem not_emit_fails {form : Form} : ¬(emit form).Fails state fault := by
  rintro ⟨failure, h, -⟩
  cases h

theorem fail_fails {error : Diagnostic} : (fail error).Fails state fault ↔ error.fault = fault := by
  constructor
  · rintro ⟨failure, h, rfl⟩
    cases h
    rfl
  · rintro rfl
    exact ⟨_, rfl, rfl⟩

theorem ofFault_fails {α : Type} {outcome : Except SchemaFault α} {next : α → Build} :
    (ofFault outcome next).Fails state fault ↔
      outcome = .error fault ∨ ∃ value, outcome = .ok value ∧ (next value).Fails state fault := by
  cases outcome with
  | error other => simp [ofFault, fail_fails, Diagnostic.ofFault]
  | ok value => simp [ofFault]

theorem andThen_fails :
    (first.andThen second).Fails state fault ↔ first.Fails state fault ∨
      ∃ forms middle, first state = .ok (forms, middle) ∧ second.Fails middle fault := by
  simp only [Fails, andThen]
  cases hfirst : first state with
  | error failure => simp
  | ok result =>
      obtain ⟨before, middle⟩ := result
      cases hsecond : second middle with
      | error failure => simp [hsecond]
      | ok result => simp [hsecond]

theorem mapForms_fails {change : Form → Form} :
    (build.mapForms change).Fails state fault ↔ build.Fails state fault := by
  simp only [Fails, mapForms]
  cases build state with
  | error failure => simp
  | ok result => simp

theorem withoutInstance_fails :
    build.withoutInstance.Fails state fault ↔ build.Fails { state with cursor := none } fault := by
  simp only [Fails, withoutInstance]
  cases build { state with cursor := none } with
  | error failure => simp
  | ok result => simp

theorem grouped_fails {compositor : Compositor} {node : Xml.Element} {bounds : Bounds}
    {path : String} :
    (build.grouped compositor node bounds path).Fails state fault ↔ build.Fails state fault := by
  simp only [Fails, grouped]
  cases build state with
  | error failure => simp
  | ok result => simp

/-! ## What is reached -/

theorem reaches_nothing : nothing.Reaches state after ↔ after = state := by
  simp [Reaches, nothing, eq_comm]

theorem reaches_andThen :
    (first.andThen second).Reaches state after ↔
      ∃ middle, first.Reaches state middle ∧ second.Reaches middle after := by
  constructor
  · rintro ⟨forms, hrun⟩
    obtain ⟨made, middle, more, hfirst, hsecond, -⟩ := andThen_eq_ok.mp hrun
    exact ⟨middle, ⟨made, hfirst⟩, more, hsecond⟩
  · rintro ⟨middle, ⟨made, hfirst⟩, more, hsecond⟩
    exact ⟨made ++ more, andThen_eq_ok.mpr ⟨made, middle, more, hfirst, hsecond, rfl⟩⟩

theorem reaches_mapForms {change : Form → Form} :
    (build.mapForms change).Reaches state after ↔ build.Reaches state after := by
  constructor
  · rintro ⟨forms, hrun⟩
    obtain ⟨made, hmade, -⟩ := mapForms_eq_ok.mp hrun
    exact ⟨made, hmade⟩
  · rintro ⟨made, hmade⟩
    exact ⟨_, mapForms_eq_ok.mpr ⟨made, hmade, rfl⟩⟩

theorem Advancing.advances (h : build.Advancing) (hreaches : build.Reaches state after) :
    state.Advances after :=
  hreaches.elim fun _ hrun => h _ _ _ hrun

/-! ## Builds one after the other -/

theorem all_fails_iff {builds : List Build} :
    (all builds).Fails state fault ↔ ∃ before build rest middle,
      builds = before ++ build :: rest ∧ (all before).Reaches state middle ∧
        build.Fails middle fault := by
  induction builds generalizing state with
  | nil => simp [all, not_nothing_fails]
  | cons first others ih =>
      constructor
      · intro h
        rcases andThen_fails.mp h with h | ⟨forms, middle, hfirst, h⟩
        · exact ⟨[], first, others, state, rfl, reaches_nothing.mpr rfl, h⟩
        · obtain ⟨before, build, rest, last, rfl, hbefore, h⟩ := ih.mp h
          exact ⟨first :: before, build, rest, last, rfl,
            reaches_andThen.mpr ⟨middle, ⟨forms, hfirst⟩, hbefore⟩, h⟩
      · rintro ⟨before, build, rest, last, hbuilds, hbefore, h⟩
        cases before with
        | nil =>
            obtain ⟨rfl, rfl⟩ := List.cons_eq_cons.mp hbuilds
            obtain rfl := reaches_nothing.mp hbefore
            exact andThen_fails.mpr (.inl h)
        | cons other before =>
            obtain ⟨rfl, rfl⟩ := List.cons_eq_cons.mp hbuilds
            obtain ⟨middle, ⟨forms, hfirst⟩, hbefore⟩ := reaches_andThen.mp hbefore
            exact andThen_fails.mpr (.inr ⟨forms, middle, hfirst,
              ih.mpr ⟨before, build, rest, last, rfl, hbefore, h⟩⟩)

theorem all_map_fails {α : Type} {items : List α} {make : α → Build} :
    (all (items.map make)).Fails state fault ↔ ∃ before item rest middle,
      items = before ++ item :: rest ∧ (all (before.map make)).Reaches state middle ∧
        (make item).Fails middle fault := by
  rw [all_fails_iff]
  constructor
  · rintro ⟨_, _, _, middle, hitems, hbefore, h⟩
    obtain ⟨before, _, rfl, rfl, hrest⟩ := List.map_eq_append_iff.mp hitems
    obtain ⟨item, rest, rfl, rfl, -⟩ := List.map_eq_cons_iff.mp hrest
    exact ⟨before, item, rest, middle, rfl, hbefore, h⟩
  · rintro ⟨before, item, rest, middle, rfl, hbefore, h⟩
    exact ⟨before.map make, make item, rest.map make, middle, by simp, hbefore, h⟩

theorem all_zipIdx_fails {α : Type} {items : List α} {make : α × Nat → Build} :
    (all (items.zipIdx.map make)).Fails state fault ↔ ∃ before item rest middle,
      items = before ++ item :: rest ∧ (all (before.zipIdx.map make)).Reaches state middle ∧
        (make (item, before.length)).Fails middle fault := by
  rw [all_map_fails]
  constructor
  · rintro ⟨_, _, _, middle, hitems, hbefore, h⟩
    obtain ⟨before, _, rfl, rfl, hrest⟩ := List.zipIdx_eq_append_iff.mp hitems
    obtain ⟨item, rest, rfl, rfl, -⟩ := List.zipIdx_eq_cons_iff.mp hrest.symm
    exact ⟨before, item, rest, middle, rfl, hbefore, by simpa using h⟩
  · rintro ⟨before, item, rest, middle, rfl, hbefore, h⟩
    exact ⟨before.zipIdx, (item, before.length), rest.zipIdx (before.length + 1), middle,
      by simp [List.zipIdx_append, List.zipIdx_cons], hbefore, h⟩

theorem all_replicate_fails {count : Nat} :
    (all (List.replicate count build)).Fails state fault ↔ ∃ done < count, ∃ middle,
      (all (List.replicate done build)).Reaches state middle ∧ build.Fails middle fault := by
  rw [all_fails_iff]
  constructor
  · rintro ⟨before, other, rest, middle, hbuilds, hbefore, h⟩
    obtain ⟨hlength, hsame, hrest⟩ := List.append_eq_replicate_iff.mp hbuilds.symm
    obtain rfl : other = build := (List.eq_replicate_iff.mp hrest).2 other List.mem_cons_self
    rw [hsame] at hbefore
    refine ⟨before.length, ?_, middle, hbefore, h⟩
    rw [List.length_cons] at hlength
    omega
  · rintro ⟨done, hdone, middle, hbefore, h⟩
    refine ⟨List.replicate done build, build, List.replicate (count - done - 1) build, middle, ?_,
      hbefore, h⟩
    rw [← List.replicate_succ, ← List.replicate_add]
    congr 1
    omega

theorem all_fails {builds : List Build} (hadvancing : ∀ build ∈ builds, build.Advancing)
    (h : (all builds).Fails state fault) :
    ∃ build ∈ builds, ∃ middle, state.Advances middle ∧ build.Fails middle fault := by
  obtain ⟨before, build, rest, middle, rfl, hbefore, h⟩ := all_fails_iff.mp h
  have hadvances : (all before).Advancing :=
    Advancing.all fun build hbuild => hadvancing build (List.mem_append_left _ hbuild)
  exact ⟨build, List.mem_append_cons_self, middle, hadvances.advances hbefore, h⟩

theorem all_fails_of_attributesOnly {builds : List Build}
    (hattributes : ∀ build ∈ builds, build.Ensures AttributesOnly)
    (h : (all builds).Fails state fault) : ∃ build ∈ builds, build.Fails state fault := by
  obtain ⟨before, build, rest, middle, rfl, ⟨forms, hbefore⟩, h⟩ := all_fails_iff.mp h
  have hsame : (all before).Ensures AttributesOnly :=
    Ensures.all attributesOnly_additive fun build hbuild =>
      hattributes build (List.mem_append_left _ hbuild)
  rw [(hsame _ _ _ hbefore).1] at h
  exact ⟨build, List.mem_append_cons_self, h⟩

/-! ## Instantiations of a group -/

/-- With `count` instantiations done before the first state, there comes to be one that
begins in the last state. -/
inductive ComesTo (repeated : Bool) (names : List String) (bounds : Bounds) (one : Build) :
    Nat → BuildState → BuildState → Prop
  | next {count : Nat} {state : BuildState} :
      endsAfter repeated names bounds count state.next? = false →
      ComesTo repeated names bounds one count state state
  | later {count : Nat} {state after last : BuildState} :
      endsAfter repeated names bounds count state.next? = false → one.Reaches state after →
      (requiredCount bounds ≤ count + 1 → after.ahead.length ≠ state.ahead.length) →
      ComesTo repeated names bounds one (count + 1) after last →
      ComesTo repeated names bounds one count state last

variable {one : Build} {repeated : Bool} {names : List String} {bounds : Bounds} {tag : String}
  {fuel count : Nat} {last : BuildState}

theorem ComesTo.advances (hone : one.Advancing)
    (h : ComesTo repeated names bounds one count state last) : state.Advances last := by
  induction h with
  | next _ => exact .refl _
  | later _ hreaches _ _ ih => exact (hone.advances hreaches).trans ih

theorem comesTo_of_repeatOver_fails
    (h : (repeatOver repeated names bounds tag one fuel count).Fails state fault) :
    ∃ last, ComesTo repeated names bounds one count state last ∧ one.Fails last fault := by
  induction fuel generalizing state count with
  | zero => exact absurd h not_nothing_fails
  | succ fuel ih =>
      obtain ⟨failure, hrun, hfault⟩ := h
      simp only [repeatOver] at hrun
      split at hrun
      · cases hrun
      rename_i hends
      rw [Bool.not_eq_true] at hends
      rcases andThen_fails.mp ⟨failure, hrun, hfault⟩ with h | ⟨forms, after, hbuild, h⟩
      · exact ⟨state, .next hends, mapForms_fails.mp h⟩
      have hafter := reaches_mapForms.mp ⟨forms, hbuild⟩
      obtain ⟨failure, hrun, hfault⟩ := h
      simp only at hrun
      split at hrun
      · cases hrun
      rename_i hgoes
      obtain ⟨last, hlast, h⟩ := ih ⟨failure, hrun, hfault⟩
      exact ⟨last, .later hends hafter (by simpa using hgoes) hlast, h⟩

/-- There is fuel for each required instantiation, and for each element ahead. -/
theorem repeatOver_fails_of_comesTo (hone : one.Advancing)
    (hfuel : max (count + 1) (requiredCount bounds) + state.ahead.length ≤ count + fuel)
    (hcomes : ComesTo repeated names bounds one count state last) (h : one.Fails last fault) :
    (repeatOver repeated names bounds tag one fuel count).Fails state fault := by
  induction hcomes generalizing fuel with
  | @next count state hends =>
      obtain ⟨left, rfl⟩ : ∃ left, fuel = left + 1 := ⟨fuel - 1, by omega⟩
      simp only [Fails, repeatOver, hends, Bool.false_eq_true, if_false]
      exact andThen_fails.mpr (.inl (mapForms_fails.mpr h))
  | @later count state after last hends hreaches hgoes _ ih =>
      obtain ⟨left, rfl⟩ : ∃ left, fuel = left + 1 := ⟨fuel - 1, by omega⟩
      have hle := (hone.advances hreaches).ahead.length_le
      obtain ⟨forms, hbuild⟩ := reaches_mapForms.mpr hreaches
      have hrest : (repeatOver repeated names bounds tag one left (count + 1)).Fails after fault :=
        ih (by omega) h
      have hstops : (decide (requiredCount bounds ≤ count + 1) &&
          decide (after.ahead.length = state.ahead.length)) = false := by
        simpa using hgoes
      simp only [Fails, repeatOver, hends, Bool.false_eq_true, if_false]
      refine andThen_fails.mpr (.inr ⟨forms, after, hbuild, ?_⟩)
      simp only [Fails, hstops, Bool.false_eq_true, if_false]
      exact hrest

theorem instantiate_fails_iff {context : Context} {group : Particle} {compositor : Compositor}
    (hone : one.Advancing) (hediting : state.cursor.isSome = true) :
    (instantiate context group compositor bounds one).Fails state fault ↔
      bounds.max ≠ .count 0 ∧ (firstNames context.schema group = .error fault ∨
        ∃ names last, firstNames context.schema group = .ok names ∧
          ComesTo context.repeated names bounds one 0 state last ∧ one.Fails last fault) := by
  obtain ⟨cursor, hcursor⟩ := Option.isSome_iff_exists.mp hediting
  have hahead : state.ahead = cursor.ahead := by simp only [BuildState.ahead, hcursor]
  have hrequired : 1 ≤ requiredCount bounds := Nat.le_max_right _ _
  by_cases hmax : bounds.max = .count 0
  · simp [Fails, instantiate, hmax]
  have hbuild : (instantiate context group compositor bounds one).Fails state fault ↔
      (ofFault (firstNames context.schema group) fun names =>
        repeatOver context.repeated names bounds compositor.label one
          (requiredCount bounds + cursor.ahead.length) 0).Fails state fault := by
    simp only [Fails, instantiate, if_neg hmax, hcursor]
  rw [hbuild, ofFault_fails]
  refine ⟨fun h => ⟨hmax, h.imp_right ?_⟩, fun h => h.2.imp_right ?_⟩
  · rintro ⟨names, hnames, h⟩
    obtain ⟨last, hlast, h⟩ := comesTo_of_repeatOver_fails h
    exact ⟨names, last, hnames, hlast, h⟩
  · rintro ⟨names, last, hnames, hlast, h⟩
    exact ⟨names, hnames,
      repeatOver_fails_of_comesTo hone (by rw [hahead]; omega) hlast h⟩

end Build

end SchemaForms
