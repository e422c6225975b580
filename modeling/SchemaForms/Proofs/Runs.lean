import Mathlib.Data.List.Forall2
import SchemaForms.Compile.Request

/-!
# Successful builds

What has happened in the parts of a build when it succeeds, and the induction
over the levels of definitions by which every statement about compiled
particles is proved.
-/

namespace SchemaForms

theorem exists_of_checked {ε α : Type} {outcome : Except ε α} {check : α → Bool}
    (h : outcome.toOption.any check = true) :
    ∃ value, outcome = .ok value ∧ check value = true := by
  cases outcome with
  | error error => cases h
  | ok value => exact ⟨value, rfl, h⟩

theorem exists_of_isOk {ε α : Type} {outcome : Except ε α} (h : outcome.isOk = true) :
    ∃ value, outcome = .ok value := by
  cases outcome with
  | error error => cases h
  | ok value => exact ⟨value, rfl⟩

theorem exists_of_not_isOk {ε α : Type} {outcome : Except ε α} (h : outcome.isOk = false) :
    ∃ error, outcome = .error error := by
  cases outcome with
  | error error => exact ⟨error, rfl⟩
  | ok value => cases h

theorem exists_of_forall₂ {α β : Type} {related : α → β → Prop} {first : List α}
    {second : List β} (h : List.Forall₂ related first second) {result : β}
    (hresult : result ∈ second) : ∃ source ∈ first, related source result := by
  induction h with
  | nil => cases hresult
  | cons hhead _ ih =>
      rcases List.mem_cons.mp hresult with rfl | hresult
      · exact ⟨_, List.mem_cons_self, hhead⟩
      · obtain ⟨source, hsource, hrelated⟩ := ih hresult
        exact ⟨source, List.mem_cons_of_mem _ hsource, hrelated⟩

namespace Build

variable {build first second : Build} {state after : BuildState} {forms : List Form}

theorem nothing_eq_ok :
    nothing state = .ok (forms, after) ↔ forms = [] ∧ after = state := by
  simp [nothing, eq_comm]

theorem emit_eq_ok {form : Form} :
    emit form state = .ok (forms, after) ↔ forms = [form] ∧ after = state := by
  simp [emit, eq_comm]

theorem ofFault_eq_ok {α : Type} {outcome : Except SchemaFault α} {next : α → Build}
    {result : List Form × BuildState} :
    ofFault outcome next state = .ok result ↔
      ∃ value, outcome = .ok value ∧ next value state = .ok result := by
  cases outcome <;> simp [ofFault, fail]

theorem andThen_eq_ok :
    first.andThen second state = .ok (forms, after) ↔
      ∃ before middle rest, first state = .ok (before, middle) ∧
        second middle = .ok (rest, after) ∧ forms = before ++ rest := by
  simp only [andThen]
  cases hfirst : first state with
  | error failure => simp
  | ok result =>
      obtain ⟨before, middle⟩ := result
      cases hsecond : second middle with
      | error failure => simp [hsecond]
      | ok result =>
          obtain ⟨rest, last⟩ := result
          simp only [hsecond, Except.ok.injEq, Prod.mk.injEq]
          constructor
          · rintro ⟨rfl, rfl⟩
            exact ⟨before, middle, rest, ⟨rfl, rfl⟩, hsecond, rfl⟩
          · rintro ⟨_, _, more, ⟨rfl, rfl⟩, hmore, rfl⟩
            rw [hsecond] at hmore
            cases hmore
            exact ⟨rfl, rfl⟩

theorem mapForms_eq_ok {change : Form → Form} :
    build.mapForms change state = .ok (forms, after) ↔
      ∃ made, build state = .ok (made, after) ∧ forms = made.map change := by
  simp only [mapForms]
  cases hbuild : build state with
  | error failure => simp
  | ok result =>
      obtain ⟨made, last⟩ := result
      simp only [Except.ok.injEq, Prod.mk.injEq]
      constructor
      · rintro ⟨rfl, rfl⟩
        exact ⟨made, ⟨rfl, rfl⟩, rfl⟩
      · rintro ⟨_, ⟨rfl, rfl⟩, rfl⟩
        exact ⟨rfl, rfl⟩

theorem withoutInstance_eq_ok :
    build.withoutInstance state = .ok (forms, after) ↔
      ∃ last, build { state with cursor := none } = .ok (forms, last) ∧
        after = { last with cursor := state.cursor } := by
  simp only [withoutInstance]
  cases hbuild : build { state with cursor := none } with
  | error failure => simp
  | ok result =>
      obtain ⟨made, last⟩ := result
      simp only [Except.ok.injEq, Prod.mk.injEq]
      constructor
      · rintro ⟨rfl, rfl⟩
        exact ⟨last, ⟨rfl, rfl⟩, rfl⟩
      · rintro ⟨_, ⟨rfl, rfl⟩, rfl⟩
        exact ⟨rfl, rfl⟩

theorem grouped_eq_ok {compositor : Compositor} {node : Xml.Element} {bounds : Bounds}
    {path : String} :
    build.grouped compositor node bounds path state = .ok (forms, after) ↔
      ∃ children last, build state = .ok (children, last) ∧
        forms = [groupForm compositor node bounds
          (placePath path compositor.step (last.nextPlace compositor.step)) children] ∧
        after = last.givePlace compositor.step := by
  simp only [grouped]
  cases hbuild : build state with
  | error failure => simp
  | ok result =>
      obtain ⟨children, last⟩ := result
      simp only [Except.ok.injEq, Prod.mk.injEq]
      constructor
      · rintro ⟨rfl, rfl⟩
        exact ⟨children, last, ⟨rfl, rfl⟩, rfl, rfl⟩
      · rintro ⟨_, _, ⟨rfl, rfl⟩, rfl, rfl⟩
        exact ⟨rfl, rfl⟩

/-! ## Relations that successful builds keep -/

/-- Every success leaves the states and the forms in the relation. -/
def Ensures (build : Build) (relation : BuildState → List Form → BuildState → Prop) : Prop :=
  ∀ state forms after, build state = .ok (forms, after) → relation state forms after

structure Additive (relation : BuildState → List Form → BuildState → Prop) : Prop where
  nothing : ∀ state, relation state [] state
  append : ∀ {state middle after before rest}, relation state before middle →
    relation middle rest after → relation state (before ++ rest) after

def MakesOne (build : Build) (kind : Form → Prop) : Prop :=
  build.Ensures fun _ forms _ => ∃ form, forms = [form] ∧ kind form

theorem MakesOne.mono {kind other : Form → Prop} (h : build.MakesOne kind)
    (hkind : ∀ form, kind form → other form) : build.MakesOne other := by
  intro state forms after hrun
  obtain ⟨form, hforms, hform⟩ := h _ _ _ hrun
  exact ⟨form, hforms, hkind form hform⟩

theorem MakesOne.replicate {kind : Form → Prop} (hone : build.MakesOne kind) {count : Nat}
    (hrun : all (List.replicate count build) state = .ok (forms, after)) :
    forms.length = count ∧ ∀ form ∈ forms, kind form := by
  induction count generalizing state forms with
  | zero =>
      obtain ⟨rfl, -⟩ := nothing_eq_ok.mp hrun
      simp
  | succ count ih =>
      obtain ⟨before, middle, rest, hbefore, hrest, rfl⟩ := andThen_eq_ok.mp hrun
      obtain ⟨form, rfl, hform⟩ := hone _ _ _ hbefore
      obtain ⟨hlength, hforms⟩ := ih hrest
      exact ⟨by simp [hlength], by simpa using ⟨hform, hforms⟩⟩

/-- The repetitions over an instance carry the messages about their numbers. There are as
many as are required, if the fuel allows them. -/
theorem MakesOne.repeatOver {kind : Form → Prop} (hone : build.MakesOne kind) {repeated : Bool}
    {names : List String} {bounds : Bounds} {tag : String} {fuel count : Nat}
    (hrun : SchemaForms.repeatOver repeated names bounds tag build fuel count state =
      .ok (forms, after)) :
    List.Forall₂ (fun index form => ∃ single, kind single ∧
        form = remarkWith (surplusError tag bounds.max (index + 1)) single)
        (List.range' count forms.length) forms ∧
      (requiredCount bounds ≤ count + fuel → requiredCount bounds ≤ count + forms.length) := by
  induction fuel generalizing count state forms with
  | zero =>
      obtain ⟨rfl, -⟩ := nothing_eq_ok.mp hrun
      exact ⟨.nil, id⟩
  | succ fuel ih =>
      simp only [SchemaForms.repeatOver] at hrun
      split at hrun
      · rename_i hends
        cases hrun
        simp only [endsAfter, Bool.and_eq_true, decide_eq_true_eq] at hends
        exact ⟨.nil, fun _ => Nat.le_trans hends.1 (Nat.le_add_right _ _)⟩
      obtain ⟨before, middle, others, hbefore, hothers, rfl⟩ := andThen_eq_ok.mp hrun
      obtain ⟨made, hmade, rfl⟩ := mapForms_eq_ok.mp hbefore
      obtain ⟨single, rfl, hsingle⟩ := hone _ _ _ hmade
      split at hothers
      · rename_i hlast
        cases hothers
        simp only [Bool.and_eq_true, decide_eq_true_eq] at hlast
        exact ⟨.cons ⟨single, hsingle, rfl⟩ .nil, fun _ => hlast.1⟩
      · obtain ⟨hrest, hcount⟩ := ih hothers
        refine ⟨?_, fun henough => ?_⟩
        · simp only [List.map_cons, List.map_nil, List.singleton_append, List.length_cons,
            List.range'_succ]
          exact .cons ⟨single, hsingle, rfl⟩ hrest
        · simp only [List.map_cons, List.map_nil, List.singleton_append, List.length_cons]
          omega

variable {relation : BuildState → List Form → BuildState → Prop}

theorem Ensures.andThen (additive : Additive relation) (hfirst : first.Ensures relation)
    (hsecond : second.Ensures relation) : (first.andThen second).Ensures relation := by
  intro state forms after hrun
  obtain ⟨before, middle, rest, hbefore, hrest, rfl⟩ := andThen_eq_ok.mp hrun
  exact additive.append (hfirst _ _ _ hbefore) (hsecond _ _ _ hrest)

theorem Ensures.all (additive : Additive relation) {builds : List Build}
    (heach : ∀ build ∈ builds, build.Ensures relation) : (all builds).Ensures relation := by
  induction builds with
  | nil =>
      intro state forms after hrun
      obtain ⟨rfl, rfl⟩ := nothing_eq_ok.mp hrun
      exact additive.nothing after
  | cons build rest ih =>
      exact (heach build (by simp)).andThen additive
        (ih fun other hother => heach other (by simp [hother]))

theorem Ensures.repeatOver (additive : Additive relation) {one : Build} {tag : String}
    {bounds : Bounds}
    (hone : ∀ number,
      (one.mapForms (remarkWith (surplusError tag bounds.max number))).Ensures relation)
    (repeated : Bool) (names : List String) (fuel count : Nat) :
    (SchemaForms.repeatOver repeated names bounds tag one fuel count).Ensures relation := by
  induction fuel generalizing count with
  | zero =>
      intro state forms after hrun
      obtain ⟨rfl, rfl⟩ := nothing_eq_ok.mp hrun
      exact additive.nothing after
  | succ fuel ih =>
      intro state forms after hrun
      simp only [SchemaForms.repeatOver] at hrun
      split at hrun
      · cases hrun
        exact additive.nothing state
      · obtain ⟨before, middle, rest, hbefore, hrest, rfl⟩ := andThen_eq_ok.mp hrun
        refine additive.append (hone _ _ _ _ hbefore) ?_
        split at hrest
        · cases hrest
          exact additive.nothing _
        · exact ih _ _ _ _ hrest

/-- A group keeps what its instantiations keep, with the messages about their numbers too. -/
theorem Ensures.instantiate (additive : Additive relation) {one : Build}
    (hone : one.Ensures relation)
    (hremarked : ∀ error, (one.mapForms (remarkWith error)).Ensures relation)
    (context : Context) (group : Particle) (compositor : Compositor) (bounds : Bounds) :
    (SchemaForms.instantiate context group compositor bounds one).Ensures relation := by
  intro state forms after hrun
  simp only [SchemaForms.instantiate] at hrun
  split at hrun
  · cases hrun
    exact additive.nothing state
  · split at hrun
    · refine Ensures.all additive (fun build hbuild => ?_) _ _ _ hrun
      rw [List.eq_of_mem_replicate hbuild]
      exact hone
    · obtain ⟨names, -, hrepeat⟩ := ofFault_eq_ok.mp hrun
      exact Ensures.repeatOver additive (fun _ => hremarked _) _ _ _ _ _ _ _ hrepeat

def Each (property : Form → Prop) (_ : BuildState) (forms : List Form) (_ : BuildState) : Prop :=
  ∀ form ∈ forms, property form

theorem each_additive (property : Form → Prop) : Additive (Each property) where
  nothing := by
    intro state form hform
    cases hform
  append := by
    intro state middle after before rest hbefore hrest form hform
    rcases List.mem_append.mp hform with hform | hform
    · exact hbefore form hform
    · exact hrest form hform

end Build

/-! ## Levels -/

def Context.insideType (context : Context) (definition : Xml.Element) : Context :=
  { context.inside definition with repeated := false }

def Context.insideGroup (context : Context) (node : Xml.Element) (bounds : Bounds) : Context :=
  { context.inside node with repeated := context.repeated || bounds.repeats }

theorem Context.enter_eq_ok {context inner : Context} {deeper : Option Level}
    {definition : Xml.Element} {editing : Bool} {level : Level} :
    context.enter deeper definition editing = .ok (inner, level) ↔
      (editing = true ∨ context.encloses definition = false) ∧ level ∈ deeper ∧
        inner = context.inside definition := by
  simp only [enter]
  cases editing <;> cases context.encloses definition <;> cases deeper <;>
    simp [eq_comm, and_comm]

theorem mem_levelBelow {levels : Nat} {level : Level} (h : level ∈ levelBelow levels) :
    ∃ left, levels = left + 1 ∧
      level = ⟨buildParticle (levelBelow left), buildAttributeEntry (levelBelow left)⟩ := by
  cases levels with
  | zero => cases h
  | succ left =>
      rw [levelBelow_succ, Option.mem_some_iff] at h
      exact ⟨left, rfl, h.symm⟩

/-- A property of compiled particles and attributes that passes from each level
to the one above it holds of all levels. -/
theorem level_induction {property : Level → Prop}
    (step : ∀ deeper : Option Level, (∀ level ∈ deeper, property level) →
      property ⟨buildParticle deeper, buildAttributeEntry deeper⟩) (depth : Nat) :
    ∀ level ∈ levelBelow depth, property level := by
  induction depth with
  | zero => simp
  | succ depth ih =>
      intro level hlevel
      rw [levelBelow_succ, Option.mem_some_iff] at hlevel
      subst hlevel
      exact step _ ih

theorem level_induction_of {known property : Level → Prop}
    (hknown : ∀ depth, ∀ level ∈ levelBelow depth, known level)
    (step : ∀ deeper : Option Level, (∀ level ∈ deeper, known level ∧ property level) →
      property ⟨buildParticle deeper, buildAttributeEntry deeper⟩) (depth : Nat) :
    ∀ level ∈ levelBelow depth, known level ∧ property level := by
  induction depth with
  | zero => simp
  | succ depth ih =>
      intro level hlevel
      have hlevelKnown := hknown (depth + 1) level hlevel
      rw [levelBelow_succ, Option.mem_some_iff] at hlevel
      subst hlevel
      exact ⟨hlevelKnown, step _ ih⟩

end SchemaForms
