import SchemaForms.Proofs.Advance
import SchemaForms.Proofs.ContentModels

/-!
# Instantiations of groups

Over an instance a group is instantiated as often as it has to be, and then for as
long as the next element begins it. An instantiation that was not required and took
nothing is the last one, so there are at most as many beyond the required ones as
elements are taken. Those past the maximum carry a message, and inside of a repeatable
group there are none of them.
-/

namespace SchemaForms

structure Instantiation where
  before : BuildState
  form : Form
  after : BuildState

def Instantiation.TakesNothing (run : Instantiation) : Prop :=
  run.after.ahead.length = run.before.ahead.length

inductive Instantiations (one : Build) :
    BuildState → List Instantiation → BuildState → Prop
  | nil {state : BuildState} : Instantiations one state [] state
  | cons {before after last : BuildState} {form : Form} {rest : List Instantiation} :
      one before = .ok ([form], after) → Instantiations one after rest last →
      Instantiations one before (⟨before, form, after⟩ :: rest) last

/-- The nodes of instantiations that are numbered from `count + 1` on, each past the
maximum with the message about it. -/
def remarkedForms (tag : String) (max : MaxOccurs) (count : Nat) (runs : List Instantiation) :
    List Form :=
  (runs.zipIdx count).map fun numbered =>
    remarkWith (surplusError tag max (numbered.2 + 1)) numbered.1.form

theorem length_remarkedForms (tag : String) (max : MaxOccurs) (count : Nat)
    (runs : List Instantiation) : (remarkedForms tag max count runs).length = runs.length := by
  rw [remarkedForms, List.length_map, List.length_zipIdx]

/-- How the instantiations go on after `count` of them: the instance ends them, or one
that was not required takes nothing and is the last, or one is followed by others. -/
inductive Repetition (repeated : Bool) (names : List String) (bounds : Bounds) (one : Build) :
    Nat → BuildState → List Instantiation → BuildState → Prop
  | ends {count : Nat} {state : BuildState} :
      endsAfter repeated names bounds count state.next? = true →
      Repetition repeated names bounds one count state [] state
  | stops {count : Nat} {before after : BuildState} {form : Form} :
      endsAfter repeated names bounds count before.next? = false →
      one before = .ok ([form], after) → requiredCount bounds ≤ count + 1 →
      after.ahead.length = before.ahead.length →
      Repetition repeated names bounds one count before [⟨before, form, after⟩] after
  | goesOn {count : Nat} {before after last : BuildState} {form : Form}
      {rest : List Instantiation} :
      endsAfter repeated names bounds count before.next? = false →
      one before = .ok ([form], after) →
      (requiredCount bounds ≤ count + 1 → after.ahead.length ≠ before.ahead.length) →
      Repetition repeated names bounds one (count + 1) after rest last →
      Repetition repeated names bounds one count before (⟨before, form, after⟩ :: rest) last

/-! ## Numbers of instantiations -/

theorem endsAfter_eq_true {repeated : Bool} {names : List String} {bounds : Bounds}
    {count : Nat} {next : Option Xml.Element} :
    endsAfter repeated names bounds count next = true ↔
      requiredCount bounds ≤ count ∧ ((∀ element ∈ next, element.name ∉ names) ∨
        (repeated = true ∧ bounds.max.allows (count + 1) = false)) := by
  cases next <;> simp [endsAfter]

theorem begins_of_endsAfter_eq_false {repeated : Bool} {names : List String} {bounds : Bounds}
    {count : Nat} {next : Option Xml.Element}
    (h : endsAfter repeated names bounds count next = false)
    (hrequired : requiredCount bounds ≤ count) :
    (∃ element ∈ next, element.name ∈ names) ∧
      (repeated = true → bounds.max.allows (count + 1) = true) := by
  rw [← Bool.not_eq_true, endsAfter_eq_true] at h
  simpa [hrequired] using h

namespace Repetition

variable {repeated : Bool} {names : List String} {bounds : Bounds} {one : Build} {count : Nat}
  {state after : BuildState} {runs : List Instantiation}

theorem instantiations (h : Repetition repeated names bounds one count state runs after) :
    Instantiations one state runs after := by
  induction h with
  | ends _ => exact .nil
  | stops _ hone _ _ => exact .cons hone .nil
  | goesOn _ hone _ _ ih => exact .cons hone ih

theorem required_le (h : Repetition repeated names bounds one count state runs after) :
    requiredCount bounds ≤ count + runs.length := by
  induction h with
  | ends hends => exact (endsAfter_eq_true.mp hends).1
  | stops _ _ hrequired _ => exact hrequired
  | goesOn _ _ _ _ ih =>
      rw [List.length_cons]
      omega

/-- Each instantiation from the last required one on takes an element, unless it is the last. -/
theorem length_le (hadvancing : one.Advancing)
    (h : Repetition repeated names bounds one count state runs after) :
    count + runs.length + after.ahead.length ≤
      max (count + 1) (requiredCount bounds) + state.ahead.length := by
  induction h with
  | ends _ =>
      rw [List.length_nil]
      omega
  | stops _ _ _ hsame =>
      rw [List.length_singleton]
      omega
  | goesOn _ hone htakes _ ih =>
      have hle := (hadvancing _ _ _ hone).ahead.length_le
      rw [List.length_cons]
      omega

theorem begins (h : Repetition repeated names bounds one count state runs after) :
    ∀ index run, runs[index]? = some run → requiredCount bounds ≤ count + index →
      (∃ element ∈ run.before.next?, element.name ∈ names) ∧
        (repeated = true → bounds.max.allows (count + index + 1) = true) := by
  induction h with
  | ends _ => simp
  | stops hgoes _ _ _ =>
      rintro (_ | index) run hrun hrequired
      · cases hrun
        exact begins_of_endsAfter_eq_false hgoes hrequired
      · cases hrun
  | @goesOn count _ _ _ _ _ hgoes _ _ _ ih =>
      rintro (_ | index) run hrun hrequired
      · cases hrun
        exact begins_of_endsAfter_eq_false hgoes hrequired
      · have hindex : count + (index + 1) = count + 1 + index := by omega
        rw [hindex] at hrequired ⊢
        exact ih index run hrun hrequired

theorem allows_length (hmax : bounds.max ≠ .count 0)
    (h : Repetition repeated names bounds one 0 state runs after) (hrepeated : repeated = true) :
    bounds.max.allows runs.length = true := by
  rcases Nat.lt_or_ge (requiredCount bounds) runs.length with hmore | hrequired
  · obtain ⟨last, hlast⟩ : ∃ last, runs[runs.length - 1]? = some last :=
      ⟨_, List.getElem?_eq_getElem (by omega)⟩
    have hallows := (h.begins _ last hlast (by omega)).2 hrepeated
    rwa [Nat.zero_add, Nat.sub_add_cancel (by omega)] at hallows
  · exact allows_required hmax hrequired

theorem ending (h : Repetition repeated names bounds one count state runs after) :
    endsAfter repeated names bounds (count + runs.length) after.next? = true ∨
      ∃ last ∈ runs.getLast?, last.TakesNothing := by
  induction h with
  | ends hends => exact .inl hends
  | stops _ _ _ hsame => exact .inr ⟨_, rfl, hsame⟩
  | @goesOn count before _ _ _ rest _ _ _ _ ih =>
      rcases ih with hends | ⟨last, hlast, htakes⟩
      · rw [Nat.add_right_comm, Nat.add_assoc] at hends
        exact .inl hends
      · exact .inr ⟨last, by simp [List.getLast?_cons, Option.mem_def.mp hlast], htakes⟩

end Repetition

/-! ## Runs of groups -/

section

variable {one : Build} {names : List String} {bounds : Bounds} {tag : String} {repeated : Bool}
  {state after : BuildState} {forms : List Form}

/-- A repetition never uses up its fuel: there is some for each required instantiation, and
for each element ahead. -/
theorem repeatOver_eq_ok (hone : one.MakesOne fun _ => True) (hadvancing : one.Advancing)
    {fuel count : Nat}
    (hfuel : max (count + 1) (requiredCount bounds) + state.ahead.length ≤ count + fuel)
    (hrun : repeatOver repeated names bounds tag one fuel count state = .ok (forms, after)) :
    ∃ runs, Repetition repeated names bounds one count state runs after ∧
      forms = remarkedForms tag bounds.max count runs := by
  induction fuel generalizing count state forms with
  | zero => omega
  | succ fuel ih =>
      simp only [repeatOver] at hrun
      split at hrun
      · rename_i hends
        cases hrun
        exact ⟨[], .ends hends, rfl⟩
      rename_i hends
      rw [Bool.not_eq_true] at hends
      obtain ⟨before, middle, others, hbefore, hothers, rfl⟩ := Build.andThen_eq_ok.mp hrun
      obtain ⟨made, hmade, rfl⟩ := Build.mapForms_eq_ok.mp hbefore
      obtain ⟨form, rfl, -⟩ := hone _ _ _ hmade
      split at hothers
      · rename_i hstops
        cases hothers
        rw [Bool.and_eq_true, decide_eq_true_eq, decide_eq_true_eq] at hstops
        exact ⟨_, .stops hends hmade hstops.1 hstops.2, rfl⟩
      · rename_i hgoes
        have hle := (hadvancing _ _ _ hmade).ahead.length_le
        rw [Bool.and_eq_true, decide_eq_true_eq, decide_eq_true_eq, not_and] at hgoes
        obtain ⟨runs, hruns, rfl⟩ := ih (by omega) hothers
        exact ⟨_, .goesOn hends hmade hgoes hruns, rfl⟩

theorem instantiate_eq_ok_of_some {context : Context} {group : Particle}
    {compositor : Compositor} (hone : one.MakesOne fun _ => True) (hadvancing : one.Advancing)
    (hmax : bounds.max ≠ .count 0) (hcursor : state.cursor.isSome = true)
    (hrun : instantiate context group compositor bounds one state = .ok (forms, after)) :
    ∃ names runs, firstNames context.schema group = .ok names ∧
      Repetition context.repeated names bounds one 0 state runs after ∧
      forms = remarkedForms compositor.label bounds.max 0 runs := by
  simp only [instantiate, if_neg hmax] at hrun
  obtain ⟨cursor, hcursor⟩ := Option.isSome_iff_exists.mp hcursor
  simp only [hcursor] at hrun
  obtain ⟨names, hnames, hrepeat⟩ := Build.ofFault_eq_ok.mp hrun
  have hrequired : 1 ≤ requiredCount bounds := Nat.le_max_right _ _
  obtain ⟨runs, hruns, rfl⟩ := repeatOver_eq_ok hone hadvancing
    (by simp only [BuildState.ahead, hcursor]; omega) hrepeat
  exact ⟨names, runs, hnames, hruns, rfl⟩

end

theorem oneInstantiation_makesOne (level : Level) (context : Context) (compositor : Compositor)
    (members : List Particle) (node : Xml.Element) (bounds : Bounds) (path : String) :
    (oneInstantiation level context compositor members node bounds path).MakesOne
      fun form => form.label.options.mismatch? = none := by
  intro state forms after hrun
  obtain ⟨children, last, -, rfl, -⟩ := Build.grouped_eq_ok.mp hrun
  exact ⟨_, rfl, mismatch?_boundsOptions bounds⟩

theorem mismatch?_remarkWith {form : Form} (h : form.label.options.mismatch? = none)
    (error : Option Mismatch) :
    (remarkWith error form).label.options.mismatch? = error.map Mismatch.message := by
  cases error with
  | none => exact h
  | some error =>
      obtain ⟨label, children⟩ := form
      have hremark := mismatch?_remark label.options error.message
      rwa [show label.options.mismatch? = none from h] at hremark

theorem isSome_mismatch?_remarkedForms {tag : String} {max : MaxOccurs}
    {runs : List Instantiation}
    (hruns : ∀ run ∈ runs, run.form.label.options.mismatch? = none) {index : Nat} {form : Form}
    (h : (remarkedForms tag max 0 runs)[index]? = some form) :
    form.label.options.mismatch?.isSome = true ↔ max.allows (index + 1) = false := by
  simp only [remarkedForms, List.getElem?_map, List.getElem?_zipIdx, Option.map_map,
    Option.map_eq_some_iff, Function.comp] at h
  obtain ⟨run, hrun, rfl⟩ := h
  rw [mismatch?_remarkWith (hruns run (List.mem_of_getElem? hrun)), Option.isSome_map,
    ← Bool.not_eq_true, ← surplusError_eq_none, Nat.zero_add]
  exact Option.isSome_iff_ne_none

theorem Instantiations.ensures {one : Build} {kind : Form → Prop} (hone : one.MakesOne kind)
    {state after : BuildState} {runs : List Instantiation}
    (h : Instantiations one state runs after) : ∀ run ∈ runs, kind run.form := by
  induction h with
  | nil => simp
  | cons hfirst _ ih =>
      obtain ⟨form, hform, hkind⟩ := hone _ _ _ hfirst
      cases hform
      exact List.forall_mem_cons.mpr ⟨hkind, ih⟩

theorem Instantiations.advances {one : Build} (hadvancing : one.Advancing)
    {state after : BuildState} {runs : List Instantiation}
    (h : Instantiations one state runs after) : state.Advances after := by
  induction h with
  | nil => exact .refl _
  | cons hfirst _ ih => exact (hadvancing _ _ _ hfirst).trans ih

theorem Instantiations.run_of_mem {one : Build} {state after : BuildState}
    {runs : List Instantiation} (h : Instantiations one state runs after) :
    ∀ run ∈ runs, one run.before = .ok ([run.form], run.after) := by
  induction h with
  | nil => simp
  | cons hfirst _ ih => exact List.forall_mem_cons.mpr ⟨hfirst, ih⟩

/-! ## Groups -/

/-- A group was instantiated over an instance. It has the node of each instantiation, at
least the required ones, and beyond them at most as many as elements were taken. A node
carries a message if and only if it is past the maximum, and inside of a repeatable group
there is no such node. The instance has ended the instantiations, or the maximum has inside
of a repeatable group, or the last of them took nothing. -/
structure InstantiatedOver (one : Build) (tag : String) (repeated : Bool) (names : List String)
    (bounds : Bounds) (runs : List Instantiation) (taken : List Xml.Element) (state : BuildState)
    (forms : List Form) (after : BuildState) : Prop where
  follow : Instantiations one state runs after
  nodes : forms = remarkedForms tag bounds.max 0 runs
  takes : state.ahead = taken ++ after.ahead
  required : max bounds.min 1 ≤ forms.length
  bounded : forms.length ≤ max bounds.min 1 + taken.length
  remarked : ∀ index form, forms[index]? = some form →
    (form.label.options.mismatch?.isSome = true ↔
      ∃ limit, bounds.max = .count limit ∧ limit < index + 1)
  admitted : repeated = true → bounds.max.allows forms.length = true ∧
    ∀ form ∈ forms, form.label.options.mismatch? = none
  ended : (∀ element ∈ after.next?, element.name ∉ names) ∨
    (repeated = true ∧ bounds.max = .count forms.length) ∨
    ∃ last ∈ runs.getLast?, last.TakesNothing

theorem MaxOccurs.allows_eq_false {max : MaxOccurs} {count : Nat} :
    max.allows count = false ↔ ∃ limit, max = .count limit ∧ limit < count := by
  cases max <;> simp [allows]

theorem MaxOccurs.eq_count {max : MaxOccurs} {count : Nat} (h : max.allows count = true)
    (hmore : max.allows (count + 1) = false) : max = .count count := by
  obtain ⟨limit, rfl, hlimit⟩ := allows_eq_false.mp hmore
  rw [allows, decide_eq_true_eq] at h
  rw [Nat.le_antisymm h (Nat.le_of_lt_succ hlimit)]

theorem Repetition.instantiatedOver {repeated : Bool} {names : List String} {bounds : Bounds}
    {one : Build} {tag : String} {state after : BuildState} {runs : List Instantiation}
    (hone : one.MakesOne fun form => form.label.options.mismatch? = none)
    (hadvancing : one.Advancing) (hadvances : state.Advances after)
    (hmax : bounds.max ≠ .count 0)
    (h : Repetition repeated names bounds one 0 state runs after) :
    ∃ taken, InstantiatedOver one tag repeated names bounds runs taken state
      (remarkedForms tag bounds.max 0 runs) after := by
  have hlength := length_remarkedForms tag bounds.max 0 runs
  have hremarked : ∀ index form, (remarkedForms tag bounds.max 0 runs)[index]? = some form →
      (form.label.options.mismatch?.isSome = true ↔ bounds.max.allows (index + 1) = false) :=
    fun _ _ => isSome_mismatch?_remarkedForms (h.instantiations.ensures hone)
  obtain ⟨taken, htaken⟩ := hadvances.ahead
  have hrequired := h.required_le
  have hbounded := h.length_le hadvancing
  rw [← htaken, List.length_append] at hbounded
  refine ⟨taken, h.instantiations, rfl, htaken.symm, ?_, ?_, ?_, ?_, ?_⟩
  · rw [hlength]
    simpa [requiredCount] using hrequired
  · rw [hlength]
    simp only [requiredCount] at hbounded
    omega
  · exact fun index form hform =>
      (hremarked index form hform).trans MaxOccurs.allows_eq_false
  · intro hrepeated
    have hallows := h.allows_length hmax hrepeated
    rw [hlength]
    refine ⟨hallows, fun form hform => ?_⟩
    obtain ⟨index, hindex⟩ := List.mem_iff_getElem?.mp hform
    have hle : index + 1 ≤ runs.length :=
      hlength ▸ (List.getElem?_eq_some_iff.mp hindex).1
    rw [← Option.not_isSome_iff_eq_none, hremarked index form hindex,
      MaxOccurs.allows_of_le hle hallows]
    simp
  · rw [hlength]
    rcases h.ending with hends | hlast
    · rw [Nat.zero_add] at hends
      rcases (endsAfter_eq_true.mp hends).2 with hnext | ⟨hrepeated, hmore⟩
      · exact .inl hnext
      · exact .inr (.inl ⟨hrepeated,
          MaxOccurs.eq_count (h.allows_length hmax hrepeated) hmore⟩)
    · exact .inr (.inr hlast)

/-- The nodes of a group that was compiled: none if it never occurs, without an instance as
many as are required, and over one those of the instantiations. -/
theorem buildParticle_instantiates {depth atLeast : Nat} {context : Context}
    {compositor : Compositor} {node : Xml.Element} {bounds : Bounds} {path : String}
    {state after : BuildState} {forms : List Form}
    (hrun : buildParticle (levelBelow depth) context atLeast (.group compositor node bounds) path
      state = .ok (forms, after)) :
    (bounds.max = .count 0 → forms = [] ∧ after = state) ∧
    (bounds.max ≠ .count 0 → state.cursor = none → forms.length = max bounds.min 1) ∧
    (bounds.max ≠ .count 0 → state.cursor.isSome = true →
      ∃ level members names runs taken, level ∈ levelBelow depth ∧
        Particle.members context.schema node = .ok members ∧
        firstNames context.schema (.group compositor node bounds) = .ok names ∧
        InstantiatedOver (oneInstantiation level context compositor members node bounds path)
          compositor.label context.repeated names bounds runs taken state forms after) := by
  obtain ⟨level, members, hlevel, -, hmembers, hrun⟩ := buildGroup_eq_ok.mp hrun
  have hone := oneInstantiation_makesOne level context compositor members node bounds path
  have hadvancing :
      (oneInstantiation level context compositor members node bounds path).Advancing :=
    oneInstantiation_advancing (levelBelow_advancing depth level hlevel) compositor members node
      bounds
  refine ⟨fun hmax => ?_, fun hmax hcursor => ?_, fun hmax hcursor => ?_⟩
  · simp only [instantiate, if_pos hmax] at hrun
    cases hrun
    exact ⟨rfl, rfl⟩
  · simp only [instantiate, if_neg hmax, hcursor] at hrun
    exact (hone.replicate hrun).1
  · obtain ⟨names, runs, hnames, hruns, rfl⟩ := instantiate_eq_ok_of_some
      (hone.mono fun _ _ => trivial) hadvancing hmax hcursor hrun
    obtain ⟨taken, hover⟩ := hruns.instantiatedOver hone hadvancing
      (instantiate_advancing hadvancing _ _ _ hrun) hmax
    exact ⟨level, members, names, runs, taken, hlevel, hmembers, hnames, hover⟩

def poemDocument : Xml.Document :=
  .ofRoots (.plain "schema" [] [
    .plain "element" [("name", "poem")] [
      .plain "complexType" [] [
        .plain "sequence" [("minOccurs", "2"), ("maxOccurs", "3")] [
          .plain "element" [("name", "line")] [],
          .plain "element" [("name", "refrain"), ("minOccurs", "0")] []]]]]) []

def fourLines : Xml.Document :=
  .ofRoots (.plain "poem" [] [
    .plain "line" [] [], .plain "refrain" [] [], .plain "line" [] [], .plain "line" [] [],
    .plain "line" [] []]) []

theorem fourLines_instantiated :
    ∃ forms after,
      buildParticle (levelBelow 4) (.start (Schema.given poemDocument) .default) 0
        (.group .sequence (poemDocument.node 3) ⟨2, .count 3, rfl⟩) "/poem[1]"
        (.start (some fourLines.root)) = .ok (forms, after) ∧
      forms.map (·.label.options.mismatch?) =
        [none, none, none, some "occurrence 4 of <sequence> exceeds maxOccurs 3"] ∧
      ∃ level members names runs taken, level ∈ levelBelow 4 ∧
        Particle.members (Schema.given poemDocument) (poemDocument.node 3) = .ok members ∧
        firstNames (Schema.given poemDocument)
          (.group .sequence (poemDocument.node 3) ⟨2, .count 3, rfl⟩) = .ok names ∧
        InstantiatedOver (oneInstantiation level
            (.start (Schema.given poemDocument) .default) .sequence members (poemDocument.node 3)
            ⟨2, .count 3, rfl⟩ "/poem[1]") "sequence" false names ⟨2, .count 3, rfl⟩ runs taken
          (.start (some fourLines.root)) forms after := by
  have hbuilds : (buildParticle (levelBelow 4) (.start (Schema.given poemDocument) .default) 0
      (.group .sequence (poemDocument.node 3) ⟨2, .count 3, rfl⟩) "/poem[1]"
      (.start (some fourLines.root))).toOption.any (fun made =>
        made.1.map (·.label.options.mismatch?) ==
          [none, none, none, some "occurrence 4 of <sequence> exceeds maxOccurs 3"]) = true := by
    decide +kernel
  obtain ⟨⟨forms, after⟩, hrun, hremarks⟩ := exists_of_checked hbuilds
  exact ⟨forms, after, hrun, by simpa using hremarks,
    (buildParticle_instantiates hrun).2.2 (by decide) rfl⟩

end SchemaForms
