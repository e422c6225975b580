import SchemaForms.Compile.Creation
import SchemaForms.Proofs.Arenas

/-!
# Creations that follow builds

A creation follows a build if it ends in the same way wherever it starts: its
workspace then has the nodes of the forms that the build has made behind the
others, and what it hands upwards are their numbers. Where the build fails, the
creation fails with the same error and leaves the nodes of the finished forms.
-/

namespace SchemaForms

def tally : List String → Text.Dictionary Nat
  | [] => .empty
  | step :: rest => (tally rest).insert step (((tally rest).get? step).getD 0 + 1)

theorem getD_get?_tally (steps : List String) (name : String) :
    ((tally steps).get? name).getD 0 = steps.count name := by
  induction steps with
  | nil => rfl
  | cons step rest ih =>
      rw [tally]
      by_cases hsame : name = step
      · subst hsame
        rw [Text.Dictionary.get?_insert_self, List.count_cons_self, Option.getD_some, ih]
      · rw [Text.Dictionary.get?_insert_of_ne _ hsame, ih, List.count_cons_of_ne (Ne.symm hsame)]

/-! ## Actions -/

namespace Action

variable {α β : Type} {workspace after : Workspace}

theorem bind_of_ok {action : Action α} {value : α} (h : action workspace = (.ok value, after))
    (next : α → Action β) : (action >>= next) workspace = next value after := by
  simp only [bind, h]

theorem bind_of_error {action : Action α} {error : Diagnostic}
    (h : action workspace = (.error error, after)) (next : α → Action β) :
    (action >>= next) workspace = (.error error, after) := by
  simp only [bind, h]

theorem demand_of_ok {answer : Workspace → Except SchemaFault α} {value : α}
    (h : answer workspace = .ok value) : demand answer workspace = (.ok value, workspace) := by
  simp only [demand, h]

theorem demand_of_error {answer : Workspace → Except SchemaFault α} {fault : SchemaFault}
    (h : answer workspace = .error fault) :
    demand answer workspace = (.error (.ofFault fault), workspace) := by
  simp only [demand, h]

theorem located_of_ok {action : Action α} {value : α} (h : action workspace = (.ok value, after))
    (path : String) : action.located path workspace = (.ok value, after) := by
  simp only [located, h]

theorem located_of_error {action : Action α} {error : Diagnostic}
    (h : action workspace = (.error error, after)) (path : String) :
    action.located path workspace = (.error (error.located path), after) := by
  simp only [located, h]

theorem forEach_relabel (change : FormLabel → FormLabel) (ids : List FormId)
    (workspace : Workspace) :
    forEach (relabel change) ids workspace = (.ok (),
      { workspace with
        arena := ids.foldl (fun arena id => arena.relabel id change) workspace.arena }) := by
  induction ids generalizing workspace with
  | nil => rfl
  | cons id rest ih => exact ih _

end Action

def Context.workspace (context : Context) (arena : Arena)
    (positions : List (Text.Dictionary Nat)) : Workspace :=
  ⟨context.schema, context.settings, arena, context.enclosing, positions⟩

section

variable (context : Context) (arena : Arena) (positions : List (Text.Dictionary Nat))

theorem Action.forEach_insertAll (change : FormLabel → FormLabel) (forms : List Form) :
    forEach (relabel change) (arena.insertAll forms).2
        (context.workspace (arena.insertAll forms).1 positions) =
      (.ok (), context.workspace (arena.insertAll (forms.map (·.mapLabel change))).1
        positions) := by
  rw [forEach_relabel, Arena.insertAll_mapLabel]
  rfl

theorem Action.remark_insertAll (error : Option Mismatch) (forms : List Form) :
    remark (arena.insertAll forms).2 error
        (context.workspace (arena.insertAll forms).1 positions) =
      (.ok (), context.workspace (arena.insertAll (forms.map (remarkWith error))).1
        positions) := by
  cases error with
  | none =>
      have hsame : remarkWith none = id := rfl
      rw [hsame, List.map_id]
      rfl
  | some error => exact forEach_insertAll context arena positions _ forms

theorem insertAll_remarked (error : Option Mismatch) (forms : List Form) :
    (arena.insertAll (forms.map (remarkWith error))).2 = (arena.insertAll forms).2 := by
  cases error with
  | none =>
      have hsame : remarkWith none = id := rfl
      rw [hsame, List.map_id]
  | some error => exact Arena.snd_insertAll_mapLabel arena _ forms

end

/-! ## Following -/

def BuildState.walk (state : BuildState) (repetitions : Nat) : Option Walk :=
  state.cursor.map (Walk.mk · repetitions)

theorem walk_of_none {state : BuildState} (h : state.cursor = none) (repetitions : Nat) :
    state.walk repetitions = none := by
  rw [BuildState.walk, h]
  rfl

theorem walk_of_some {state : BuildState} {cursor : Cursor} (h : state.cursor = some cursor)
    (repetitions : Nat) : state.walk repetitions = some ⟨cursor, repetitions⟩ := by
  rw [BuildState.walk, h]
  rfl

theorem walk_start (occurrence : Option Xml.Element) :
    (BuildState.start occurrence).walk 0 = occurrence.map Walk.ofParent := by
  cases occurrence <;> rfl

theorem aheadOf_walk (state : BuildState) (repetitions : Nat) :
    Walk.aheadOf (state.walk repetitions) = state.ahead := by
  simp only [Walk.aheadOf, BuildState.walk, BuildState.ahead]
  cases state.cursor <;> rfl

theorem ahead_walk (state : BuildState) (repetitions : Nat) :
    BuildState.ahead ⟨[], (state.walk repetitions).map Walk.cursor⟩ = state.ahead := by
  simp only [BuildState.walk, BuildState.ahead]
  cases state.cursor <;> rfl

/-- The result of a creation that started in the arena and ends as the build did. -/
def Creation.Ends (context : Context) (arena : Arena) (outer : List (Text.Dictionary Nat))
    (repetitions : Nat) (result : Except Diagnostic (List FormId × Option Walk) × Workspace) :
    Except Failure (List Form × BuildState) → Prop
  | .ok (forms, after) =>
      result = (.ok ((arena.insertAll forms).2, after.walk repetitions),
        context.workspace (arena.insertAll forms).1 (tally after.steps :: outer))
  | .error failure => ∃ counts,
      result = (.error failure.error,
        context.workspace (arena.insertAll failure.finished).1 (counts :: outer))

theorem Creation.Ends.congr {context : Context} {arena : Arena}
    {outer : List (Text.Dictionary Nat)} {repetitions : Nat}
    {result other : Except Diagnostic (List FormId × Option Walk) × Workspace}
    {built : Except Failure (List Form × BuildState)}
    (h : Ends context arena outer repetitions result built) (hsame : other = result) :
    Ends context arena outer repetitions other built := hsame ▸ h

def Creation.Follows (creation : Creation) (context : Context) (build : Build) : Prop :=
  ∀ arena outer repetitions state, context.repeated = decide (0 < repetitions) →
    Ends context arena outer repetitions
      (creation (state.walk repetitions) (context.workspace arena (tally state.steps :: outer)))
      (build state)

namespace Creation

section

variable {context : Context} {creation more : Creation} {build rest : Build}

theorem Follows.ok (h : creation.Follows context build) (arena : Arena)
    (outer : List (Text.Dictionary Nat)) (repetitions : Nat) {state after : BuildState}
    {forms : List Form} (hrepeated : context.repeated = decide (0 < repetitions))
    (hrun : build state = .ok (forms, after)) :
    creation (state.walk repetitions) (context.workspace arena (tally state.steps :: outer)) =
      (.ok ((arena.insertAll forms).2, after.walk repetitions),
        context.workspace (arena.insertAll forms).1 (tally after.steps :: outer)) := by
  have hfollows := h arena outer repetitions state hrepeated
  rwa [hrun] at hfollows

theorem Follows.error (h : creation.Follows context build) (arena : Arena)
    (outer : List (Text.Dictionary Nat)) (repetitions : Nat) {state : BuildState}
    {failure : Failure} (hrepeated : context.repeated = decide (0 < repetitions))
    (hrun : build state = .error failure) :
    ∃ counts,
      creation (state.walk repetitions) (context.workspace arena (tally state.steps :: outer)) =
        (.error failure.error,
          context.workspace (arena.insertAll failure.finished).1 (counts :: outer)) := by
  have hfollows := h arena outer repetitions state hrepeated
  rwa [hrun] at hfollows

theorem follows_nothing : nothing.Follows context .nothing :=
  fun _ _ _ _ _ => rfl

theorem follows_fail (error : Diagnostic) :
    Follows (fun _ => .fail error) context (.fail error) :=
  fun _ _ _ state _ => ⟨tally state.steps, rfl⟩

theorem Follows.andThen (hfirst : creation.Follows context build)
    (hrest : more.Follows context rest) :
    (creation.andThen more).Follows context (build.andThen rest) := by
  intro arena outer repetitions state hrepeated
  simp only [Build.andThen]
  cases hrun : build state with
  | error failure =>
      obtain ⟨counts, hcreation⟩ := hfirst.error arena outer _ hrepeated hrun
      exact ⟨counts, Action.bind_of_error hcreation _⟩
  | ok result =>
      obtain ⟨forms, middle⟩ := result
      simp only
      cases hlast : rest middle with
      | error failure =>
          obtain ⟨counts, hmore⟩ := hrest.error _ outer _ hrepeated hlast
          refine ⟨counts, (Action.bind_of_ok (hfirst.ok arena outer _ hrepeated hrun) _).trans
            ((Action.bind_of_error hmore _).trans ?_)⟩
          rw [Arena.insertAll_append]
      | ok result =>
          obtain ⟨others, after⟩ := result
          simp only
          refine (Action.bind_of_ok (hfirst.ok arena outer _ hrepeated hrun) _).trans
            ((Action.bind_of_ok (hrest.ok _ outer _ hrepeated hlast) _).trans ?_)
          rw [Arena.insertAll_append]
          rfl

theorem follows_all {ι : Type} {items : List ι} {creation : ι → Creation} {build : ι → Build}
    (h : ∀ item ∈ items, (creation item).Follows context (build item)) :
    (all (items.map creation)).Follows context (.all (items.map build)) := by
  induction items with
  | nil => exact follows_nothing
  | cons item rest ih =>
      rw [List.forall_mem_cons] at h
      exact h.1.andThen (ih h.2)

theorem follows_replicate (h : creation.Follows context build) (count : Nat) :
    (all (List.replicate count creation)).Follows context (.all (List.replicate count build)) := by
  induction count with
  | zero => exact follows_nothing
  | succ count ih => exact h.andThen ih

theorem ends_demand {α : Type} {answer : Workspace → Except SchemaFault α}
    {outcome : Except SchemaFault α} {arena : Arena} {outer : List (Text.Dictionary Nat)}
    {counts : Text.Dictionary Nat} {repetitions : Nat} {state : BuildState}
    (hanswer : answer (context.workspace arena (counts :: outer)) = outcome)
    {next : α → Action (List FormId × Option Walk)} {build : α → Build}
    (hnext : ∀ value, outcome = .ok value → Ends context arena outer repetitions
      (next value (context.workspace arena (counts :: outer))) (build value state)) :
    Ends context arena outer repetitions
      ((Action.demand answer >>= next) (context.workspace arena (counts :: outer)))
      (Build.ofFault outcome build state) := by
  cases outcome with
  | error fault => exact ⟨counts, Action.bind_of_error (Action.demand_of_error hanswer) _⟩
  | ok value => exact (hnext value rfl).congr (Action.bind_of_ok (Action.demand_of_ok hanswer) _)

theorem follows_demand {α : Type} {answer : Workspace → Except SchemaFault α}
    {outcome : Except SchemaFault α}
    (hanswer : ∀ arena positions, answer (context.workspace arena positions) = outcome)
    {next : α → Creation} {build : α → Build}
    (hnext : ∀ value, outcome = .ok value → (next value).Follows context (build value)) :
    Follows (fun walk => Action.demand answer >>= fun value => next value walk) context
      (.ofFault outcome build) :=
  fun _ _ _ _ hrepeated => ends_demand (hanswer _ _) fun value hvalue =>
    hnext value hvalue _ _ _ _ hrepeated

end

/-! ## Actions as creations -/

section

variable {action : Action (List FormId)} {walk last : Option Walk} {workspace after : Workspace}

theorem ofAction_eq_ok {ids : List FormId} :
    ofAction action walk workspace = (.ok (ids, last), after) ↔
      action workspace = (.ok ids, after) ∧ walk = last := by
  simp only [ofAction, bind, pure]
  generalize action workspace = result
  obtain ⟨outcome, after⟩ := result
  cases outcome <;> simp [and_right_comm]

theorem ofAction_eq_error {error : Diagnostic} :
    ofAction action walk workspace = (.error error, after) ↔
      action workspace = (.error error, after) := by
  simp only [ofAction, bind, pure]
  generalize action workspace = result
  obtain ⟨outcome, after⟩ := result
  cases outcome <;> simp

end

theorem ofAction_gather (actions : List (Action (List FormId))) :
    ofAction (.gather actions) = all (actions.map ofAction) := by
  induction actions with
  | nil => rfl
  | cons action rest ih =>
      rw [List.map_cons, all, ← ih]
      funext walk workspace
      simp only [ofAction, andThen, Action.gather, bind, pure]
      cases action workspace with
      | mk outcome middle =>
          cases outcome with
          | error error => rfl
          | ok ids =>
              simp only
              cases Action.gather rest middle with
              | mk outcome after => cases outcome <;> rfl

theorem ofAction_bind {α : Type} (action : Action α) (next : α → Action (List FormId)) :
    ofAction (action >>= next) =
      fun walk => action >>= fun value => ofAction (next value) walk := by
  funext walk workspace
  simp only [ofAction, bind, pure]
  cases action workspace with
  | mk outcome after => cases outcome <;> rfl

theorem ofAction_andThen (first second : Action (List FormId)) :
    (ofAction first).andThen (ofAction second) = fun walk => do
      let ids ← first
      let more ← second
      return (ids ++ more, walk) := by
  funext walk workspace
  simp only [ofAction, andThen, bind, pure]
  generalize first workspace = result
  obtain ⟨outcome, middle⟩ := result
  cases outcome with
  | error error => rfl
  | ok ids =>
      simp only
      generalize second middle = result
      obtain ⟨outcome, after⟩ := result
      cases outcome <;> rfl

theorem Follows.remarked {context : Context} {action : Action (List FormId)} {build : Build}
    (h : (ofAction action).Follows context build) (error : Option Mismatch) :
    (ofAction do
      let ids ← action
      Action.remark ids error
      return ids).Follows context (build.mapForms (remarkWith error)) := by
  intro arena outer repetitions state hrepeated
  simp only [Build.mapForms]
  cases hrun : build state with
  | error failure =>
      obtain ⟨counts, hcreated⟩ := h.error arena outer _ hrepeated hrun
      rw [ofAction_eq_error] at hcreated
      exact ⟨counts, ofAction_eq_error.mpr (Action.bind_of_error hcreated _)⟩
  | ok result =>
      obtain ⟨forms, after⟩ := result
      obtain ⟨hcreated, hwalk⟩ := ofAction_eq_ok.mp (h.ok arena outer _ hrepeated hrun)
      refine ofAction_eq_ok.mpr ⟨(Action.bind_of_ok hcreated _).trans
        ((Action.bind_of_ok (Action.remark_insertAll context arena _ error forms) _).trans ?_),
        hwalk⟩
      rw [insertAll_remarked]
      rfl

theorem ofAction_guarded (definition : Xml.Element) (editing : Bool)
    (action : Action (List FormId)) :
    ofAction (.guarded definition editing action) =
      fun walk => .guarded definition editing (ofAction action walk) := by
  funext walk workspace
  simp only [ofAction, Action.guarded, bind, pure]
  by_cases hcircular : (!editing && workspace.isInProgress definition) = true
  · simp only [if_pos hcircular]
  by_cases hdeep : workspace.settings.maxDepth ≤ workspace.inProgress.length
  · simp only [if_neg hcircular, if_pos hdeep]
  · simp only [if_neg hcircular, if_neg hdeep]
    generalize action _ = result
    obtain ⟨outcome, after⟩ := result
    cases outcome <;> rfl

end Creation

end SchemaForms
