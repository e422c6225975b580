import SchemaForms.Proofs.Advance
import SchemaForms.Proofs.Creations

/-!
# What is created for a particle

Every creation follows the build for the same particle. This is shown for one
definition more from what holds inside of it, and then by induction on the
definitions that are left to enter.
-/

namespace SchemaForms

structure Interior.Follows (inside : Interior) (context : Context) (level : Level) : Prop where
  particle : ∀ atLeast particle path,
    (inside.particle atLeast particle path).Follows context
      (level.particle context atLeast particle path)
  attributeEntry : ∀ item path occurrence,
    (Creation.ofAction (inside.attributeEntry item path occurrence)).Follows context
      (level.attributeEntry context item path occurrence)

/-- There is a level to enter as long as the stack is short of the depth limit. -/
def Interior.Enters (inside : Interior) (context : Context) : Option Level → Prop
  | none => context.settings.maxDepth ≤ context.enclosing.length
  | some level =>
      context.enclosing.length < context.settings.maxDepth ∧
        ∀ definition repeated,
          inside.Follows { context.inside definition with repeated := repeated } level

section

variable {inside : Interior} {context : Context} {deeper : Option Level}

/-! ## Definitions -/

section

variable {α : Type} {definition : Xml.Element} {editing : Bool} {arena final : Arena}
  {positions others : List (Text.Dictionary Nat)}

theorem Interior.Enters.guarded_error (h : inside.Enters context deeper) {fault : SchemaFault}
    (henter : context.enter deeper definition editing = .error fault) (action : Action α) :
    Action.guarded definition editing action (context.workspace arena positions) =
      (.error (.ofFault fault), context.workspace arena positions) := by
  simp only [Context.enter] at henter
  split at henter
  · rename_i hcircular
    cases henter
    exact if_pos hcircular
  · rename_i hfree
    cases deeper with
    | none =>
        cases henter
        exact (if_neg hfree).trans (if_pos h)
    | some level => cases henter

theorem Interior.Enters.guarded_ok (h : inside.Enters context deeper) {inner : Context}
    {level : Level} (henter : context.enter deeper definition editing = .ok (inner, level))
    {action : Action α} {outcome : Except Diagnostic α}
    (hrun : action (inner.workspace arena positions) = (outcome, inner.workspace final others)) :
    Action.guarded definition editing action (context.workspace arena positions) =
      (outcome, context.workspace final others) := by
  simp only [Context.enter] at henter
  split at henter
  · cases henter
  · rename_i hfree
    cases deeper with
    | none => cases henter
    | some below =>
        cases henter
        refine ((if_neg hfree).trans (if_neg (Nat.not_le_of_lt h.1))).trans ?_
        exact congrArg (fun result =>
          (result.1, { result.2 with inProgress := result.2.inProgress.tail })) hrun

end

theorem Interior.Enters.follows_guarded (h : inside.Enters context deeper)
    {definition : Xml.Element} {editing : Option Walk → Bool} (edits : BuildState → Bool)
    (hediting : ∀ state repetitions, editing (BuildState.walk state repetitions) = edits state)
    {creation : Creation} {build : Context × Level → Build}
    (hinside : ∀ level, deeper = some level →
      creation.Follows (context.inside definition) (build (context.inside definition, level))) :
    Creation.Follows (fun walk => .guarded definition (editing walk) (creation walk)) context
      (fun state => Build.ofFault (context.enter deeper definition (edits state)) build state) := by
  intro arena outer repetitions state hrepeated
  simp only [hediting]
  cases henter : context.enter deeper definition (edits state) with
  | error fault => exact ⟨tally state.steps, h.guarded_error henter _⟩
  | ok entered =>
      obtain ⟨inner, level⟩ := entered
      obtain ⟨-, hlevel, rfl⟩ := Context.enter_eq_ok.mp henter
      have hcreation := hinside level hlevel
      simp only [Build.ofFault]
      cases hrun : build (context.inside definition, level) state with
      | error failure =>
          obtain ⟨counts, hcreated⟩ := hcreation.error arena outer _ hrepeated hrun
          exact ⟨counts, h.guarded_ok henter hcreated⟩
      | ok result =>
          obtain ⟨forms, after⟩ := result
          exact h.guarded_ok henter (hcreation.ok arena outer _ hrepeated hrun)

theorem Interior.Enters.below {level : Level} (h : inside.Enters context (some level))
    (definition : Xml.Element) : inside.Follows (context.inside definition) level :=
  h.2 definition context.repeated

/-! ## Attributes -/

theorem follows_createAttribute (context : Context) (use : Xml.Element) (path : String)
    (occurrence : Option Xml.Element) :
    (Creation.ofAction (createAttribute use path occurrence)).Follows context
      (buildAttribute context use path occurrence) := by
  simp only [createAttribute, buildAttribute]
  split
  · exact Creation.follows_nothing
  · rw [Creation.ofAction_bind]
    refine Creation.follows_demand (fun _ _ => rfl) ?_
    rintro ⟨declaration, name⟩ -
    exact fun _ _ _ _ _ => rfl

theorem Interior.Enters.createAttributeEntry (h : inside.Enters context deeper)
    (item : Xml.Element) (path : String) (occurrence : Option Xml.Element) :
    (Creation.ofAction (SchemaForms.createAttributeEntry inside item path occurrence)).Follows
      context (buildAttributeEntry deeper context item path occurrence) := by
  by_cases hattribute : item.name = "attribute"
  · rw [buildAttributeEntry_of_attribute hattribute]
    simp only [SchemaForms.createAttributeEntry, hattribute]
    exact follows_createAttribute context item path occurrence
  by_cases hgroup : item.name = "attributeGroup"
  · rw [buildAttributeEntry_of_group hgroup]
    simp only [SchemaForms.createAttributeEntry, hgroup, Creation.ofAction_bind]
    refine Creation.follows_demand (fun _ _ => rfl) fun definition _ => ?_
    simp only [Creation.ofAction_guarded, Creation.ofAction_gather, List.map_map]
    refine h.follows_guarded (fun _ => false) (fun _ _ => rfl) ?_
    rintro level rfl
    exact Creation.follows_all fun child _ =>
      (h.below definition).attributeEntry child path occurrence
  · rw [buildAttributeEntry_of_other hattribute hgroup]
    unfold SchemaForms.createAttributeEntry
    split <;> first | contradiction | exact Creation.follows_nothing

/-! ## Elements -/

theorem Interior.Follows.createItem {level : Level} (h : inside.Follows context level)
    (item : Xml.Element) (path : String) (occurrence : Option Xml.Element) :
    (SchemaForms.createItem inside item path occurrence).Follows context
      (buildItem level context item path occurrence) := by
  by_cases hmodel : item.name ∈ modelItems
  · have hcreated : SchemaForms.createItem inside item path occurrence = fun walk =>
        Action.demand (fun workspace => Particle.ofElement? workspace.schema item) >>= fun found =>
          found.elim (pure ([], walk)) fun particle => inside.particle 0 particle path walk := by
      unfold SchemaForms.createItem
      split <;> first
        | exact funext fun walk => congrArg _ (funext fun found => by cases found <;> rfl)
        | simp_all [modelItems]
    rw [hcreated, buildItem_of_model hmodel]
    refine Creation.follows_demand (fun _ _ => rfl) ?_
    rintro (_ | particle) -
    · exact Creation.follows_nothing
    · exact h.particle 0 particle path
  rcases item_cases hmodel with hattribute | hsimple | hignored | hunsupported
  · rw [buildItem_of_attribute hattribute]
    rcases hattribute with hname | hname <;> simp only [SchemaForms.createItem, hname] <;>
      exact h.attributeEntry item path occurrence
  · rw [buildItem_of_simpleContent hsimple, buildSimpleContent]
    simp only [SchemaForms.createItem, hsimple, Creation.ofAction_gather, ← List.map_flatMap,
      List.map_map]
    exact Creation.follows_all fun child _ => h.attributeEntry child path occurrence
  · rw [buildItem_of_ignored hignored]
    rcases hignored with hname | hname <;> simp only [SchemaForms.createItem, hname] <;>
      exact Creation.follows_nothing
  · rw [buildItem_of_unsupported hunsupported]
    simp only [supportedItems, modelItems, List.cons_append, List.nil_append, List.mem_cons,
      List.not_mem_nil, or_false, not_or] at hunsupported
    unfold SchemaForms.createItem
    split <;> simp_all [Creation.follows_fail]

def Action.Delivers (action : Action CreatedContent) (context : Context)
    (built : Except Failure ComplexContent) : Prop :=
  ∀ arena positions,
    match built with
    | .ok content =>
        action (context.workspace arena positions) =
          (.ok ⟨content.value, (arena.insertAll content.children).2, content.mismatch⟩,
            context.workspace (arena.insertAll content.children).1 positions)
    | .error failure =>
        action (context.workspace arena positions) =
          (.error failure.error,
            context.workspace (arena.insertAll failure.finished).1 positions)

theorem Action.inContent_eq {α : Type} {action : Action α} {outcome : Except Diagnostic α}
    {arena final : Arena} (counts : Text.Dictionary Nat)
    {positions : List (Text.Dictionary Nat)}
    (h : action (context.workspace arena (.empty :: positions)) =
      (outcome, context.workspace final (counts :: positions))) :
    inContent action (context.workspace arena positions) =
      (outcome, context.workspace final positions) :=
  congrArg (fun result =>
    (result.1, { result.2 with positions := result.2.positions.tail })) h

theorem contentValue_of_ahead_eq {state other : BuildState} (h : state.ahead = other.ahead)
    (definition : Xml.Element) (occurrence : Option Xml.Element) :
    contentValue definition state occurrence = contentValue definition other occurrence := by
  cases occurrence with
  | none => rfl
  | some occurrence => simp only [contentValue, h]

theorem Interior.Enters.createComplexContent (h : inside.Enters context deeper)
    (definition : Xml.Element) (path : String) (occurrence : Option Xml.Element) :
    (SchemaForms.createComplexContent inside definition path occurrence).Delivers context
      (complexContent deeper context definition path occurrence) := by
  intro arena positions
  simp only [complexContent]
  cases henter : context.enter deeper definition occurrence.isSome with
  | error fault => exact h.guarded_error henter _
  | ok entered =>
      obtain ⟨inner, level⟩ := entered
      obtain ⟨-, hlevel, rfl⟩ := Context.enter_eq_ok.mp henter
      obtain rfl : deeper = some level := hlevel
      have hitems := Creation.follows_all fun item (_ : item ∈ definition.elements) =>
        (h.2 definition false).createItem item path occurrence
      simp only [buildItems]
      cases hrun : Build.all (definition.elements.map fun item => buildItem level
          { context.inside definition with repeated := false } item path occurrence)
          (.start occurrence) with
      | error failure =>
          obtain ⟨counts, hcreated⟩ := hitems.error arena positions 0 rfl hrun
          rw [walk_start] at hcreated
          exact h.guarded_ok henter (Action.inContent_eq _ (Action.bind_of_error hcreated _))
      | ok result =>
          obtain ⟨children, after⟩ := result
          have hcreated := hitems.ok arena positions 0 rfl hrun
          rw [walk_start] at hcreated
          refine h.guarded_ok henter (Action.inContent_eq (tally after.steps)
            ((Action.bind_of_ok hcreated _).trans ?_))
          have hvalue := contentValue_of_ahead_eq (ahead_walk after 0) definition occurrence
          simp only [hvalue]
          rfl

theorem Interior.Enters.createContent (h : inside.Enters context deeper)
    (declaration : Declaration) (path : String) (occurrence : Option Xml.Element) :
    (SchemaForms.createContent inside declaration path occurrence).Delivers context
      (elementContent deeper context declaration path occurrence) := by
  simp only [SchemaForms.createContent, elementContent]
  cases declaration.content with
  | complex definition => exact h.createComplexContent definition path occurrence
  | simple =>
      intro arena positions
      cases occurrence with
      | none => rfl
      | some occurrence =>
          simp only [simpleContent]
          cases simpleText occurrence <;> rfl

theorem Action.takePlace_eq (context : Context) (steps : List String)
    (outer : List (Text.Dictionary Nat)) (arena : Arena) (name : String) :
    takePlace name (context.workspace arena (tally steps :: outer)) =
      (.ok (steps.count name + 1), context.workspace arena (tally (name :: steps) :: outer)) := by
  rw [← getD_get?_tally]
  rfl

theorem createOccurrence_node (declaration : Declaration) (bounds : Bounds) (path : String)
    (occurrence : Option Xml.Element) (content : ComplexContent) (arena : Arena)
    (positions : List (Text.Dictionary Nat)) :
    (do
      let label := (elementForm declaration bounds path occurrence ⟨content.value, [], none⟩).label
      let id ← Action.create { label with space := none } (arena.insertAll content.children).2
      Action.relabel (fun label => { label with space := declaration.space }) id
      Action.remark [id] content.mismatch
      return [id] : Action (List FormId))
        (context.workspace (arena.insertAll content.children).1 positions) =
      (.ok (arena.insertAll [elementForm declaration bounds path occurrence content]).2,
        context.workspace
          (arena.insertAll [elementForm declaration bounds path occurrence content]).1
          positions) := by
  let label := (elementForm declaration bounds path occurrence ⟨content.value, [], none⟩).label
  let ids := (arena.insertAll content.children).2
  have hspace := Arena.relabel_append_self (arena.insertAll content.children).1
    (fun label => { label with space := declaration.space }) { label with space := none } ids
  have hrelabel : Action.relabel (fun label => { label with space := declaration.space })
      ((arena.insertAll content.children).1.append ⟨label, ids⟩).2
      (context.workspace ((arena.insertAll content.children).1.append
        ⟨{ label with space := none }, ids⟩).1 positions) =
      (.ok (), context.workspace (arena.insertAll [.node label content.children]).1
        positions) :=
    congrArg (fun changed => (Except.ok (), context.workspace changed positions)) hspace
  have hremark := Action.remark_insertAll context arena positions content.mismatch
    [.node label content.children]
  refine (Action.bind_of_ok rfl _).trans ((Action.bind_of_ok hrelabel _).trans
    ((Action.bind_of_ok hremark _).trans ?_))
  exact congrArg (fun ids => (Except.ok ids, _))
    (insertAll_remarked arena content.mismatch [.node label content.children]).symm

theorem Interior.Enters.createOccurrence (h : inside.Enters context deeper)
    (declaration : Declaration) (bounds : Bounds) (path : String)
    (occurrence : Option Xml.Element) :
    (Creation.ofAction (SchemaForms.createOccurrence inside declaration bounds path
      occurrence)).Follows context
      (buildOccurrence deeper context declaration bounds path occurrence) := by
  intro arena outer repetitions state hrepeated
  let place := placePath path declaration.name (state.nextPlace declaration.name)
  have hplace := Action.takePlace_eq context state.steps outer arena declaration.name
  have hcontent := h.createContent declaration place occurrence
    arena (tally (declaration.name :: state.steps) :: outer)
  simp only [buildOccurrence]
  cases hbuilt : elementContent deeper context declaration place occurrence with
  | error failure =>
      rw [hbuilt] at hcontent
      exact ⟨tally (declaration.name :: state.steps), Action.bind_of_error
        ((Action.bind_of_ok hplace _).trans
          (Action.bind_of_error (Action.located_of_error hcontent place) _)) _⟩
  | ok content =>
      rw [hbuilt] at hcontent
      exact Action.bind_of_ok ((Action.bind_of_ok hplace _).trans
        ((Action.bind_of_ok (Action.located_of_ok hcontent place) _).trans
          (createOccurrence_node declaration bounds place occurrence content arena _))) _

theorem copiesInProgress_eq (context : Context) (declaration : Declaration) (bounds : Bounds)
    (atLeast : Nat) (arena : Arena) (positions : List (Text.Dictionary Nat)) :
    copiesInProgress declaration bounds atLeast (context.workspace arena positions) =
      copiesWithoutInstance context declaration bounds atLeast := by
  simp only [copiesInProgress, copiesWithoutInstance]
  cases declaration.content <;> rfl

theorem Interior.Enters.createCopies (h : inside.Enters context deeper)
    (declaration : Declaration) (bounds : Bounds) (path : String) (count : Nat) :
    (Creation.ofAction (.gather (List.replicate count
      (SchemaForms.createOccurrence inside declaration bounds path none)))).Follows context
      (buildCopies deeper context declaration bounds path count) := by
  rw [Creation.ofAction_gather, List.map_replicate]
  exact Creation.follows_replicate (h.createOccurrence declaration bounds path none) count

theorem Interior.Enters.createTaken (h : inside.Enters context deeper)
    (declaration : Declaration) (bounds : Bounds) (path : String) (taken : List Xml.Element) :
    (Creation.ofAction (.gather (taken.zipIdx.map fun (occurrence, index) => do
      let ids ← SchemaForms.createOccurrence inside declaration bounds path (some occurrence)
      Action.remark ids (surplusError declaration.name bounds.max (index + 1))
      return ids))).Follows context
      (buildTaken deeper context declaration bounds path taken) := by
  rw [Creation.ofAction_gather, List.map_map]
  exact Creation.follows_all fun item _ =>
    (h.createOccurrence declaration bounds path (some item.1)).remarked _

theorem Interior.Enters.createElement (h : inside.Enters context deeper)
    (particle : Xml.Element) (bounds : Bounds) (atLeast : Nat) (path : String) :
    (SchemaForms.createElement inside particle bounds atLeast path).Follows context
      (buildElement deeper context particle bounds atLeast path) := by
  intro arena outer repetitions state hrepeated
  simp only [buildElement]
  cases hdeclared : Declaration.ofParticle context.schema context.settings particle with
  | error fault =>
      have hdemand : Action.demand (fun workspace => Declaration.ofParticle workspace.schema
          workspace.settings particle) (context.workspace arena (tally state.steps :: outer)) =
          (.error (.ofFault fault), context.workspace arena (tally state.steps :: outer)) :=
        Action.demand_of_error hdeclared
      exact ⟨tally state.steps, Action.bind_of_error (Action.located_of_error hdemand path) _⟩
  | ok declaration =>
      have hdemand : Action.demand (fun workspace => Declaration.ofParticle workspace.schema
          workspace.settings particle) (context.workspace arena (tally state.steps :: outer)) =
          (.ok declaration, context.workspace arena (tally state.steps :: outer)) :=
        Action.demand_of_ok hdeclared
      refine Creation.Ends.congr ?_ (Action.bind_of_ok (Action.located_of_ok hdemand path) _)
      simp only [buildDeclared]
      cases hcursor : state.cursor with
      | none =>
          have hcopies := h.createCopies declaration bounds path
            (copiesWithoutInstance context declaration bounds (bounds.max.cap atLeast))
            arena outer repetitions state hrepeated
          rw [walk_of_none hcursor] at hcopies ⊢
          refine hcopies.congr (congrArg (fun count => Creation.ofAction
            (.gather (List.replicate count
              (SchemaForms.createOccurrence inside declaration bounds path none))) none _)
            (copiesInProgress_eq context declaration bounds _ arena _))
      | some cursor =>
          let limit := if Walk.isRepeated ⟨cursor, repetitions⟩ then bounds.max else .unbounded
          let taken := (cursor.takeRun declaration.name limit).1
          have hlimit : takingLimit context bounds = limit := by
            rw [takingLimit, hrepeated]
            rfl
          rw [walk_of_some hcursor, hlimit]
          have hboth := (h.createTaken declaration bounds path taken).andThen
            (h.createCopies declaration bounds path
              (max bounds.min (bounds.max.cap atLeast) - taken.length))
            arena outer repetitions
            { state with cursor := some (cursor.takeRun declaration.name limit).2 } hrepeated
          rw [Creation.ofAction_andThen] at hboth
          exact hboth

/-! ## Groups -/

theorem Interior.Follows.createAlternative {level : Level} (h : inside.Follows context level)
    (path : String) (matched selected : Option Nat) (alternative : Particle) (index : Nat) :
    (SchemaForms.createAlternative inside path matched selected alternative index).Follows context
      (buildAlternative level context path matched selected alternative index) := by
  intro arena outer repetitions state hrepeated
  have hparticle := h.particle 1 alternative path
  have hselect := Action.forEach_insertAll context arena
  simp only [SchemaForms.createAlternative, buildAlternative, Build.mapForms]
  by_cases hmatched : matched = some index
  · simp only [if_pos hmatched]
    cases hrun : level.particle context 1 alternative path state with
    | error failure =>
        obtain ⟨counts, hcreated⟩ := hparticle.error arena outer _ hrepeated hrun
        exact ⟨counts, Action.bind_of_error hcreated _⟩
    | ok result =>
        obtain ⟨forms, after⟩ := result
        refine (Action.bind_of_ok (hparticle.ok arena outer _ hrepeated hrun) _).trans
          ((Action.bind_of_ok (hselect _ _ forms) _).trans ?_)
        exact congrArg (fun ids => (Except.ok (ids, _), _))
          (Arena.snd_insertAll_mapLabel arena _ forms).symm
  · simp only [if_neg hmatched, Build.withoutInstance]
    cases hrun : level.particle context 1 alternative path { state with cursor := none } with
    | error failure =>
        obtain ⟨counts, hcreated⟩ := hparticle.error arena outer _ hrepeated hrun
        exact ⟨counts, Action.bind_of_error hcreated _⟩
    | ok result =>
        obtain ⟨forms, after⟩ := result
        refine (Action.bind_of_ok (hparticle.ok arena outer _ hrepeated hrun) _).trans
          ((Action.bind_of_ok (hselect _ _ forms) _).trans ?_)
        exact congrArg (fun ids => (Except.ok (ids, _), _))
          (Arena.snd_insertAll_mapLabel arena _ forms).symm

theorem Interior.Follows.createMembers {level : Level} (h : inside.Follows context level)
    (compositor : Compositor) (members : List Particle) (path : String) :
    (SchemaForms.createMembers inside compositor members path).Follows context
      (buildMembers level context compositor members path) := by
  cases compositor with
  | sequence => exact Creation.follows_all fun member _ => h.particle 0 member path
  | choice =>
      intro arena outer repetitions state hrepeated
      refine Creation.ends_demand ?_ fun matched _ => ?_
      · rw [aheadOf_walk, ← BuildState.next?_eq_head?]
        rfl
      · exact Creation.follows_all (fun item _ => h.createAlternative path matched _ item.1 item.2)
          arena outer repetitions state hrepeated

theorem Interior.Follows.createInstantiation {level : Level} (h : inside.Follows context level)
    (compositor : Compositor) (members : List Particle) (node : Xml.Element) (bounds : Bounds)
    (path : String) :
    (SchemaForms.createInstantiation inside compositor members node bounds path).Follows context
      ((buildMembers level context compositor members path).grouped compositor node bounds
        path) := by
  intro arena outer repetitions state hrepeated
  have hmembers := h.createMembers compositor members path
  simp only [Build.grouped]
  cases hrun : buildMembers level context compositor members path state with
  | error failure =>
      obtain ⟨counts, hcreated⟩ := hmembers.error arena outer _ hrepeated hrun
      exact ⟨counts, Action.bind_of_error hcreated _⟩
  | ok result =>
      obtain ⟨children, after⟩ := result
      exact (Action.bind_of_ok (hmembers.ok arena outer _ hrepeated hrun) _).trans
        (Action.bind_of_ok (Action.takePlace_eq _ after.steps outer _ compositor.step) _)

theorem map_enter_walk (state : BuildState) (repetitions : Nat) :
    (state.walk repetitions).map Walk.enter = state.walk (repetitions + 1) := by
  simp only [BuildState.walk]
  cases state.cursor <;> rfl

theorem map_leave_walk (state : BuildState) (repetitions : Nat) :
    (state.walk (repetitions + 1)).map Walk.leave = state.walk repetitions := by
  simp only [BuildState.walk]
  cases state.cursor <;> rfl

def repetitionsInside (bounds : Bounds) (repetitions : Nat) : Nat :=
  if bounds.repeats then repetitions + 1 else repetitions

section

variable (bounds : Bounds) (state : BuildState) (repetitions : Nat)

theorem enter_walk : (if bounds.repeats then (state.walk repetitions).map Walk.enter
    else state.walk repetitions) = state.walk (repetitionsInside bounds repetitions) := by
  rw [repetitionsInside]
  split
  · exact map_enter_walk state repetitions
  · rfl

theorem leave_walk : (if bounds.repeats then
    (state.walk (repetitionsInside bounds repetitions)).map Walk.leave
      else state.walk (repetitionsInside bounds repetitions)) = state.walk repetitions := by
  rw [repetitionsInside]
  split
  · exact map_leave_walk state repetitions
  · rfl

theorem repeated_inside (h : context.repeated = decide (0 < repetitions)) :
    (context.repeated || bounds.repeats) =
      decide (0 < repetitionsInside bounds repetitions) := by
  rw [h, repetitionsInside]
  split <;> simp [*]

end

theorem Creation.Follows.createRepetitions {one : Creation} {build : Build} {bounds : Bounds}
    (h : one.Follows { context with repeated := context.repeated || bounds.repeats } build)
    (names : List String) (tag : String) (fuel count : Nat) :
    (SchemaForms.createRepetitions context.repeated names bounds tag one fuel count).Follows
      context (repeatOver context.repeated names bounds tag build fuel count) := by
  induction fuel generalizing count with
  | zero => exact follows_nothing
  | succ fuel ih =>
      intro arena outer repetitions state hrepeated
      have hinside := repeated_inside bounds repetitions hrepeated
      simp only [SchemaForms.createRepetitions, repeatOver, aheadOf_walk,
        ← BuildState.next?_eq_head?, enter_walk]
      by_cases hends : endsAfter context.repeated names bounds count state.next?
      · simp only [if_pos hends]
        rfl
      simp only [if_neg hends, Build.andThen, Build.mapForms]
      cases hrun : build state with
      | error failure =>
          obtain ⟨counts, hcreated⟩ := h.error arena outer _ hinside hrun
          exact ⟨counts, Action.bind_of_error hcreated _⟩
      | ok result =>
          obtain ⟨forms, after⟩ := result
          have hremark := Action.remark_insertAll context arena (tally after.steps :: outer)
            (surplusError tag bounds.max (count + 1)) forms
          refine Ends.congr ?_ ((Action.bind_of_ok (h.ok arena outer _ hinside hrun) _).trans
            (Action.bind_of_ok hremark _))
          simp only [leave_walk, aheadOf_walk]
          have hids := insertAll_remarked arena (surplusError tag bounds.max (count + 1)) forms
          by_cases hstops : requiredCount bounds ≤ count + 1 &&
              after.ahead.length = state.ahead.length
          · simp only [if_pos hstops, List.append_nil]
            exact congrArg (fun ids => (Except.ok (ids, _), _)) hids.symm
          · simp only [if_neg hstops]
            cases hlast : repeatOver context.repeated names bounds tag build fuel (count + 1)
                after with
            | error failure =>
                obtain ⟨counts, hcreated⟩ := (ih (count + 1)).error _ outer _ hrepeated hlast
                refine ⟨counts, (Action.bind_of_error hcreated _).trans ?_⟩
                rw [Arena.insertAll_append]
            | ok result =>
                obtain ⟨more, last⟩ := result
                refine (Action.bind_of_ok ((ih (count + 1)).ok _ outer _ hrepeated hlast)
                  _).trans ?_
                rw [Arena.insertAll_append, hids]
                rfl

/-- Without a cursor a walk does not tell the number of repetitions, and so neither does the
walk that comes back. -/
theorem Creation.Follows.cursor_eq_none {creation : Creation} {build : Build}
    (h : creation.Follows context build) (hrepeated : context.repeated = true)
    {state after : BuildState} {forms : List Form} (hrun : build state = .ok (forms, after))
    (hcursor : state.cursor = none) : after.cursor = none := by
  have hone := h.ok .empty [] 1 hrepeated hrun
  have htwo := h.ok .empty [] 2 hrepeated hrun
  rw [walk_of_none hcursor] at hone htwo
  cases hafter : after.cursor with
  | none => rfl
  | some cursor =>
      have hsame := hone.symm.trans htwo
      simp [BuildState.walk, hafter] at hsame

theorem Creation.Follows.createInstantiations {one : Creation} {build : Build} {bounds : Bounds}
    (h : one.Follows { context with repeated := context.repeated || bounds.repeats } build)
    (group : Particle) (compositor : Compositor) :
    (SchemaForms.createInstantiations group compositor bounds one).Follows context
      (instantiate context group compositor bounds build) := by
  intro arena outer repetitions state hrepeated
  simp only [SchemaForms.createInstantiations, instantiate]
  by_cases hnone : bounds.max = .count 0
  · simp only [if_pos hnone]
    rfl
  simp only [if_neg hnone]
  cases hcursor : state.cursor with
  | none =>
      have hall := follows_replicate h (requiredCount bounds)
      have hinside := repeated_inside bounds repetitions hrepeated
      rw [walk_of_none hcursor]
      simp only
      cases hrun : Build.all (List.replicate (requiredCount bounds) build) state with
      | error failure =>
          obtain ⟨counts, hcreated⟩ := hall.error arena outer _ hinside hrun
          rw [walk_of_none hcursor] at hcreated
          exact ⟨counts, hcreated⟩
      | ok result =>
          obtain ⟨forms, after⟩ := result
          have hcreated := hall.ok arena outer _ hinside hrun
          have hafter : after.walk (repetitionsInside bounds repetitions) =
              after.walk repetitions := by
            by_cases hrepeats : bounds.repeats
            · have hlast := hall.cursor_eq_none (by simp [hrepeats]) hrun hcursor
              rw [walk_of_none hlast, walk_of_none hlast]
            · rw [repetitionsInside, if_neg hrepeats]
          rw [walk_of_none hcursor, hafter] at hcreated
          exact hcreated
  | some cursor =>
      have hwalk := walk_of_some hcursor repetitions
      simp only [hwalk]
      refine ends_demand rfl fun names _ => ?_
      have hrepetitions := h.createRepetitions names compositor.label
        (requiredCount bounds + cursor.ahead.length) 0 arena outer repetitions state hrepeated
      rw [hwalk, hrepeated] at hrepetitions
      rw [hrepeated]
      exact hrepetitions

theorem Interior.Enters.createGroup (h : inside.Enters context deeper) (compositor : Compositor)
    (node : Xml.Element) (bounds : Bounds) (path : String) :
    (SchemaForms.createGroup inside compositor node bounds path).Follows context
      (buildGroup deeper context compositor node bounds path) := by
  refine h.follows_guarded _ (fun state repetitions => ?_) ?_
  · rw [BuildState.walk, Option.isSome_map]
  rintro level rfl
  refine Creation.follows_demand (fun _ _ => rfl) fun members _ => ?_
  exact Creation.Follows.createInstantiations
    ((h.2 node _).createInstantiation compositor members node bounds path) _ compositor

/-! ## Particles -/

theorem Interior.Enters.createParticle (h : inside.Enters context deeper) (atLeast : Nat)
    (particle : Particle) (path : String) :
    (SchemaForms.createParticle inside atLeast particle path).Follows context
      (buildParticle deeper context atLeast particle path) := by
  cases particle with
  | element node bounds => exact h.createElement node bounds atLeast path
  | group compositor node bounds => exact h.createGroup compositor node bounds path
  | attributeUse node =>
      intro arena outer repetitions state hrepeated
      have hparent : (state.walk repetitions).map (fun walk => walk.cursor.parent) =
          state.cursor.map Cursor.parent := by
        rw [BuildState.walk, Option.map_map]
        rfl
      simp only [SchemaForms.createParticle, buildParticle, hparent]
      exact follows_createAttribute context node path _ arena outer repetitions state hrepeated

/-- The definitions that are left to enter and those in progress make up the depth limit. -/
theorem interiorBelow_enters (depth : Nat) (context : Context)
    (h : context.enclosing.length + depth = context.settings.maxDepth) :
    (interiorBelow depth).Enters context (levelBelow depth) := by
  induction depth generalizing context with
  | zero => exact Nat.le_of_eq h.symm
  | succ depth ih =>
      refine ⟨by omega, fun definition repeated => ?_⟩
      have hbelow := ih { context.inside definition with repeated := repeated } (by
        simp only [Context.inside, List.length_cons]
        omega)
      exact ⟨hbelow.createParticle, hbelow.createAttributeEntry⟩

end

end SchemaForms
