import SchemaForms.Proofs.Advance
import SchemaForms.Proofs.KeptNodes
import SchemaForms.Proofs.Locations

/-!
# The places of instance elements

A content numbers its nodes of one name in the order in which they are compiled, also the
copies that no element of the instance stands for: alternatives that were not taken, and
required elements that the instance lacks. So the path of a node that was compiled from an
element of the instance is the location of the element with the number in each step moved
on by the copies before it. It is the location itself exactly where no copy came before.
-/

namespace SchemaForms

/-! ## Nodes in the order of their places -/

structure Stamp where
  step : String
  path : String
  source : Option Xml.Element

namespace Form

def step (form : Form) : String := stepName form.label.kind form.label.tag

def stamp (form : Form) : Stamp := ⟨form.step, form.label.path, form.label.source⟩

mutual
def created : Form → List Form
  | .node label children =>
      match label.kind with
      | .element => [.node label children]
      | .attributeUse => []
      | .sequence | .choice => createdAll children ++ [.node label children]

def createdAll : List Form → List Form
  | [] => []
  | form :: rest => created form ++ createdAll rest
end

def stampsOf (forms : List Form) : List Stamp := (createdAll forms).map stamp

theorem created_of_element {form : Form} (h : form.label.kind = .element) :
    form.created = [form] := by
  obtain ⟨label, children⟩ := form
  simp only [Form.label] at h
  simp [created, h]

theorem createdAll_eq_flatMap (forms : List Form) :
    createdAll forms = forms.flatMap created := by
  induction forms with
  | nil => rfl
  | cons form rest ih => simp [createdAll, ih]

mutual
theorem mem_nodes_of_mem_created {form node : Form} (h : node ∈ form.created) :
    node ∈ form.nodes := by
  cases form with
  | node label children =>
      rw [created] at h
      split at h
      · exact List.mem_singleton.mp h ▸ mem_nodes_self _
      · cases h
      all_goals
        rcases List.mem_append.mp h with h | h
        · exact List.mem_cons_of_mem _ (mem_nodesOf_of_mem_createdAll h)
        · exact List.mem_singleton.mp h ▸ mem_nodes_self _

theorem mem_nodesOf_of_mem_createdAll {forms : List Form} {node : Form}
    (h : node ∈ createdAll forms) : node ∈ nodesOf forms := by
  cases forms with
  | nil => cases h
  | cons form rest =>
      rcases List.mem_append.mp h with h | h
      · exact List.mem_append_left _ (mem_nodes_of_mem_created h)
      · exact List.mem_append_right _ (mem_nodesOf_of_mem_createdAll h)
end

@[simp] theorem stampsOf_append (first second : List Form) :
    stampsOf (first ++ second) = stampsOf first ++ stampsOf second := by
  simp [stampsOf, createdAll_eq_flatMap]

theorem stampsOf_cons (form : Form) (rest : List Form) :
    stampsOf (form :: rest) = stampsOf [form] ++ stampsOf rest :=
  stampsOf_append [form] rest

theorem stampsOf_of_element {form : Form} (h : form.label.kind = .element) :
    stampsOf [form] = [form.stamp] := by
  simp [stampsOf, createdAll_eq_flatMap, created_of_element h]

theorem stampsOf_map_mapOptions (change : Options → Options) (forms : List Form) :
    stampsOf (forms.map (·.mapOptions change)) = stampsOf forms := by
  induction forms with
  | nil => rfl
  | cons form rest ih =>
      have hfirst : stampsOf [form.mapOptions change] = stampsOf [form] := by
        obtain ⟨label, children⟩ := form
        cases hkind : label.kind <;>
          simp [stampsOf, createdAll, mapOptions, mapLabel, created, hkind, stamp, step,
            Form.label]
      rw [List.map_cons, stampsOf_cons, hfirst, ih, ← stampsOf_cons]

theorem stampsOf_remarkWith (error : Option Mismatch) (form : Form) :
    stampsOf [remarkWith error form] = stampsOf [form] := by
  cases error with
  | none => rfl
  | some error => exact stampsOf_map_mapOptions (·.remark error.message) [form]

end Form

open Form

theorem stampsOf_elementForm (declaration : Declaration) (bounds : Bounds) (path : String)
    (occurrence : Option Xml.Element) (content : ComplexContent) :
    stampsOf [elementForm declaration bounds path occurrence content] =
      [⟨declaration.name, path, occurrence⟩] := by
  rw [elementForm, stampsOf_remarkWith, stampsOf_of_element rfl]
  rfl

theorem stampsOf_groupForm (compositor : Compositor) (node : Xml.Element) (bounds : Bounds)
    (path : String) (children : List Form) :
    stampsOf [groupForm compositor node bounds path children] =
      stampsOf children ++ [⟨compositor.step, path, none⟩] := by
  cases compositor <;>
    simp [stampsOf, createdAll, created, groupForm, Compositor.kind, stamp, Form.step,
      Form.label, stepName, Compositor.step, Compositor.label]

theorem AttributesOnly.stampsOf_eq {state after : BuildState} {forms : List Form}
    (h : AttributesOnly state forms after) : stampsOf forms = [] := by
  rw [stampsOf, createdAll_eq_flatMap, List.map_eq_nil_iff, List.flatMap_eq_nil_iff]
  intro form hform
  have hkind := (h.2 form hform).kind
  obtain ⟨label, children⟩ := form
  simp only [Form.label] at hkind
  simp [created, hkind]

/-! ## Counted steps -/

def PlacesFollow (path : String) : List String → List Stamp → Prop
  | _, [] => True
  | steps, stamp :: rest =>
      stamp.path = placePath path stamp.step (steps.count stamp.step + 1) ∧
        PlacesFollow path (stamp.step :: steps) rest

theorem placesFollow_append {path : String} {steps : List String} {first second : List Stamp} :
    PlacesFollow path steps (first ++ second) ↔ PlacesFollow path steps first ∧
      PlacesFollow path ((first.map Stamp.step).reverse ++ steps) second := by
  induction first generalizing steps with
  | nil => simp [PlacesFollow]
  | cons stamp rest ih => simp [PlacesFollow, ih, and_assoc]

theorem PlacesFollow.path_eq {path : String} {before after : List Stamp} {stamp : Stamp}
    (h : PlacesFollow path [] (before ++ stamp :: after)) :
    stamp.path = placePath path stamp.step ((before.map Stamp.step).count stamp.step + 1) := by
  have hplace := (placesFollow_append.mp h).2.1
  rwa [List.append_nil, List.count_reverse] at hplace

structure Counted (path : String) (state : BuildState) (forms : List Form) (after : BuildState) :
    Prop where
  steps : after.steps = ((stampsOf forms).map Stamp.step).reverse ++ state.steps
  places : PlacesFollow path state.steps (stampsOf forms)

theorem counted_invariant (path : String) : Build.Invariant (Counted path) where
  nothing := fun state => ⟨rfl, trivial⟩
  append := by
    intro state middle after before rest hbefore hrest
    refine ⟨?_, ?_⟩
    · rw [hrest.steps, hbefore.steps, stampsOf_append, List.map_append, List.reverse_append,
        List.append_assoc]
    · rw [stampsOf_append, placesFollow_append, ← hbefore.steps]
      exact ⟨hbefore.places, hrest.places⟩
  mapOptions := by
    intro state after forms change h
    constructor
    · rw [stampsOf_map_mapOptions]
      exact h.steps
    · rw [stampsOf_map_mapOptions]
      exact h.places
  withoutInstance := fun h => ⟨h.steps, h.places⟩

/-! ## Elements drawn from the instance -/

structure Drawn (state : BuildState) (forms : List Form) (after : BuildState) : Prop where
  sources : state.ahead = (stampsOf forms).filterMap Stamp.source ++ after.ahead
  named : ∀ stamp ∈ stampsOf forms, ∀ element ∈ stamp.source, stamp.step = element.name

theorem drawn_invariant : Build.Invariant Drawn where
  nothing := fun state => ⟨rfl, by simp [stampsOf, createdAll]⟩
  append := by
    intro state middle after before rest hbefore hrest
    constructor
    · rw [stampsOf_append, List.filterMap_append, List.append_assoc, ← hrest.sources,
        hbefore.sources]
    · rw [stampsOf_append]
      exact List.forall_mem_append.mpr ⟨hbefore.named, hrest.named⟩
  mapOptions := by
    intro state after forms change h
    constructor
    · rw [stampsOf_map_mapOptions]
      exact h.sources
    · rw [stampsOf_map_mapOptions]
      exact h.named
  withoutInstance := by
    intro state last forms h
    obtain ⟨hnone, -⟩ := List.append_eq_nil_iff.mp h.sources.symm
    refine ⟨?_, h.named⟩
    rw [hnone]
    rfl

def InTurn (path : String) (state : BuildState) (forms : List Form) (after : BuildState) : Prop :=
  Counted path state forms after ∧ Drawn state forms after

theorem inTurn_invariant (path : String) : Build.Invariant (InTurn path) :=
  (counted_invariant path).and drawn_invariant

theorem AttributesOnly.inTurn {state after : BuildState} {forms : List Form}
    (h : AttributesOnly state forms after) (path : String) : InTurn path state forms after := by
  have hnone := h.stampsOf_eq
  obtain ⟨rfl, -⟩ := h
  refine ⟨⟨?_, ?_⟩, ⟨?_, ?_⟩⟩ <;> rw [hnone]
  · rfl
  · trivial
  · rfl
  · exact List.forall_mem_nil _

section

variable {deeper : Option Level} {context : Context} {declaration : Declaration}
  {bounds : Bounds} {path : String} {state after : BuildState} {forms : List Form}

/-! ## Elements and groups -/

theorem CompiledFrom.stampsOf_eq {error : Option Mismatch} {occurrence : Option Xml.Element}
    {form : Form} (h : CompiledFrom deeper context declaration bounds error occurrence form) :
    ∃ place, stampsOf [form] = [⟨declaration.name, place, occurrence⟩] := by
  obtain ⟨place, content, -, rfl⟩ := h
  exact ⟨place, by rw [stampsOf_remarkWith, stampsOf_elementForm]⟩

theorem buildOccurrence_counted (occurrence : Option Xml.Element) :
    (buildOccurrence deeper context declaration bounds path occurrence).Ensures
      (Counted path) := by
  intro state forms after hrun
  obtain ⟨content, -, rfl, rfl⟩ := buildOccurrence_eq_ok.mp hrun
  constructor
  · rw [stampsOf_elementForm]
    rfl
  · rw [stampsOf_elementForm]
    exact ⟨rfl, trivial⟩

theorem buildDeclared_counted (atLeast : Nat) :
    (buildDeclared deeper context declaration bounds atLeast path).Ensures (Counted path) := by
  have hcounted := counted_invariant path
  have hcopies : ∀ count,
      (buildCopies deeper context declaration bounds path count).Ensures (Counted path) := by
    intro count
    refine Build.Ensures.all hcounted.toAdditive fun build hbuild => ?_
    rw [List.eq_of_mem_replicate hbuild]
    exact buildOccurrence_counted none
  have htaken : ∀ taken,
      (buildTaken deeper context declaration bounds path taken).Ensures (Counted path) := by
    intro taken
    refine Build.Ensures.all hcounted.toAdditive fun build hbuild => ?_
    obtain ⟨⟨occurrence, index⟩, -, rfl⟩ := List.mem_map.mp hbuild
    exact hcounted.remarked (buildOccurrence_counted (some occurrence)) _
  intro state forms after hrun
  simp only [buildDeclared] at hrun
  split at hrun
  · exact hcopies _ _ _ _ hrun
  · -- The cursor plays no part in the count.
    have hall := (htaken _).andThen hcounted.toAdditive (hcopies _) _ _ _ hrun
    exact ⟨hall.steps, hall.places⟩

theorem sources_of_copies
    (h : ∀ form ∈ forms, CompiledFrom deeper context declaration bounds none none form) :
    ∀ stamp ∈ stampsOf forms, stamp.source = none := by
  induction forms with
  | nil => exact List.forall_mem_nil _
  | cons form rest ih =>
      rw [List.forall_mem_cons] at h
      obtain ⟨place, hform⟩ := h.1.stampsOf_eq
      rw [stampsOf_cons, hform]
      exact List.forall_mem_cons.mpr ⟨rfl, ih h.2⟩

theorem sources_of_taken {start : Nat} {taken : List Xml.Element}
    (h : List.Forall₂ (fun occurrence form => CompiledFrom deeper context declaration bounds
      (surplusError declaration.name bounds.max (occurrence.2 + 1)) (some occurrence.1) form)
      (taken.zipIdx start) forms) :
    (stampsOf forms).filterMap Stamp.source = taken ∧
      ∀ stamp ∈ stampsOf forms, stamp.step = declaration.name := by
  induction taken generalizing start forms with
  | nil =>
      cases h
      exact ⟨rfl, List.forall_mem_nil _⟩
  | cons occurrence rest ih =>
      cases h with
      | @cons _ form _ others hform hothers =>
          obtain ⟨place, hstamps⟩ := hform.stampsOf_eq
          obtain ⟨hsources, hsteps⟩ := ih hothers
          rw [stampsOf_cons, hstamps, List.singleton_append]
          exact ⟨congrArg (occurrence :: ·) hsources, List.forall_mem_cons.mpr ⟨rfl, hsteps⟩⟩

theorem buildDeclared_drawn (atLeast : Nat) :
    (buildDeclared deeper context declaration bounds atLeast path).Ensures Drawn := by
  intro state forms after hrun
  cases hcursor : state.cursor with
  | none =>
      obtain ⟨-, hafter, hcopies⟩ := buildDeclared_eq_ok_of_none hcursor hrun
      have hnone := sources_of_copies hcopies
      constructor
      · rw [List.filterMap_eq_nil_iff.mpr hnone, BuildState.ahead, BuildState.ahead, hcursor,
          hafter]
        rfl
      · intro stamp hstamp element helement
        cases (hnone stamp hstamp).symm.trans helement
  | some cursor =>
      obtain ⟨made, copies, rfl, hmade, -, hcopies, hafter⟩ :=
        buildDeclared_eq_ok_of_some hcursor hrun
      have hnone := sources_of_copies hcopies
      obtain ⟨htaken, hsteps⟩ := sources_of_taken hmade
      constructor
      · rw [stampsOf_append, List.filterMap_append, htaken, List.filterMap_eq_nil_iff.mpr hnone,
          List.append_nil]
        simp only [BuildState.ahead, hcursor, hafter]
        exact (Cursor.takeRun_append cursor _ _).symm
      · rw [stampsOf_append, List.forall_mem_append]
        constructor
        · intro stamp hstamp element helement
          have hin : element ∈ cursor.run declaration.name (takingLimit context bounds) := by
            rw [← htaken]
            exact List.mem_filterMap.mpr ⟨stamp, hstamp, helement⟩
          rw [hsteps stamp hstamp, (Cursor.mem_run hin).2]
        · intro stamp hstamp element helement
          cases (hnone stamp hstamp).symm.trans helement

def Level.InTurn (level : Level) : Prop :=
  ∀ context atLeast particle path,
    (level.particle context atLeast particle path).Ensures (SchemaForms.InTurn path)

theorem buildParticle_inTurn (hdeeper : ∀ level ∈ deeper, level.InTurn) (atLeast : Nat)
    (particle : Particle) :
    (buildParticle deeper context atLeast particle path).Ensures (InTurn path) := by
  cases particle with
  | element node bounds =>
      intro state forms after hrun
      obtain ⟨declaration, -, hbuild⟩ := buildElement_eq_ok.mp hrun
      exact ⟨buildDeclared_counted _ _ _ _ hbuild, buildDeclared_drawn _ _ _ _ hbuild⟩
  | group compositor node bounds =>
      refine (inTurn_invariant path).group
        (fun level hlevel _ _ member _ atLeast => hdeeper level hlevel _ _ _ _) ?_
      rintro state children last ⟨hcounted, hdrawn⟩
      refine ⟨⟨?_, ?_⟩, ⟨?_, ?_⟩⟩ <;> rw [stampsOf_groupForm]
      · rw [BuildState.givePlace, hcounted.steps, List.map_append, List.reverse_append]
        rfl
      · rw [placesFollow_append, ← hcounted.steps]
        exact ⟨hcounted.places, rfl, trivial⟩
      · rw [List.filterMap_append, hdrawn.sources]
        exact congrArg (· ++ last.ahead) (List.append_nil _).symm
      · exact List.forall_mem_append.mpr ⟨hdrawn.named, by simp⟩
  | attributeUse node =>
      exact fun state forms after hrun =>
        (buildAttribute_attributesOnly _ _ _ _ _ _ _ hrun).inTurn path

end

theorem levelBelow_inTurn (depth : Nat) : ∀ level ∈ levelBelow depth, level.InTurn :=
  level_induction (fun _ hdeeper _ atLeast particle _ =>
    buildParticle_inTurn hdeeper atLeast particle) depth

/-! ## Contents of elements -/

/-- The content of an element, compiled from the source if there is one: its nodes have the
places from one on, and stand for the first children of the source in their order. -/
structure ContentInTurn (path : String) (source : Option Xml.Element) (children : List Form) :
    Prop where
  places : PlacesFollow path [] (stampsOf children)
  named : ∀ stamp ∈ stampsOf children, ∀ element ∈ stamp.source, stamp.step = element.name
  sources : ∃ left, source.toList.flatMap Xml.Element.elements =
    (stampsOf children).filterMap Stamp.source ++ left

theorem elementContent_inTurn {levels : Nat} {context : Context} {declaration : Declaration}
    {path : String} {occurrence : Option Xml.Element} {content : ComplexContent}
    (h : elementContent (levelBelow levels) context declaration path occurrence = .ok content) :
    ContentInTurn path occurrence content.children := by
  rcases elementContent_eq_ok.mp h with ⟨-, rfl⟩ |
    ⟨definition, level, children, after, -, hlevel, -, hitems, rfl⟩
  · rw [simpleContent_children]
    exact ⟨trivial, List.forall_mem_nil _, _, rfl⟩
  · have hbuild : (buildItems level (context.insideType definition) definition path
        occurrence).Ensures (InTurn path) := by
      refine Build.Ensures.all (inTurn_invariant path).toAdditive fun build hbuild => ?_
      obtain ⟨item, -, rfl⟩ := List.mem_map.mp hbuild
      intro state forms last hrun
      rcases buildItem_eq_ok (levelBelow_attributesOnly levels level hlevel) hrun with
        ⟨-, particle, -, hparticle⟩ | ⟨-, hattributes⟩
      · exact levelBelow_inTurn levels level hlevel _ _ _ _ _ _ _ hparticle
      · exact hattributes.inTurn path
    obtain ⟨hcounted, hdrawn⟩ := hbuild _ _ _ hitems
    refine ⟨hcounted.places, hdrawn.named, after.ahead, ?_⟩
    rw [← hdrawn.sources]
    cases occurrence with
    | none => rfl
    | some occurrence => exact List.append_nil _

structure Form.InTurn (form : Form) : Prop where
  content : form.label.kind = .element →
    ContentInTurn form.label.path form.label.source form.children
  childless : form.label.kind = .attributeUse → form.children = []
  kind : form.label.source ≠ none → form.label.kind = .element

theorem makes_inTurn (schema : Schema) (settings : Settings) (editing : Bool) :
    schema.Makes settings editing Form.InTurn where
  selected := by
    rintro ⟨label, children⟩ value h
    exact ⟨h.content, h.childless, h.kind⟩
  remarked := by
    rintro ⟨label, children⟩ message - - h
    exact ⟨h.content, h.childless, h.kind⟩
  attributeUse := fun _ _ _ _ _ _ _ => ⟨nofun, fun _ => rfl, fun h => absurd rfl h⟩
  group := by
    intro compositor node bounds path children
    cases compositor <;> exact ⟨nofun, nofun, fun h => absurd rfl h⟩
  element := by
    intro levels context particle declaration bounds path occurrence content _ _ hcontent
    have hturn := elementContent_inTurn hcontent
    exact ⟨fun _ => ⟨hturn.places, hturn.named, hturn.sources⟩, nofun, fun _ => rfl⟩

/-! ## Nodes below a root -/

section

def copiesOf (step : String) (stamps : List Stamp) : Nat :=
  stamps.countP fun stamp => stamp.step == step && stamp.source.isNone

/-- The node is found below the root, one content after the other. The counts tell for it
and for each element that it stands in how many copies are before it in its content. -/
inductive Form.Descends (root : Form) : Form → List Nat → Prop
  | root : Form.Descends root root [0]
  | child {parent node : Form} {counts : List Nat} {before after : List Form} :
      Form.Descends root parent counts → parent.label.kind = .element →
      createdAll parent.children = before ++ node :: after →
      Form.Descends root node (copiesOf node.step (before.map stamp) :: counts)

mutual
theorem exists_created {form node : Form} (hnode : node ∈ form.nodes)
    (hkind : node.label.kind = .element) (hform : form.Throughout Form.InTurn) :
    ∃ top ∈ form.created, top.label.kind = .element ∧ node ∈ top.nodes := by
  by_cases helement : form.label.kind = .element
  · exact ⟨form, created_of_element helement ▸ List.mem_singleton_self _, helement, hnode⟩
  cases form with
  | node label children =>
      obtain ⟨hself, hchildren⟩ := Form.throughout_iff.mp hform
      have hbelow : node ∈ nodesOf children := by
        rcases List.mem_cons.mp hnode with rfl | hbelow
        · exact absurd hkind helement
        · exact hbelow
      by_cases hattribute : label.kind = .attributeUse
      · obtain rfl : children = [] := hself.childless hattribute
        cases hbelow
      obtain ⟨top, htop, hfound⟩ := exists_createdAll hbelow hkind hchildren
      have hcreated : created (.node label children) =
          createdAll children ++ [.node label children] := by
        simp only [Form.label] at helement
        cases hlabel : label.kind <;> simp_all [created]
      exact ⟨top, hcreated ▸ List.mem_append_left _ htop, hfound⟩

/-- An element below some forms is one that has a place in their content, or is below one. -/
theorem exists_createdAll {forms : List Form} {node : Form} (hnode : node ∈ nodesOf forms)
    (hkind : node.label.kind = .element)
    (hforms : ∀ form ∈ forms, form.Throughout Form.InTurn) :
    ∃ top ∈ createdAll forms, top.label.kind = .element ∧ node ∈ top.nodes := by
  cases forms with
  | nil => cases hnode
  | cons form rest =>
      rw [List.forall_mem_cons] at hforms
      rw [nodesOf, List.mem_append] at hnode
      rcases hnode with hnode | hnode
      · obtain ⟨top, htop, hfound⟩ := exists_created hnode hkind hforms.1
        exact ⟨top, List.mem_append_left _ htop, hfound⟩
      · obtain ⟨top, htop, hfound⟩ := exists_createdAll hnode hkind hforms.2
        exact ⟨top, List.mem_append_right _ htop, hfound⟩
end

theorem Form.Descends.mem {root node : Form} {counts : List Nat} (h : root.Descends node counts) :
    node ∈ root.nodes := by
  induction h with
  | root => exact mem_nodes_self root
  | @child parent node counts before after _ _ hcreated ih =>
      refine nodes_trans ih (nodes_eq parent ▸ List.mem_cons_of_mem _ ?_)
      exact mem_nodesOf_of_mem_createdAll (hcreated ▸ List.mem_append_right _ List.mem_cons_self)

theorem Form.Descends.exists_of_mem {root form : Form} {counts : List Nat}
    (h : root.Descends form counts) (hform : form.Throughout Form.InTurn)
    (hkind : form.label.kind = .element) {node : Form} (hnode : node ∈ form.nodes)
    (helement : node.label.kind = .element) : ∃ counts, root.Descends node counts := by
  induction hsize : form.size using Nat.strongRecOn generalizing form counts with
  | ind size ih =>
      rw [nodes_eq] at hnode
      rcases List.mem_cons.mp hnode with rfl | hnode
      · exact ⟨counts, h⟩
      obtain ⟨top, htop, htopKind, hbelow⟩ :=
        exists_createdAll hnode helement (throughout_iff.mp hform).2
      have hchild := mem_nodesOf_of_mem_createdAll htop
      have hsmaller : top.size < size := by
        obtain ⟨label, children⟩ := form
        rw [← hsize, Form.size]
        exact Nat.lt_succ_of_le (size_le_of_mem_nodesOf hchild)
      have htopForm : top.Throughout Form.InTurn := fun inner hinner =>
        hform inner (nodes_eq form ▸ List.mem_cons_of_mem _ (nodesOf_trans hchild hinner))
      obtain ⟨before, after, hcreated⟩ := List.mem_iff_append.mp htop
      exact ih top.size hsmaller (.child h hkind hcreated) htopForm htopKind hbelow rfl

/-! ## Paths and locations -/

theorem count_step_eq {stamps : List Stamp}
    (hnamed : ∀ stamp ∈ stamps, ∀ element ∈ stamp.source, stamp.step = element.name)
    (step : String) :
    (stamps.map Stamp.step).count step =
      (stamps.filterMap Stamp.source).countP (·.name == step) + copiesOf step stamps := by
  induction stamps with
  | nil => rfl
  | cons stamp rest ih =>
      rw [List.forall_mem_cons] at hnamed
      rw [List.map_cons, List.count_cons, ih hnamed.2, copiesOf, copiesOf, List.countP_cons]
      cases hsource : stamp.source with
      | none => simp [hsource, Nat.add_assoc]
      | some element =>
          simp [hsource, hnamed.1 element hsource, List.countP_cons, Nat.add_right_comm]

variable {document : Xml.Document} {root : Form}

structure RootInTurn (document : Xml.Document) (root : Form) : Prop where
  throughout : root.Throughout Form.InTurn
  kind : root.label.kind = .element
  path : root.label.path = placePath "" root.step 1
  source : ∀ element ∈ root.label.source,
    root.step = element.name ∧ ∃ after, document.roots = element :: after

/-- A node in a content that comes from an element is one of a source, among whose children
the element stands, and has its number there, moved on by the copies before the node. -/
theorem ContentInTurn.path_of_created {path : String} {source : Option Xml.Element}
    {children before after : List Form} {node : Form} {element : Xml.Element}
    (h : ContentInTurn path source children)
    (hcreated : createdAll children = before ++ node :: after)
    (hsource : node.label.source = some element) :
    ∃ outer beside behind, source = some outer ∧ outer.elements = beside ++ element :: behind ∧
      node.label.path = placePath path element.name
        (Xml.ordinal element.name beside + copiesOf node.step (before.map stamp)) := by
  have hstamps : stampsOf children = before.map stamp ++ node.stamp :: after.map stamp := by
    rw [stampsOf, hcreated, List.map_append, List.map_cons]
  obtain ⟨hplaces, hnamed, left, hsources⟩ := h
  rw [hstamps] at hplaces hnamed hsources
  have hstamp : node.stamp.source = some element := hsource
  have hstep : node.step = element.name :=
    hnamed node.stamp (List.mem_append_right _ List.mem_cons_self) element hstamp
  rw [List.filterMap_append, List.filterMap_cons, hstamp, List.append_assoc,
    List.cons_append] at hsources
  cases source with
  | none => simp at hsources
  | some outer =>
      rw [Option.toList_some, List.flatMap_cons, List.flatMap_nil, List.append_nil] at hsources
      have hpath : node.label.path = placePath path node.step
          (((before.map stamp).map Stamp.step).count node.step + 1) := hplaces.path_eq
      have hcount := count_step_eq
        (fun other hother => hnamed other (List.mem_append_left _ hother)) node.step
      refine ⟨outer, _, _, rfl, hsources, ?_⟩
      rw [hpath, hcount, hstep, Nat.add_right_comm]
      rfl

theorem Form.Descends.located (hroot : RootInTurn document root) {node : Form}
    {counts : List Nat} (h : root.Descends node counts) {element : Xml.Element}
    (hsource : node.label.source = some element) :
    ∃ steps, document.Locates element steps ∧ counts.length = steps.length ∧
      node.label.path = locationPath (movedOn steps counts) := by
  induction h generalizing element with
  | root =>
      obtain ⟨hstep, after, hroots⟩ := hroot.source element hsource
      have hlocated : document.Locates element [(element.name, Xml.ordinal element.name [])] :=
        .root hroots
      refine ⟨_, hlocated, rfl, ?_⟩
      rw [hroot.path, hstep]
      rfl
  | child hparent hkind hcreated ih =>
      have hturn := (hroot.throughout _ hparent.mem).content hkind
      obtain ⟨outer, beside, behind, houter, hchildren, hpath⟩ :=
        hturn.path_of_created hcreated hsource
      obtain ⟨steps, hlocates, hlength, hparentPath⟩ := ih houter
      refine ⟨_, .child hlocates hchildren, congrArg (· + 1) hlength, ?_⟩
      rw [hpath, hparentPath]
      rfl

theorem rootInTurn_of_compileForm {schema : Schema} {settings : Settings} {name : Option String}
    {forms : RootForms}
    (hforms : compileForm schema settings name (some document) = .ok forms) :
    RootInTurn document forms.root := by
  obtain ⟨element, root, after, -, hbuild, hroot⟩ := compileForm_eq_ok hforms
  obtain ⟨declaration, -, hdeclared⟩ := buildElement_eq_ok.mp hbuild
  obtain ⟨_, _, hfrom⟩ := compiledFrom_of_buildDeclared hdeclared root List.mem_cons_self
  have hlabel : forms.root.label.kind = root.label.kind ∧ forms.root.stamp = root.stamp := by
    rw [hroot]
    cases rootError root after with
    | none => exact ⟨rfl, rfl⟩
    | some error =>
        obtain ⟨label, children⟩ := root
        exact ⟨rfl, rfl⟩
  have hkind := hfrom.shown.1
  have hcounted := buildDeclared_counted _ _ _ _ hdeclared
  have hdrawn := buildDeclared_drawn _ _ _ _ hdeclared
  have hstamps : stampsOf (root :: forms.surplus) = root.stamp :: stampsOf forms.surplus := by
    rw [stampsOf_cons, stampsOf_of_element hkind]
    rfl
  constructor
  · exact ((compileForm_keeps name (makes_inTurn schema settings true)).1 forms hforms) _
      List.mem_cons_self
  · exact hlabel.1.trans hkind
  · have hplaces := hcounted.places
    rw [hstamps] at hplaces
    exact (congrArg Stamp.path hlabel.2).trans (hplaces.1.trans (by rw [hlabel.2.symm]; rfl))
  · intro found hfound
    have hsource : root.stamp.source = some found := hlabel.2 ▸ hfound
    have hnamed := hdrawn.named root.stamp (hstamps ▸ List.mem_cons_self) found hsource
    have hsources := hdrawn.sources
    rw [hstamps, List.filterMap_cons, hsource, List.cons_append] at hsources
    exact ⟨(congrArg Stamp.step hlabel.2).trans hnamed, _,
      document.holder_elements.symm.trans hsources⟩

end

/-- The path of a node that was compiled from an element of the instance tells the location
of the element, with the number in each step moved on by the copies that the content has
before it. So it is the location exactly where neither the node nor one of the elements
that it stands in has a copy of its name before it. -/
theorem path_of_source {schema : Schema} {settings : Settings} {name : Option String}
    {document : Xml.Document} {forms : RootForms}
    (hforms : compileForm schema settings name (some document) = .ok forms) {node : Form}
    (hnode : node ∈ forms.root.nodes) {element : Xml.Element}
    (hsource : node.label.source = some element) :
    (∃ steps, document.Locates element steps) ∧ (∃ counts, forms.root.Descends node counts) ∧
      ∀ steps counts, document.Locates element steps → forms.root.Descends node counts →
        node.label.path = locationPath (movedOn steps counts) ∧
          (node.label.path = locationPath steps ↔ ∀ count ∈ counts, count = 0) := by
  have hroot := rootInTurn_of_compileForm hforms
  have hkind : node.label.kind = .element :=
    (hroot.throughout node hnode).kind (by rw [hsource]; exact nofun)
  obtain ⟨counts, hcounts⟩ :=
    Form.Descends.root.exists_of_mem hroot.throughout hroot.kind hnode hkind
  obtain ⟨steps, hsteps, -⟩ := hcounts.located hroot hsource
  refine ⟨⟨steps, hsteps⟩, ⟨counts, hcounts⟩, fun others copies hothers hcopies => ?_⟩
  obtain ⟨_, hlocated, hlength, hpath⟩ := hcopies.located hroot hsource
  obtain rfl := hlocated.unique hothers
  rw [hpath]
  exact ⟨rfl, locationPath_movedOn_eq_iff hlength⟩

def basketDocument : Xml.Document :=
  .ofRoots (.plain "schema" [] [
    .plain "element" [("name", "basket")] [
      .plain "complexType" [] [
        .plain "choice" [("maxOccurs", "unbounded")] [
          .plain "element" [("name", "apple")] [],
          .plain "element" [("name", "pear")] []]]]]) []

def mixedBasket : Xml.Document :=
  .ofRoots (.plain "basket" [] [.leaf "pear" "1", .leaf "apple" "2"]) []

theorem mixedBasket_apple_path :
    ∃ forms node, compileForm (Schema.given basketDocument) .default none (some mixedBasket) =
        .ok forms ∧
      node ∈ forms.root.nodes ∧ node.label.source = some (mixedBasket.node 2) ∧
      node.label.path = "/basket[1]/apple[2]" ∧
      (∃ steps, mixedBasket.Locates (mixedBasket.node 2) steps) ∧
      (∃ counts, forms.root.Descends node counts) ∧
      ∀ steps counts, mixedBasket.Locates (mixedBasket.node 2) steps →
        forms.root.Descends node counts →
        node.label.path = locationPath (movedOn steps counts) ∧
          (node.label.path = locationPath steps ↔ ∀ count ∈ counts, count = 0) := by
  have hcompiles : (compileForm (Schema.given basketDocument) .default none
      (some mixedBasket)).toOption.any (fun forms => forms.root.nodes.any fun node =>
        node.label.source == some (mixedBasket.node 2) &&
          node.label.path == "/basket[1]/apple[2]") = true := by decide +kernel
  obtain ⟨forms, hforms, hfound⟩ := exists_of_checked hcompiles
  obtain ⟨node, hnode, hshape⟩ := List.any_eq_true.mp hfound
  rw [Bool.and_eq_true, beq_iff_eq, beq_iff_eq] at hshape
  exact ⟨forms, node, hforms, hnode, hshape.1, hshape.2, path_of_source hforms hnode hshape.1⟩

/-- The basket fits the schema and nothing in its form is remarked on, but the path of its
only apple is not the location of the apple. -/
theorem mixedBasket_not_located :
    ∃ forms, compileForm (Schema.given basketDocument) .default none (some mixedBasket) =
        .ok forms ∧
      (∀ node ∈ forms.root.nodes, node.label.options.mismatch? = none) ∧
      ∃ node ∈ forms.root.nodes, node.label.source = some (mixedBasket.node 2) ∧
        mixedBasket.Locates (mixedBasket.node 2) [("apple", 1), ("basket", 1)] ∧
        locationPath [("apple", 1), ("basket", 1)] = "/basket[1]/apple[1]" ∧
        node.label.path = "/basket[1]/apple[2]" := by
  have hcompiles : (compileForm (Schema.given basketDocument) .default none
      (some mixedBasket)).toOption.any (fun forms =>
        (forms.root.nodes.all fun node => node.label.options.mismatch? == none) &&
          forms.root.nodes.any fun node => node.label.source == some (mixedBasket.node 2) &&
            node.label.path == "/basket[1]/apple[2]") = true := by decide +kernel
  obtain ⟨forms, hforms, hchecked⟩ := exists_of_checked hcompiles
  rw [Bool.and_eq_true, List.all_eq_true] at hchecked
  obtain ⟨node, hnode, hshape⟩ := List.any_eq_true.mp hchecked.2
  rw [Bool.and_eq_true, beq_iff_eq, beq_iff_eq] at hshape
  have hbasket : mixedBasket.Locates mixedBasket.root
      [(mixedBasket.root.name, Xml.ordinal mixedBasket.root.name [])] :=
    .root (rfl : mixedBasket.roots = [mixedBasket.root])
  have happle : mixedBasket.Locates (mixedBasket.node 2) [("apple", 1), ("basket", 1)] :=
    hbasket.child (show mixedBasket.root.elements = [mixedBasket.node 1] ++ [mixedBasket.node 2] by
      decide +kernel)
  exact ⟨forms, hforms, fun node hnode => by simpa using hchecked.1 node hnode, node, hnode,
    hshape.1, happle, by decide +kernel, hshape.2⟩

end SchemaForms
