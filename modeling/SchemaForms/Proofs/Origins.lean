import SchemaForms.Proofs.Documents
import SchemaForms.Proofs.Invariants

/-!
# The elements that nodes were compiled from

A compilation takes elements from an instance in document order, and compiles a
node from each of them. So the elements that the nodes of a form were compiled
from stand in document order too, and no two nodes come from the same one.
-/

namespace SchemaForms

/-! ## Sources -/

namespace Form

def sourcesOf (forms : List Form) : List Xml.Element := (labelsOf forms).filterMap (·.source)

@[simp] theorem sourcesOf_append (first second : List Form) :
    sourcesOf (first ++ second) = sourcesOf first ++ sourcesOf second := by
  simp [sourcesOf, labelsOf_eq_flatMap]

theorem sourcesOf_cons (form : Form) (rest : List Form) :
    sourcesOf (form :: rest) = sourcesOf [form] ++ sourcesOf rest :=
  sourcesOf_append [form] rest

theorem sourcesOf_node (label : FormLabel) (children : List Form) :
    sourcesOf [node label children] = label.source.toList ++ sourcesOf children := by
  simp only [sourcesOf, labelsOf, labels, List.append_nil, List.filterMap_cons]
  cases label.source <;> rfl

theorem sourcesOf_map_mapOptions (change : Options → Options) (forms : List Form) :
    sourcesOf (forms.map (·.mapOptions change)) = sourcesOf forms := by
  induction forms with
  | nil => rfl
  | cons form rest ih =>
      obtain ⟨label, children⟩ := form
      rw [List.map_cons, sourcesOf_cons, ih, sourcesOf_cons (node label children)]
      simp only [mapOptions, mapLabel, sourcesOf_node]

theorem sourcesOf_remarkWith (error : Option Mismatch) (form : Form) :
    sourcesOf [remarkWith error form] = sourcesOf [form] := by
  cases error with
  | none => rfl
  | some error => exact sourcesOf_map_mapOptions (·.remark error.message) [form]

end Form

theorem sourcesOf_elementForm (declaration : Declaration) (bounds : Bounds) (path : String)
    (occurrence : Option Xml.Element) (content : ComplexContent) :
    Form.sourcesOf [elementForm declaration bounds path occurrence content] =
      occurrence.toList ++ Form.sourcesOf content.children := by
  rw [elementForm, Form.sourcesOf_remarkWith, Form.sourcesOf_node]

/-! ## Document order -/

theorem Xml.descendantsOf_append (first second : List Xml.Node) :
    Xml.descendantsOf (first ++ second) = Xml.descendantsOf first ++ Xml.descendantsOf second := by
  simp [Xml.descendantsOf_eq_flatMap]

def InOrder (state : BuildState) (forms : List Form) (after : BuildState) : Prop :=
  ∃ taken, state.ahead = taken ++ after.ahead ∧
    (Form.sourcesOf forms).Sublist (Xml.descendantsOf (taken.map Xml.Element.node))

theorem inOrder_invariant : Build.Invariant InOrder where
  nothing := fun state => ⟨[], rfl, .slnil⟩
  append := by
    rintro state middle after before rest ⟨first, hfirst, hbefore⟩ ⟨second, hsecond, hrest⟩
    refine ⟨first ++ second, by rw [hfirst, hsecond, List.append_assoc], ?_⟩
    rw [Form.sourcesOf_append, List.map_append, Xml.descendantsOf_append]
    exact hbefore.append hrest
  mapOptions := by
    rintro state after forms change ⟨taken, htaken, hforms⟩
    exact ⟨taken, htaken, by rwa [Form.sourcesOf_map_mapOptions]⟩
  withoutInstance := by
    rintro state last forms ⟨taken, htaken, hforms⟩
    obtain rfl : taken = [] := (List.append_eq_nil_iff.mp htaken.symm).1
    exact ⟨[], rfl, hforms⟩

/-! ## Attributes and elements -/

theorem Xml.descendantsOf_elements_sublist (nodes : List Xml.Node) :
    (Xml.descendantsOf ((nodes.filterMap Xml.Node.element?).map Xml.Element.node)).Sublist
      (Xml.descendantsOf nodes) := by
  induction nodes with
  | nil => exact .slnil
  | cons node rest ih =>
      cases node with
      | element tag children => exact ih.append_left _
      | text value => exact ih
      | comment value => exact ih
      | instruction => exact ih

theorem buildAttribute_inOrder (context : Context) (use : Xml.Element) (path : String)
    (occurrence : Option Xml.Element) :
    (buildAttribute context use path occurrence).Ensures InOrder :=
  inOrder_invariant.toAdditive.attribute fun _ _ _ _ =>
    ⟨[], rfl, Form.sourcesOf_node _ _ ▸ .slnil⟩

structure Level.InOrder (level : Level) : Prop where
  particle : ∀ context atLeast particle path,
    (level.particle context atLeast particle path).Ensures SchemaForms.InOrder
  entry : ∀ context entry path occurrence,
    (level.attributeEntry context entry path occurrence).Ensures SchemaForms.InOrder

section

variable {deeper : Option Level} {context : Context} {path : String}
  (hdeeper : ∀ level ∈ deeper, level.InOrder)
include hdeeper

theorem elementContent_inOrder {declaration : Declaration} {occurrence : Option Xml.Element}
    {content : ComplexContent}
    (h : elementContent deeper context declaration path occurrence = .ok content) :
    (Form.sourcesOf content.children).Sublist
      (Xml.descendantsOf (occurrence.toList.flatMap (·.children))) := by
  rcases elementContent_eq_ok.mp h with ⟨-, rfl⟩ |
    ⟨definition, level, children, after, -, hlevel, -, hitems, rfl⟩
  · rw [simpleContent_children]
    exact List.nil_sublist _
  · have hbuild : (buildItems level (context.insideType definition) definition path
        occurrence).Ensures InOrder := by
      refine Build.Ensures.all inOrder_invariant.toAdditive fun build hbuild => ?_
      obtain ⟨item, -, rfl⟩ := List.mem_map.mp hbuild
      exact inOrder_invariant.toAdditive.item
        (fun particle _ => (hdeeper level hlevel).particle _ _ _ _)
        fun entry _ => (hdeeper level hlevel).entry _ _ _ _
    obtain ⟨taken, htaken, hsources⟩ := hbuild _ _ _ hitems
    refine hsources.trans ?_
    cases occurrence with
    | none =>
        obtain rfl : taken = [] := (List.append_eq_nil_iff.mp htaken.symm).1
        exact .slnil
    | some occurrence =>
        have hahead : occurrence.elements = taken ++ after.ahead := htaken
        have hbelow := Xml.descendantsOf_elements_sublist occurrence.children
        rw [show occurrence.children.filterMap Xml.Node.element? = taken ++ after.ahead from
          hahead, List.map_append, Xml.descendantsOf_append] at hbelow
        simpa using (List.sublist_append_left _ _).trans hbelow

theorem CompiledFrom.sources {declaration : Declaration} {bounds : Bounds}
    {error : Option Mismatch} {occurrence : Option Xml.Element} {form : Form}
    (h : CompiledFrom deeper context declaration bounds error occurrence form) :
    (Form.sourcesOf [form]).Sublist
      (Xml.descendantsOf (occurrence.toList.map Xml.Element.node)) := by
  obtain ⟨place, content, hcontent, rfl⟩ := h
  have hchildren := elementContent_inOrder hdeeper hcontent
  rw [Form.sourcesOf_remarkWith, sourcesOf_elementForm]
  cases occurrence with
  | none => exact hchildren
  | some occurrence =>
      simp only [Option.toList_some, List.flatMap_cons, List.flatMap_nil, List.append_nil]
        at hchildren
      simpa [Xml.descendantsOf, Xml.Element.node, Xml.Node.descendants] using hchildren

theorem sourcesOf_copies {declaration : Declaration} {bounds : Bounds} {copies : List Form}
    (h : ∀ form ∈ copies, CompiledFrom deeper context declaration bounds none none form) :
    Form.sourcesOf copies = [] := by
  induction copies with
  | nil => rfl
  | cons form rest ih =>
      rw [List.forall_mem_cons] at h
      have hfirst := List.sublist_nil.mp (h.1.sources hdeeper)
      rw [Form.sourcesOf_cons, hfirst, ih h.2]
      rfl

theorem sourcesOf_taken {declaration : Declaration} {bounds : Bounds} {start : Nat}
    {taken : List Xml.Element} {made : List Form}
    (h : List.Forall₂ (fun occurrence form => CompiledFrom deeper context declaration bounds
      (surplusError declaration.name bounds.max (occurrence.2 + 1)) (some occurrence.1) form)
      (taken.zipIdx start) made) :
    (Form.sourcesOf made).Sublist (Xml.descendantsOf (taken.map Xml.Element.node)) := by
  induction taken generalizing start made with
  | nil =>
      cases h
      exact .slnil
  | cons occurrence rest ih =>
      cases h with
      | @cons _ form _ others hform hothers =>
          have hfirst := hform.sources hdeeper
          rw [Form.sourcesOf_cons]
          have happend := Xml.descendantsOf_append [occurrence.node] (rest.map Xml.Element.node)
          exact happend ▸ hfirst.append (ih hothers)

theorem buildElement_inOrder (node : Xml.Element) (bounds : Bounds) (atLeast : Nat) :
    (buildElement deeper context node bounds atLeast path).Ensures InOrder := by
  intro state forms after hrun
  obtain ⟨declaration, -, hbuild⟩ := buildElement_eq_ok.mp hrun
  cases hcursor : state.cursor with
  | none =>
      obtain ⟨-, hafter, hcopies⟩ := buildDeclared_eq_ok_of_none hcursor hbuild
      refine ⟨[], by simp only [BuildState.ahead, hafter, hcursor, List.nil_append], ?_⟩
      rw [sourcesOf_copies hdeeper hcopies]
      exact .slnil
  | some cursor =>
      obtain ⟨made, copies, rfl, hmade, -, hcopies, hafter⟩ :=
        buildDeclared_eq_ok_of_some hcursor hbuild
      refine ⟨cursor.run declaration.name (takingLimit context bounds), ?_, ?_⟩
      · simp only [BuildState.ahead, hcursor, hafter]
        exact (Cursor.takeRun_append cursor _ _).symm
      · rw [Form.sourcesOf_append, sourcesOf_copies hdeeper hcopies, List.append_nil]
        exact sourcesOf_taken hdeeper hmade

theorem buildParticle_inOrder (particle : Particle) (atLeast : Nat) :
    (buildParticle deeper context atLeast particle path).Ensures InOrder := by
  cases particle with
  | element node bounds => exact buildElement_inOrder hdeeper node bounds atLeast
  | group compositor node bounds =>
      refine inOrder_invariant.group
        (fun level hlevel _ _ member _ atLeast => (hdeeper level hlevel).particle _ _ _ _) ?_
      rintro state children last ⟨taken, htaken, hsources⟩
      refine ⟨taken, htaken, ?_⟩
      rw [groupForm, Form.sourcesOf_node]
      exact hsources
  | attributeUse node => exact fun state => buildAttribute_inOrder context node path _ state

end

theorem levelBelow_inOrder (depth : Nat) : ∀ level ∈ levelBelow depth, level.InOrder := by
  refine level_induction (fun deeper hdeeper => ⟨?_, ?_⟩) depth
  · intro context atLeast particle path
    exact buildParticle_inOrder hdeeper particle atLeast
  · intro context entry path occurrence
    exact inOrder_invariant.toAdditive.attributeEntry
      (fun _ => buildAttribute_inOrder _ _ _ _)
      fun level hlevel _ _ child _ => (hdeeper level hlevel).entry _ _ _ _

/-! ## Whole forms -/

theorem compileForm_sources {schema : Schema} {settings : Settings} {name : Option String}
    {document : Xml.Document} {forms : RootForms}
    (hforms : compileForm schema settings name (some document) = .ok forms) :
    (Form.sourcesOf (forms.root :: forms.surplus)).Sublist document.elements := by
  obtain ⟨element, root, after, -, hbuild, hroot⟩ := compileForm_eq_ok hforms
  obtain ⟨taken, htaken, hsources⟩ := buildElement_inOrder
    (levelBelow_inOrder settings.maxDepth) element .single 1 _ _ _ hbuild
  have hahead : document.roots = taken ++ after.ahead :=
    document.holder_elements.symm.trans htaken
  have hsame : Form.sourcesOf (forms.root :: forms.surplus) =
      Form.sourcesOf (root :: forms.surplus) := by
    rw [Form.sourcesOf_cons, hroot, Form.sourcesOf_remarkWith, ← Form.sourcesOf_cons]
  rw [hsame, Xml.Document.elements, hahead, List.map_append, Xml.descendantsOf_append]
  exact hsources.trans (List.sublist_append_left _ _)

def FormLabel.isFrom (number : Nat) (label : FormLabel) : Bool :=
  label.source.any (·.number == number)

/-- From one element of the instance at most one node is compiled. -/
theorem countP_isFrom_le_one {schema : Schema} {settings : Settings} {name : Option String}
    {document : Xml.Document} {forms : RootForms}
    (hforms : compileForm schema settings name (some document) = .ok forms) (number : Nat) :
    (Form.labelsOf (forms.root :: forms.surplus)).countP (·.isFrom number) ≤ 1 := by
  have hnumbers :
      ((Form.sourcesOf (forms.root :: forms.surplus)).map Xml.Element.number).Nodup := by
    refine ((compileForm_sources hforms).map _).nodup ?_
    rw [document.numbers_eq_range]
    exact List.nodup_range
  have hcount := List.nodup_iff_count_le_one.mp hnumbers number
  rw [List.count_eq_countP, List.countP_map, Form.sourcesOf, List.countP_filterMap] at hcount
  refine Nat.le_trans (Nat.le_of_eq (List.countP_congr fun label _ => ?_)) hcount
  cases hsource : label.source <;> simp [FormLabel.isFrom, hsource]

end SchemaForms
