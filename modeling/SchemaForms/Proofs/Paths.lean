import Mathlib.Data.List.Nodup
import Mathlib.Data.List.Perm.Basic
import SchemaForms.Proofs.Forms
import SchemaForms.Xml.Character

/-!
# Paths

The path of a node in the content of an element is the path of the element with
a step and a number. Steps hold no bracket, so the step and the number can be
read from the path. In a form whose contents are numbered from one on, for each
step on its own, no two nodes have the same path.
-/

namespace SchemaForms

/-! ## Steps -/

def IsStep (name : String) : Prop := '[' ∉ name.toList

theorem isNameChar_of_isNCName {name : String} (h : Xml.isNCName name = true) :
    ∀ c ∈ name.toList, Xml.isNameChar c = true := by
  obtain ⟨-, -, -, -, hchars⟩ := Xml.exists_of_isNCName h
  exact fun c hc => (hchars c hc).1

theorem isStep_of_isNCName {name : String} (h : Xml.isNCName name = true) : IsStep name := by
  intro hbracket
  have hname := isNameChar_of_isNCName h _ hbracket
  revert hname
  decide

theorem Compositor.isStep_step (compositor : Compositor) : IsStep compositor.step := by
  cases compositor <;> unfold IsStep <;> decide +kernel

theorem Compositor.step_not_isNCName (compositor : Compositor) :
    Xml.isNCName compositor.step = false := by
  cases compositor <;> decide +kernel

theorem Compositor.step_injective {first second : Compositor} (h : first.step = second.step) :
    first = second := by
  cases first <;> cases second <;> first | rfl | exact absurd h (by decide)

theorem toList_toString (number : Nat) : (toString number).toList = Nat.toDigits 10 number := by
  rw [Nat.toString_eq_ofList_toDigits, String.toList_ofList]

theorem not_mem_toString (number : Nat) {c : Char} (h : c.isDigit = false) :
    c ∉ (toString number).toList := by
  intro hc
  rw [toList_toString] at hc
  rw [Nat.isDigit_of_mem_toDigits (by decide) (by decide) hc] at h
  cases h

theorem toString_inj {number other : Nat}
    (h : (toString number).toList = (toString other).toList) : number = other := by
  rw [toList_toString, toList_toString] at h
  rw [← Nat.ofDigitChars_ten_toDigits (n := number), h, Nat.ofDigitChars_ten_toDigits]

/-! ## Reading a path -/

theorem takeWhile_append_of_not_mem {before rest : List Char} {mark : Char} (h : mark ∉ before) :
    (before ++ mark :: rest).takeWhile (· != mark) = before := by
  have hbefore : ∀ c ∈ before, (c != mark) = true := by
    intro c hc
    rw [bne_iff_ne]
    rintro rfl
    exact h hc
  rw [List.takeWhile_append_of_pos hbefore]
  simp

theorem append_mark_inj {before rest before' rest' : List Char} {mark : Char}
    (hbefore : mark ∉ before) (hbefore' : mark ∉ before')
    (h : before ++ mark :: rest = before' ++ mark :: rest') : before = before' ∧ rest = rest' := by
  have hsame := congrArg (List.takeWhile (· != mark)) h
  rw [takeWhile_append_of_not_mem hbefore, takeWhile_append_of_not_mem hbefore'] at hsame
  subst hsame
  exact ⟨rfl, (List.cons.inj (List.append_cancel_left h)).2⟩

theorem toList_placePath (path name : String) (place : Nat) :
    (placePath path name place).toList =
      path.toList ++ '/' :: (name.toList ++ '[' :: ((toString place).toList ++ [']'])) := by
  simp [placePath]

/-- Below one path, the step, the number and what follows can be read from a path. -/
theorem placePath_append_inj {path name name' rest rest' : String} {place place' : Nat}
    (hname : IsStep name) (hname' : IsStep name')
    (h : placePath path name place ++ rest = placePath path name' place' ++ rest') :
    name = name' ∧ place = place' ∧ rest = rest' := by
  have hlist := congrArg String.toList h
  simp only [String.toList_append, toList_placePath, List.append_assoc, List.cons_append,
    List.nil_append] at hlist
  have hsteps := (List.cons.inj (List.append_cancel_left hlist)).2
  obtain ⟨hsame, hnumbers⟩ := append_mark_inj hname hname' hsteps
  obtain ⟨hplace, hrest⟩ := append_mark_inj (not_mem_toString place (by decide))
    (not_mem_toString place' (by decide)) hnumbers
  exact ⟨String.toList_inj.mp hsame, toString_inj hplace,
    String.toList_inj.mp hrest⟩

theorem placePath_inj {path name name' : String} {place place' : Nat} (hname : IsStep name)
    (hname' : IsStep name') (h : placePath path name place = placePath path name' place') :
    name = name' ∧ place = place' := by
  have hends : placePath path name place ++ "" = placePath path name' place' ++ "" := by rw [h]
  obtain ⟨hsame, hplace, -⟩ := placePath_append_inj hname hname' hends
  exact ⟨hsame, hplace⟩

theorem getLast?_placePath (path name : String) (place : Nat) :
    (placePath path name place).toList.getLast? = some ']' := by
  have hend : (placePath path name place).toList =
      (path.toList ++ '/' :: (name.toList ++ '[' :: (toString place).toList)) ++ [']'] := by
    simp [placePath]
  rw [hend, List.getLast?_concat]

namespace Form

/-! ## Nodes -/

mutual
def nodes : Form → List Form
  | .node label children => .node label children :: nodesOf children

def nodesOf : List Form → List Form
  | [] => []
  | form :: rest => nodes form ++ nodesOf rest
end

theorem nodes_eq (form : Form) : form.nodes = form :: nodesOf form.children := by
  cases form
  rfl

theorem mem_nodes_self (form : Form) : form ∈ form.nodes := by
  rw [nodes_eq]
  exact List.mem_cons_self

theorem nodesOf_eq_flatMap (forms : List Form) : nodesOf forms = forms.flatMap nodes := by
  induction forms with
  | nil => rfl
  | cons form rest ih => simp [nodesOf, ih]

mutual
theorem nodes_trans {form node inner : Form} (hnode : node ∈ form.nodes)
    (hinner : inner ∈ node.nodes) : inner ∈ form.nodes := by
  cases form with
  | node label children =>
      rw [nodes, List.mem_cons] at hnode
      rcases hnode with rfl | hnode
      · exact hinner
      · exact List.mem_cons_of_mem _ (nodesOf_trans hnode hinner)

theorem nodesOf_trans {forms : List Form} {node inner : Form} (hnode : node ∈ nodesOf forms)
    (hinner : inner ∈ node.nodes) : inner ∈ nodesOf forms := by
  cases forms with
  | nil => cases hnode
  | cons form rest =>
      rw [nodesOf, List.mem_append] at hnode ⊢
      rcases hnode with hnode | hnode
      · exact .inl (nodes_trans hnode hinner)
      · exact .inr (nodesOf_trans hnode hinner)
end

mutual
theorem size_le_of_mem_nodes {form node : Form} (h : node ∈ form.nodes) :
    node.size ≤ form.size := by
  cases form with
  | node label children =>
      rw [nodes, List.mem_cons] at h
      rcases h with rfl | h
      · exact Nat.le_refl _
      · exact Nat.le_succ_of_le (size_le_of_mem_nodesOf h)

theorem size_le_of_mem_nodesOf {forms : List Form} {node : Form} (h : node ∈ nodesOf forms) :
    node.size ≤ sizeAll forms := by
  cases forms with
  | nil => cases h
  | cons form rest =>
      rw [nodesOf, List.mem_append] at h
      rw [sizeAll]
      rcases h with h | h
      · exact Nat.le_add_right_of_le (size_le_of_mem_nodes h)
      · exact Nat.le_add_left_of_le (size_le_of_mem_nodesOf h)
end

mutual
theorem labels_eq_map_nodes (form : Form) : form.labels = form.nodes.map label := by
  cases form with
  | node label children =>
      rw [labels, nodes, List.map_cons, labelsOf_eq_map_nodesOf children]
      rfl

theorem labelsOf_eq_map_nodesOf (forms : List Form) :
    labelsOf forms = (nodesOf forms).map label := by
  cases forms with
  | nil => rfl
  | cons form rest =>
      rw [labelsOf, nodesOf, List.map_append, labels_eq_map_nodes form,
        labelsOf_eq_map_nodesOf rest]
end

mutual
def placed : Form → List Form
  | .node label children =>
      match label.kind with
      | .element => [.node label children]
      | .attributeUse => []
      | .sequence | .choice => .node label children :: placedAll children

def placedAll : List Form → List Form
  | [] => []
  | form :: rest => placed form ++ placedAll rest
end

theorem placed_of_element {form : Form} (h : form.label.kind = .element) :
    form.placed = [form] := by
  obtain ⟨label, children⟩ := form
  simp only [Form.label] at h
  simp [placed, h]

theorem placedAll_eq_flatMap (forms : List Form) : placedAll forms = forms.flatMap placed := by
  induction forms with
  | nil => rfl
  | cons form rest ih => simp [placedAll, ih]

@[simp] theorem placedAll_append (first second : List Form) :
    placedAll (first ++ second) = placedAll first ++ placedAll second := by
  simp [placedAll_eq_flatMap]

mutual
theorem placed_sublist (form : Form) : form.placed.Sublist form.nodes := by
  cases form with
  | node label children =>
      have hchildren := placedAll_sublist children
      rw [nodes, placed]
      split
      · exact .cons_cons _ (List.nil_sublist _)
      · exact List.nil_sublist _
      · exact hchildren.cons_cons _
      · exact hchildren.cons_cons _

theorem placedAll_sublist (forms : List Form) : (placedAll forms).Sublist (nodesOf forms) := by
  cases forms with
  | nil => exact .slnil
  | cons form rest => exact (placed_sublist form).append (placedAll_sublist rest)
end

mutual
theorem kind_of_mem_placed {form node : Form} (h : node ∈ form.placed) :
    node.label.kind ≠ .attributeUse := by
  cases form with
  | node label children =>
      rw [placed] at h
      split at h <;> rename_i hkind
      · rw [List.mem_singleton.mp h, Form.label, hkind]
        decide
      · cases h
      all_goals
        rcases List.mem_cons.mp h with rfl | h
        · rw [Form.label, hkind]
          decide
        · exact kind_of_mem_placedAll h

theorem kind_of_mem_placedAll {forms : List Form} {node : Form} (h : node ∈ placedAll forms) :
    node.label.kind ≠ .attributeUse := by
  cases forms with
  | nil => cases h
  | cons form rest =>
      rw [placedAll, List.mem_append] at h
      rcases h with h | h
      · exact kind_of_mem_placed h
      · exact kind_of_mem_placedAll h
end

def pathsOf (kind : FormKind) (tag : String) (forms : List Form) : List String :=
  ((placedAll forms).filter fun node => node.label.kind == kind && node.label.tag == tag).map
    (·.label.path)

@[simp] theorem pathsOf_append (kind : FormKind) (tag : String) (first second : List Form) :
    pathsOf kind tag (first ++ second) = pathsOf kind tag first ++ pathsOf kind tag second := by
  simp [pathsOf]

theorem pathsOf_map_mapOptions (kind : FormKind) (tag : String) (change : Options → Options)
    (forms : List Form) :
    pathsOf kind tag (forms.map (·.mapOptions change)) = pathsOf kind tag forms := by
  induction forms with
  | nil => rfl
  | cons form rest ih =>
      have hfirst : pathsOf kind tag [form.mapOptions change] = pathsOf kind tag [form] := by
        obtain ⟨label, children⟩ := form
        cases hkind : label.kind <;>
          simp [pathsOf, placedAll, mapOptions, mapLabel, placed, hkind, Form.label,
            List.filter_cons] <;> split <;> rfl
      have happend := pathsOf_append kind tag [form.mapOptions change]
      rw [List.map_cons, ← List.singleton_append, happend, hfirst, ih, ← pathsOf_append,
        List.singleton_append]

end Form

def stepName (kind : FormKind) (tag : String) : String :=
  if kind = .element then tag else "#" ++ tag

def numberedPaths (path step : String) (start count : Nat) : List String :=
  (List.range' (start + 1) count).map (placePath path step)

theorem numberedPaths_append (path step : String) (start count more : Nat) :
    numberedPaths path step start count ++ numberedPaths path step (start + count) more =
      numberedPaths path step start (count + more) := by
  rw [numberedPaths, numberedPaths, numberedPaths, ← List.map_append,
    show start + count + 1 = start + 1 + count by omega, List.range'_append_1]

theorem nodup_numberedPaths {step : String} (h : IsStep step) (path : String)
    (start count : Nat) : (numberedPaths path step start count).Nodup :=
  (List.nodup_range' 1).map fun _ _ hsame => (placePath_inj h h hsame).2

theorem exists_of_mem_numberedPaths {path step found : String} {start count : Nat}
    (h : found ∈ numberedPaths path step start count) :
    ∃ place, found = placePath path step place := by
  obtain ⟨place, -, rfl⟩ := List.mem_map.mp h
  exact ⟨place, rfl⟩

/-! ## Numbered forms -/

def FormLabel.WellNamed (label : FormLabel) : Prop :=
  match label.kind with
  | .element => Xml.isNCName label.tag = true
  | .attributeUse =>
      Xml.isNCName label.tag = true ∧ ∃ path, label.path = path ++ "/@" ++ label.tag
  | .sequence => label.tag = Compositor.sequence.label
  | .choice => label.tag = Compositor.choice.label

theorem FormLabel.WellNamed.cases {label : FormLabel} (h : label.WellNamed)
    (hkind : label.kind ≠ .attributeUse) :
    (label.kind = .element ∧ Xml.isNCName label.tag = true) ∨
      ∃ compositor : Compositor, label.kind = compositor.kind ∧ label.tag = compositor.label := by
  unfold WellNamed at h
  split at h
  · rename_i hlabel
    exact .inl ⟨hlabel, h⟩
  · rename_i hlabel
    exact absurd hlabel hkind
  · rename_i hlabel
    exact .inr ⟨.sequence, hlabel, h⟩
  · rename_i hlabel
    exact .inr ⟨.choice, hlabel, h⟩

@[simp] theorem stepName_element (tag : String) : stepName .element tag = tag := rfl

@[simp] theorem stepName_group (compositor : Compositor) :
    stepName compositor.kind compositor.label = compositor.step := by
  cases compositor <;> rfl

theorem FormLabel.WellNamed.isStep {label : FormLabel} (h : label.WellNamed)
    (hkind : label.kind ≠ .attributeUse) : IsStep (stepName label.kind label.tag) := by
  rcases h.cases hkind with ⟨hlabel, htag⟩ | ⟨compositor, hlabel, htag⟩
  · rw [hlabel, stepName_element]
    exact isStep_of_isNCName htag
  · rw [hlabel, htag, stepName_group]
    exact compositor.isStep_step

theorem FormLabel.WellNamed.eq_of_stepName_eq {label other : FormLabel} (h : label.WellNamed)
    (hother : other.WellNamed) (hkind : label.kind ≠ .attributeUse)
    (hotherKind : other.kind ≠ .attributeUse)
    (hstep : stepName label.kind label.tag = stepName other.kind other.tag) :
    label.kind = other.kind ∧ label.tag = other.tag := by
  rcases h.cases hkind with ⟨hlabel, htag⟩ | ⟨compositor, hlabel, htag⟩ <;>
    rcases hother.cases hotherKind with ⟨hlabel', htag'⟩ | ⟨compositor', hlabel', htag'⟩ <;>
    rw [hlabel, hlabel'] at hstep ⊢
  · exact ⟨rfl, hstep⟩
  · rw [htag', stepName_group, stepName_element] at hstep
    rw [hstep, compositor'.step_not_isNCName] at htag
    cases htag
  · rw [htag, stepName_group, stepName_element] at hstep
    rw [← hstep, compositor.step_not_isNCName] at htag'
    cases htag'
  · rw [htag, htag', stepName_group, stepName_group] at hstep
    rw [htag, htag', Compositor.step_injective hstep]
    exact ⟨rfl, rfl⟩

namespace Form

/-- In the content of the node, the elements of one tag are numbered from one on in their
order, and so are the groups of each kind in some order. -/
structure ContentNumbered (form : Form) : Prop where
  elements : ∀ tag, pathsOf .element tag form.children =
    numberedPaths form.label.path tag 0 (pathsOf .element tag form.children).length
  groups : ∀ compositor : Compositor,
    (pathsOf compositor.kind compositor.label form.children).Perm
      (numberedPaths form.label.path compositor.step 0
        (pathsOf compositor.kind compositor.label form.children).length)

structure Numbered (form : Form) : Prop where
  wellNamed : ∀ node ∈ form.nodes, node.label.WellNamed
  attributes : ∀ node ∈ form.nodes, node.label.kind = .attributeUse → node.children = []
  contents : ∀ node ∈ form.nodes, node.label.kind = .element → node.ContentNumbered

theorem Numbered.of_mem {form node : Form} (h : form.Numbered) (hnode : node ∈ form.nodes) :
    node.Numbered where
  wellNamed := fun inner hinner => h.wellNamed inner (nodes_trans hnode hinner)
  attributes := fun inner hinner => h.attributes inner (nodes_trans hnode hinner)
  contents := fun inner hinner => h.contents inner (nodes_trans hnode hinner)

theorem numbered_node {label : FormLabel} {children : List Form} :
    (node label children).Numbered ↔ label.WellNamed ∧
      (label.kind = .attributeUse → children = []) ∧
      (label.kind = .element → (node label children).ContentNumbered) ∧
      ∀ child ∈ children, child.Numbered := by
  constructor
  · intro h
    refine ⟨h.wellNamed _ (mem_nodes_self _), h.attributes _ (mem_nodes_self _),
      h.contents _ (mem_nodes_self _), fun child hchild => h.of_mem ?_⟩
    rw [nodes, nodesOf_eq_flatMap]
    exact List.mem_cons_of_mem _ (List.mem_flatMap.mpr ⟨child, hchild, mem_nodes_self child⟩)
  · rintro ⟨hlabel, hattribute, hcontent, hchildren⟩
    have hbelow : ∀ inner ∈ nodesOf children, ∃ child ∈ children, inner ∈ child.nodes := by
      intro inner hinner
      rw [nodesOf_eq_flatMap] at hinner
      exact List.mem_flatMap.mp hinner
    constructor <;> intro inner hinner <;> rw [nodes, List.mem_cons] at hinner <;>
      rcases hinner with rfl | hinner
    · exact hlabel
    · obtain ⟨child, hchild, hin⟩ := hbelow inner hinner
      exact (hchildren child hchild).wellNamed inner hin
    · exact hattribute
    · obtain ⟨child, hchild, hin⟩ := hbelow inner hinner
      exact (hchildren child hchild).attributes inner hin
    · exact hcontent
    · obtain ⟨child, hchild, hin⟩ := hbelow inner hinner
      exact (hchildren child hchild).contents inner hin

/-! ## Paths are keys -/

section

variable {form : Form}

theorem Numbered.placed (h : form.Numbered) {node : Form} (hnode : node ∈ placedAll form.children) :
    node.Numbered := by
  refine h.of_mem ?_
  rw [nodes_eq]
  exact List.mem_cons_of_mem _ ((placedAll_sublist _).subset hnode)

theorem Numbered.pathsOf_perm (h : form.Numbered) (hkind : form.label.kind = .element)
    {node : Form} (hnode : node ∈ placedAll form.children) :
    (pathsOf node.label.kind node.label.tag form.children).Perm
      (numberedPaths form.label.path (stepName node.label.kind node.label.tag) 0
        (pathsOf node.label.kind node.label.tag form.children).length) := by
  have hcontent := h.contents form (mem_nodes_self form) hkind
  have hlabel := (h.placed hnode).wellNamed node (mem_nodes_self node)
  rcases hlabel.cases (kind_of_mem_placedAll hnode) with ⟨helement, -⟩ | ⟨compositor, hgroup, htag⟩
  · rw [helement, stepName_element]
    exact .of_eq (hcontent.elements _)
  · rw [hgroup, htag, stepName_group]
    exact hcontent.groups compositor

theorem mem_pathsOf {forms : List Form} {node : Form} (hnode : node ∈ placedAll forms) :
    node.label.path ∈ pathsOf node.label.kind node.label.tag forms :=
  List.mem_map_of_mem (List.mem_filter.mpr ⟨hnode, by simp⟩)

theorem Numbered.exists_place (h : form.Numbered) (hkind : form.label.kind = .element)
    {node : Form} (hnode : node ∈ placedAll form.children) :
    ∃ place, node.label.path =
      placePath form.label.path (stepName node.label.kind node.label.tag) place :=
  exists_of_mem_numberedPaths ((h.pathsOf_perm hkind hnode).mem_iff.mp (mem_pathsOf hnode))

theorem Numbered.isStep (h : form.Numbered) {node : Form}
    (hnode : node ∈ placedAll form.children) :
    IsStep (stepName node.label.kind node.label.tag) :=
  ((h.placed hnode).wellNamed node (mem_nodes_self node)).isStep (kind_of_mem_placedAll hnode)

theorem Numbered.path_eq_of_append_eq (h : form.Numbered) (hkind : form.label.kind = .element)
    {first second : Form} (hfirst : first ∈ placedAll form.children)
    (hsecond : second ∈ placedAll form.children) {rest rest' : String}
    (hsame : first.label.path ++ rest = second.label.path ++ rest') :
    first.label.path = second.label.path ∧ first.label.kind = second.label.kind ∧
      first.label.tag = second.label.tag := by
  obtain ⟨place, hplace⟩ := h.exists_place hkind hfirst
  obtain ⟨place', hplace'⟩ := h.exists_place hkind hsecond
  rw [hplace, hplace'] at hsame
  obtain ⟨hstep, rfl, -⟩ := placePath_append_inj (h.isStep hfirst) (h.isStep hsecond) hsame
  obtain ⟨hkinds, htags⟩ := FormLabel.WellNamed.eq_of_stepName_eq
    ((h.placed hfirst).wellNamed first (mem_nodes_self first))
    ((h.placed hsecond).wellNamed second (mem_nodes_self second))
    (kind_of_mem_placedAll hfirst) (kind_of_mem_placedAll hsecond) hstep
  exact ⟨by rw [hplace, hplace', hstep], hkinds, htags⟩

theorem Numbered.nodup_placed (h : form.Numbered) (hkind : form.label.kind = .element) :
    ((placedAll form.children).map (·.label.path)).Nodup := by
  rw [List.nodup_iff_count_le_one]
  intro path
  by_cases hpath : path ∈ (placedAll form.children).map (·.label.path)
  · -- All nodes with this path have one step, and there they are numbered.
    obtain ⟨node, hnode, rfl⟩ := List.mem_map.mp hpath
    have hnodup : (pathsOf node.label.kind node.label.tag form.children).Nodup :=
      (h.pathsOf_perm hkind hnode).nodup_iff.mpr (nodup_numberedPaths (h.isStep hnode) _ _ _)
    refine Nat.le_trans (Nat.le_of_eq ?_) (List.nodup_iff_count_le_one.mp hnodup node.label.path)
    rw [pathsOf, List.count_eq_countP, List.count_eq_countP, List.countP_map, List.countP_map,
      List.countP_filter]
    refine List.countP_congr fun other hother => ?_
    simp only [Function.comp, beq_iff_eq, Bool.and_eq_true]
    refine ⟨fun hsame => ?_, fun hsame => hsame.1⟩
    have hends : other.label.path ++ "" = node.label.path ++ "" := by rw [hsame]
    obtain ⟨-, hkinds, htags⟩ := h.path_eq_of_append_eq hkind hother hnode hends
    exact ⟨hsame, hkinds, htags⟩
  · rw [List.count_eq_zero_of_not_mem hpath]
    exact Nat.zero_le 1

end

def isKeyed (form : Form) : Bool := form.label.kind != .attributeUse

def pathsBelow (form : Form) : List String :=
  ((nodesOf form.children).filter isKeyed).map (·.label.path)

def withBelow (node : Form) : List Form :=
  node :: if node.label.kind = .element then (nodesOf node.children).filter isKeyed else []

mutual
theorem nodes_filter_isKeyed {form : Form} (h : form.Numbered) :
    form.nodes.filter isKeyed = form.placed.flatMap withBelow := by
  cases form with
  | node label children =>
      obtain ⟨-, hattribute, -, hchildren⟩ := numbered_node.mp h
      have hbelow := nodesOf_filter_isKeyed hchildren
      cases hkind : label.kind
      case attributeUse =>
        simp [nodes, placed, isKeyed, Form.label, hkind, hattribute hkind, nodesOf]
      all_goals
        simp [nodes, placed, isKeyed, Form.label, Form.children, hkind, withBelow, hbelow]

theorem nodesOf_filter_isKeyed {forms : List Form} (h : ∀ form ∈ forms, form.Numbered) :
    (nodesOf forms).filter isKeyed = (placedAll forms).flatMap withBelow := by
  cases forms with
  | nil => rfl
  | cons form rest =>
      rw [List.forall_mem_cons] at h
      rw [nodesOf, placedAll, List.filter_append, List.flatMap_append, nodes_filter_isKeyed h.1,
        nodesOf_filter_isKeyed h.2]
end

theorem eq_empty_of_eq_append {path rest : String} (h : path = path ++ rest) : rest = "" :=
  (String.append_right_inj path).mp (by rw [← h, String.append_empty])

/-- What holds of an element if it holds of the elements in its content holds of every
element of a numbered form. -/
@[elab_as_elim]
theorem Numbered.element_induction {motive : Form → Prop} {form : Form} (h : form.Numbered)
    (hkind : form.label.kind = .element)
    (step : ∀ form : Form, form.Numbered → form.label.kind = .element →
      (∀ node ∈ placedAll form.children, node.label.kind = .element → motive node) → motive form) :
    motive form := by
  induction hsize : form.size using Nat.strongRecOn generalizing form with
  | ind size ih =>
      refine step form h hkind fun node hnode helement =>
        ih node.size ?_ (h.placed hnode) helement rfl
      have hle := size_le_of_mem_nodesOf ((placedAll_sublist form.children).subset hnode)
      obtain ⟨label, children⟩ := form
      rw [← hsize, Form.size]
      exact Nat.lt_succ_of_le hle

def ownPaths (node : Form) : List String :=
  node.label.path :: if node.label.kind = .element then node.pathsBelow else []

theorem mem_ownPaths {node : Form} {path : String} :
    path ∈ node.ownPaths ↔
      path = node.label.path ∨ (node.label.kind = .element ∧ path ∈ node.pathsBelow) := by
  rw [ownPaths, List.mem_cons]
  split <;> simp [*]

theorem Numbered.pathsBelow_eq {form : Form} (h : form.Numbered) :
    form.pathsBelow = (placedAll form.children).flatMap ownPaths := by
  have hchildren : ∀ child ∈ form.children, child.Numbered := by
    obtain ⟨label, children⟩ := form
    exact (numbered_node.mp h).2.2.2
  rw [pathsBelow, nodesOf_filter_isKeyed hchildren, List.map_flatMap]
  refine List.flatMap_congr fun node _ => ?_
  rw [withBelow, ownPaths, List.map_cons]
  split <;> rfl

def Extended (form : Form) (paths : List String) : Prop :=
  ∀ path ∈ paths, ∃ rest, rest ≠ "" ∧ path = form.label.path ++ rest

theorem exists_append_of_mem_ownPaths {node : Form}
    (hbelow : node.label.kind = .element → node.Extended node.pathsBelow) {path : String}
    (hpath : path ∈ node.ownPaths) : ∃ rest, path = node.label.path ++ rest := by
  rcases mem_ownPaths.mp hpath with rfl | ⟨helement, hpath⟩
  · exact ⟨"", by simp⟩
  · obtain ⟨rest, -, hrest⟩ := hbelow helement path hpath
    exact ⟨rest, hrest⟩

theorem Numbered.extended_pathsBelow {form : Form} (h : form.Numbered)
    (hkind : form.label.kind = .element) : form.Extended form.pathsBelow := by
  refine h.element_induction hkind fun form h hkind ih path hpath => ?_
  rw [h.pathsBelow_eq, List.mem_flatMap] at hpath
  obtain ⟨node, hnode, hpath⟩ := hpath
  obtain ⟨rest, rfl⟩ := exists_append_of_mem_ownPaths (ih node hnode) hpath
  obtain ⟨place, hplace⟩ := h.exists_place hkind hnode
  rw [hplace, placePath]
  refine ⟨"/" ++ stepName node.label.kind node.label.tag ++ "[" ++ toString place ++ "]" ++
    rest, fun hempty => ?_, by simp only [String.append_assoc]⟩
  have hlength := congrArg (fun text => text.toList.length) hempty
  simp at hlength

theorem Numbered.path_notMem_pathsBelow {form : Form} (h : form.Numbered)
    (hkind : form.label.kind = .element) : form.label.path ∉ form.pathsBelow := by
  intro hself
  obtain ⟨rest, hrest, hpath⟩ := h.extended_pathsBelow hkind _ hself
  exact hrest (eq_empty_of_eq_append hpath)

theorem Numbered.nodup_pathsBelow {form : Form} (h : form.Numbered)
    (hkind : form.label.kind = .element) : form.pathsBelow.Nodup := by
  refine h.element_induction hkind fun form h hkind ih => ?_
  rw [h.pathsBelow_eq, List.nodup_flatMap]
  constructor
  · intro node hnode
    rw [ownPaths]
    split
    · rename_i helement
      exact List.nodup_cons.mpr
        ⟨(h.placed hnode).path_notMem_pathsBelow helement, ih node hnode helement⟩
    · exact List.nodup_singleton _
  · -- What extends the paths of two nodes of one content differs where these differ.
    have hdifferent := List.pairwise_map.mp (h.nodup_placed hkind)
    refine hdifferent.imp_of_mem fun hfirst hsecond hne path hpath hpath' => hne ?_
    obtain ⟨rest, rfl⟩ := exists_append_of_mem_ownPaths (h.placed hfirst).extended_pathsBelow hpath
    obtain ⟨rest', hsame⟩ :=
      exists_append_of_mem_ownPaths (h.placed hsecond).extended_pathsBelow hpath'
    exact (h.path_eq_of_append_eq hkind hfirst hsecond hsame).1

theorem Numbered.getLast?_of_mem_pathsBelow {form : Form} (h : form.Numbered)
    (hkind : form.label.kind = .element) :
    ∀ path ∈ form.pathsBelow, path.toList.getLast? = some ']' := by
  refine h.element_induction hkind fun form h hkind ih path hpath => ?_
  rw [h.pathsBelow_eq, List.mem_flatMap] at hpath
  obtain ⟨node, hnode, hpath⟩ := hpath
  rcases mem_ownPaths.mp hpath with rfl | ⟨helement, hpath⟩
  · obtain ⟨place, hplace⟩ := h.exists_place hkind hnode
    rw [hplace, getLast?_placePath]
  · exact ih node hnode helement path hpath

/-- No two elements or groups of a form have the same path. -/
theorem Numbered.nodup_paths {form : Form} (h : form.Numbered)
    (hkind : form.label.kind = .element) :
    ((form.nodes.filter isKeyed).map (·.label.path)).Nodup := by
  have hkeyed : form.isKeyed = true := by simp [isKeyed, hkind]
  rw [nodes_eq, List.filter_cons_of_pos hkeyed, List.map_cons]
  exact List.nodup_cons.mpr ⟨h.path_notMem_pathsBelow hkind, h.nodup_pathsBelow hkind⟩

theorem Numbered.getLast?_path {form : Form} (h : form.Numbered)
    (hkind : form.label.kind = .element) (hroot : form.label.path.toList.getLast? = some ']')
    {node : Form} (hnode : node ∈ form.nodes) (hkeyed : node.isKeyed = true) :
    node.label.path.toList.getLast? = some ']' := by
  rw [nodes_eq, List.mem_cons] at hnode
  rcases hnode with rfl | hnode
  · exact hroot
  · exact h.getLast?_of_mem_pathsBelow hkind _
      (List.mem_map_of_mem (List.mem_filter.mpr ⟨hnode, hkeyed⟩))

end Form

theorem FormLabel.WellNamed.getLast?_path {label : FormLabel} (h : label.WellNamed)
    (hkind : label.kind = .attributeUse) : label.path.toList.getLast? ≠ some ']' := by
  intro hlast
  simp only [FormLabel.WellNamed, hkind] at h
  obtain ⟨hname, path, hpath⟩ := h
  rw [hpath, String.toList_append, List.getLast?_append] at hlast
  cases htag : label.tag.toList.getLast? with
  | none =>
      rw [List.getLast?_eq_none_iff] at htag
      rw [Xml.isNCName, htag] at hname
      cases hname
  | some last =>
      rw [htag, Option.some_or, Option.some.injEq] at hlast
      have hin := isNameChar_of_isNCName hname last (List.mem_of_getLast? htag)
      rw [hlast] at hin
      revert hin
      decide

end SchemaForms
