import Mathlib.Data.List.Basic
import SchemaForms.Form.Arena

/-!
# Forms in an arena

Inserting a form adds its nodes behind those of the arena and changes none of
them. What is added depends on the arena only through its size: all numbers are
moved by it. The form can be read back from the number it was given, and its
nodes are visited in the order of its labels.
-/

namespace SchemaForms

def FormId.behind (count : Nat) (id : FormId) : FormId := ⟨count + id.index⟩

def Cell.behind (count : Nat) (cell : Cell) : Cell :=
  { cell with children := cell.children.map (FormId.behind count) }

namespace Arena

/-! ## Two arenas as one -/

def join (first second : Arena) : Arena :=
  ⟨first.cells ++ second.cells.map (Cell.behind first.size)⟩

@[simp] theorem join_empty (arena : Arena) : arena.join empty = arena := by
  simp [join, empty]

@[simp] theorem size_join (first second : Arena) :
    (first.join second).size = first.size + second.size := by
  simp [join, size]

theorem cell?_join_of_lt (first second : Arena) {id : FormId} (h : id.index < first.size) :
    (first.join second).cell? id = first.cell? id := by
  have hin : id.index < first.cells.size := h
  simp only [cell?, join, Array.getElem?_append, hin, if_true]

theorem cell?_join_behind (first second : Arena) (id : FormId) :
    (first.join second).cell? (id.behind first.size) =
      (second.cell? id).map (Cell.behind first.size) := by
  have hbehind : ¬first.cells.size + id.index < first.cells.size := by omega
  simp [cell?, join, FormId.behind, size, Array.getElem?_append, hbehind]

theorem append_join (first second : Arena) (cell : Cell) :
    (first.join second).append (cell.behind first.size) =
      (first.join (second.append cell).1, (second.append cell).2.behind first.size) := by
  simp [append, join, size, FormId.behind]

mutual
theorem insert_join (first second : Arena) (form : Form) :
    (first.join second).insert form =
      (first.join (second.insert form).1, (second.insert form).2.behind first.size) := by
  cases form with
  | node label children =>
      simp only [insert, insertAll_join first second children]
      exact append_join first _ ⟨label, (second.insertAll children).2⟩

theorem insertAll_join (first second : Arena) (forms : List Form) :
    (first.join second).insertAll forms =
      (first.join (second.insertAll forms).1,
        (second.insertAll forms).2.map (FormId.behind first.size)) := by
  cases forms with
  | nil => rfl
  | cons form rest =>
      simp only [insertAll, insert_join first second form,
        insertAll_join first (second.insert form).1 rest, List.map_cons]
end

theorem insertAll_append (arena : Arena) (forms more : List Form) :
    arena.insertAll (forms ++ more) =
      (((arena.insertAll forms).1.insertAll more).1,
        (arena.insertAll forms).2 ++ ((arena.insertAll forms).1.insertAll more).2) := by
  induction forms generalizing arena with
  | nil => rfl
  | cons form rest ih => simp only [List.cons_append, insertAll, ih]

/-! ## Arenas that have grown -/

def Grows (earlier later : Arena) : Prop := ∃ added, later.cells = earlier.cells ++ added

theorem Grows.refl (arena : Arena) : arena.Grows arena := ⟨#[], by simp⟩

theorem Grows.trans {first second third : Arena} (h : first.Grows second)
    (hmore : second.Grows third) : first.Grows third := by
  obtain ⟨added, hadded⟩ := h
  obtain ⟨more, hmore⟩ := hmore
  exact ⟨added ++ more, by rw [hmore, hadded, Array.append_assoc]⟩

theorem Grows.size_le {earlier later : Arena} (h : earlier.Grows later) :
    earlier.size ≤ later.size := by
  obtain ⟨added, hadded⟩ := h
  simp [size, hadded]

theorem Grows.cell? {earlier later : Arena} (h : earlier.Grows later) {id : FormId} {cell : Cell}
    (hcell : earlier.cell? id = some cell) : later.cell? id = some cell := by
  obtain ⟨added, hadded⟩ := h
  obtain ⟨hin, -⟩ := Array.getElem?_eq_some_iff.mp hcell
  rw [Arena.cell?, hadded, Array.getElem?_append_left hin]
  exact hcell

theorem grows_append (arena : Arena) (cell : Cell) : arena.Grows (arena.append cell).1 :=
  ⟨#[cell], by simp [append]⟩

mutual
theorem grows_insert (arena : Arena) (form : Form) : arena.Grows (arena.insert form).1 := by
  cases form with
  | node label children => exact (grows_insertAll arena children).trans (grows_append _ _)

theorem grows_insertAll (arena : Arena) (forms : List Form) :
    arena.Grows (arena.insertAll forms).1 := by
  cases forms with
  | nil => exact .refl arena
  | cons form rest => exact (grows_insert arena form).trans (grows_insertAll _ rest)
end

/-! ## Children before their parents -/

theorem index_append (arena : Arena) (cell : Cell) :
    (arena.append cell).2.index = arena.size := rfl

theorem index_insert (arena : Arena) (form : Form) :
    (arena.insert form).2.index + 1 = (arena.insert form).1.size := by
  cases form with
  | node label children => rw [insert, index_append, size_append]

theorem index_insert_lt (arena : Arena) (form : Form) :
    (arena.insert form).2.index < (arena.insert form).1.size :=
  Nat.lt_of_succ_le (Nat.le_of_eq (index_insert arena form))

theorem index_insertAll_lt (arena : Arena) (forms : List Form) :
    ∀ id ∈ (arena.insertAll forms).2, id.index < (arena.insertAll forms).1.size := by
  induction forms generalizing arena with
  | nil => simp [insertAll]
  | cons form rest ih =>
      intro id hid
      rw [insertAll, List.mem_cons] at hid
      rcases hid with rfl | hid
      · exact Nat.lt_of_lt_of_le (index_insert_lt arena form) (grows_insertAll _ rest).size_le
      · exact ih _ id hid

/-- The children of every node have smaller numbers. -/
def Ordered (arena : Arena) : Prop :=
  ∀ id cell, arena.cell? id = some cell → ∀ child ∈ cell.children, child.index < id.index

theorem ordered_empty : empty.Ordered := by
  intro id cell hcell
  simp [cell?, empty] at hcell

theorem Ordered.append {arena : Arena} (h : arena.Ordered) {cell : Cell}
    (hcell : ∀ child ∈ cell.children, child.index < arena.size) :
    (arena.append cell).1.Ordered := by
  intro id found hfound child hchild
  by_cases hin : id.index < arena.size
  · rw [cell?_append_of_lt arena cell hin] at hfound
    exact h id found hfound child hchild
  · obtain ⟨hlast, -⟩ := Array.getElem?_eq_some_iff.mp hfound
    have hid : id = (arena.append cell).2 := by
      have hsize : id.index < arena.size + 1 := size_append arena cell ▸ hlast
      have hindex : id.index = arena.size := by omega
      obtain ⟨index⟩ := id
      exact congrArg FormId.mk hindex
    rw [hid, cell?_append_self, Option.some.injEq] at hfound
    rw [hid, index_append]
    exact hcell child (hfound ▸ hchild)

mutual
theorem Ordered.insert {arena : Arena} (h : arena.Ordered) (form : Form) :
    (arena.insert form).1.Ordered := by
  cases form with
  | node label children =>
      exact (h.insertAll children).append (index_insertAll_lt arena children)

theorem Ordered.insertAll {arena : Arena} (h : arena.Ordered) (forms : List Form) :
    (arena.insertAll forms).1.Ordered := by
  cases forms with
  | nil => exact h
  | cons form rest => exact (h.insert form).insertAll rest
end

theorem Ordered.children_lt {arena : Arena} (h : arena.Ordered) {id child : FormId}
    (hchild : child ∈ arena.children id) : child.index < id.index := by
  rw [children] at hchild
  cases hcell : arena.cell? id with
  | none => simp [hcell] at hchild
  | some cell =>
      rw [hcell] at hchild
      exact h id cell hcell child hchild

/-! ## Nodes that are changed -/

section

variable (arena : Arena) (change : FormLabel → FormLabel)

@[simp] theorem size_relabel (id : FormId) : (arena.relabel id change).size = arena.size := by
  simp [relabel, size]

theorem relabel_append_self (label : FormLabel) (children : List FormId) :
    (arena.append ⟨label, children⟩).1.relabel (arena.append ⟨label, children⟩).2 change =
      (arena.append ⟨change label, children⟩).1 := by
  refine congrArg Arena.mk (Array.ext_getElem? fun index => ?_)
  simp only [append, size, Array.getElem?_modify, Array.getElem?_push]
  by_cases hlast : index = arena.cells.size
  · simp [hlast]
  · simp [hlast, Ne.symm hlast]

theorem append_relabel {id : FormId} (h : id.index < arena.size) (cell : Cell) :
    (arena.relabel id change).append cell =
      ((arena.append cell).1.relabel id change, (arena.append cell).2) := by
  refine Prod.ext (congrArg Arena.mk (Array.ext_getElem? fun index => ?_))
    (congrArg FormId.mk (size_relabel arena change id))
  have hne : id.index ≠ arena.cells.size := Nat.ne_of_lt h
  simp only [append, relabel, Array.getElem?_modify, Array.getElem?_push, Array.size_modify]
  by_cases hlast : index = arena.cells.size
  · simp [hlast, hne]
  · simp [hlast]

mutual
theorem insert_relabel (arena : Arena) (change : FormLabel → FormLabel) {id : FormId}
    (h : id.index < arena.size) (form : Form) :
    (arena.relabel id change).insert form =
      ((arena.insert form).1.relabel id change, (arena.insert form).2) := by
  cases form with
  | node label children =>
      have hlater := Nat.lt_of_lt_of_le h (grows_insertAll arena children).size_le
      simp only [insert, insertAll_relabel arena change h children, append_relabel _ change hlater]

theorem insertAll_relabel (arena : Arena) (change : FormLabel → FormLabel) {id : FormId}
    (h : id.index < arena.size) (forms : List Form) :
    (arena.relabel id change).insertAll forms =
      ((arena.insertAll forms).1.relabel id change, (arena.insertAll forms).2) := by
  cases forms with
  | nil => rfl
  | cons form rest =>
      have hlater := Nat.lt_of_lt_of_le h (grows_insert arena form).size_le
      simp only [insertAll, insert_relabel arena change h form,
        insertAll_relabel _ change hlater rest]
end

theorem insert_mapLabel (form : Form) :
    arena.insert (form.mapLabel change) =
      ((arena.insert form).1.relabel (arena.insert form).2 change, (arena.insert form).2) := by
  cases form with
  | node label children =>
      exact Prod.ext (relabel_append_self _ change label _).symm rfl

theorem insertAll_mapLabel (forms : List Form) :
    arena.insertAll (forms.map (·.mapLabel change)) =
      ((arena.insertAll forms).2.foldl (fun arena id => arena.relabel id change)
        (arena.insertAll forms).1, (arena.insertAll forms).2) := by
  induction forms generalizing arena with
  | nil => rfl
  | cons form rest ih =>
      simp only [List.map_cons, insertAll, insert_mapLabel, ih, List.foldl_cons,
        insertAll_relabel _ change (index_insert_lt arena form)]

theorem snd_insertAll_mapLabel (forms : List Form) :
    (arena.insertAll (forms.map (·.mapLabel change))).2 = (arena.insertAll forms).2 := by
  rw [insertAll_mapLabel]

end

/-! ## Traversals -/

section

variable {arena : Arena}

/-- More levels than the position of a node make no difference. -/
theorem Ordered.preorderWithin_eq (h : arena.Ordered) {levels : Nat} {id : FormId}
    (hid : id.index < levels) : arena.preorderWithin levels id = arena.preorder id := by
  induction levels using Nat.strongRecOn generalizing id with
  | ind levels ih =>
      obtain ⟨left, rfl⟩ := Nat.exists_eq_add_of_lt hid
      simp only [preorder, preorderWithin]
      refine congrArg (id :: ·) (List.flatMap_congr fun child hchild => ?_)
      have hchild := h.children_lt hchild
      rw [ih (id.index + left) (by omega) (by omega), ih id.index (by omega) hchild]

/-- A node comes before its children and what is below them. -/
theorem Ordered.preorder_eq (h : arena.Ordered) (id : FormId) :
    arena.preorder id = id :: (arena.children id).flatMap arena.preorder := by
  rw [preorder, preorderWithin]
  exact congrArg (id :: ·)
    (List.flatMap_congr fun child hchild => h.preorderWithin_eq (h.children_lt hchild))

theorem visitsWithin_eq_length (arena : Arena) (levels : Nat) (id : FormId) :
    arena.visitsWithin levels id = (arena.preorderWithin levels id).length := by
  induction levels generalizing id with
  | zero => rfl
  | succ levels ih =>
      have hvisits : arena.visitsWithin (levels + 1) id =
          ((arena.children id).map (arena.visitsWithin levels)).sum + 1 := rfl
      rw [hvisits, preorderWithin, List.length_cons, List.length_flatMap]
      exact congrArg (fun visits => List.sum visits + 1)
        (List.map_congr_left fun child _ => ih child)

/-- With a stack, the nodes on it are visited one after the other, each with all below it. -/
theorem Ordered.visit_eq (h : arena.Ordered) {fuel : Nat} {stack : List FormId}
    (henough : (stack.flatMap arena.preorder).length ≤ fuel) :
    arena.visit fuel stack = stack.flatMap arena.preorder := by
  induction fuel generalizing stack with
  | zero => exact (List.eq_nil_of_length_eq_zero (Nat.le_zero.mp henough)).symm
  | succ fuel ih =>
      cases stack with
      | nil => rfl
      | cons id stack =>
          have hnext : (id :: stack).flatMap arena.preorder =
              id :: (arena.children id ++ stack).flatMap arena.preorder := by
            rw [List.flatMap_cons, h.preorder_eq id, List.flatMap_append, List.cons_append]
          rw [hnext, List.length_cons] at henough
          rw [hnext, visit, ih (Nat.le_of_succ_le_succ henough)]

theorem Ordered.descendants_eq (h : arena.Ordered) (id : FormId) :
    arena.descendants id = arena.preorder id := by
  have hstack : [id].flatMap arena.preorder = arena.preorder id := by simp
  rw [descendants, h.visit_eq, hstack]
  rw [hstack, visitsWithin_eq_length]
  exact Nat.le_refl _

end

/-! ## Reading inserted forms back -/

def label? (arena : Arena) (id : FormId) : Option FormLabel := (arena.cell? id).map Cell.label

theorem formsOf_congr {first second : FormId → Option Form} {ids : List FormId}
    (h : ∀ id ∈ ids, ∀ form, first id = some form → second id = some form) {forms : List Form}
    (hforms : formsOf first ids = some forms) : formsOf second ids = some forms := by
  induction ids generalizing forms with
  | nil => exact hforms
  | cons id rest ih =>
      simp only [formsOf] at hforms
      split at hforms
      · rename_i form others hform hothers
        rw [formsOf, h id List.mem_cons_self form hform,
          ih (fun other hother => h other (List.mem_cons_of_mem _ hother)) hothers]
        exact hforms
      · cases hforms

theorem Grows.formWithin {earlier later : Arena} (h : earlier.Grows later) {levels : Nat}
    {id : FormId} {form : Form} (hform : earlier.formWithin levels id = some form) :
    later.formWithin levels id = some form := by
  induction levels generalizing id form with
  | zero => cases hform
  | succ levels ih =>
      rw [Arena.formWithin] at hform ⊢
      split at hform
      · cases hform
      · rename_i cell hcell
        obtain ⟨children, hchildren, rfl⟩ := Option.map_eq_some_iff.mp hform
        rw [h.cell? hcell]
        simp only
        rw [formsOf_congr (fun _ _ _ hchild => ih hchild) hchildren]
        rfl

mutual
theorem formWithin_insert (arena : Arena) (form : Form) {levels : Nat}
    (h : (arena.insert form).1.size ≤ levels) :
    (arena.insert form).1.formWithin levels (arena.insert form).2 = some form := by
  cases form with
  | node label children =>
      simp only [insert, size_append] at h ⊢
      obtain ⟨left, rfl⟩ := Nat.exists_eq_add_of_lt h
      rw [formWithin, cell?_append_self]
      simp only
      rw [formsOf_congr (fun _ _ _ hchild => (grows_append _ _).formWithin hchild)
        (formsOf_insertAll arena children (Nat.le_add_right _ _))]
      rfl

theorem formsOf_insertAll (arena : Arena) (forms : List Form) {levels : Nat}
    (h : (arena.insertAll forms).1.size ≤ levels) :
    formsOf ((arena.insertAll forms).1.formWithin levels) (arena.insertAll forms).2 =
      some forms := by
  cases forms with
  | nil => rfl
  | cons form rest =>
      have hgrows := grows_insertAll (arena.insert form).1 rest
      simp only [insertAll] at h ⊢
      rw [formsOf, hgrows.formWithin
        (formWithin_insert arena form (Nat.le_trans hgrows.size_le h)), formsOf_insertAll _ rest h]
end

theorem labels_of_formsOf {read : FormId → Option Form} {visited : FormId → List (Option FormLabel)}
    (h : ∀ id form, read id = some form → visited id = form.labels.map some) {ids : List FormId}
    {forms : List Form} (hforms : formsOf read ids = some forms) :
    ids.flatMap visited = (Form.labelsOf forms).map some := by
  induction ids generalizing forms with
  | nil =>
      cases hforms
      rfl
  | cons id rest ih =>
      simp only [formsOf] at hforms
      split at hforms
      · rename_i form others hform hothers
        cases hforms
        rw [List.flatMap_cons, h id form hform, ih hothers, Form.labelsOf, List.map_append]
      · cases hforms

theorem labels_of_formWithin {arena : Arena} {levels : Nat} {id : FormId} {form : Form}
    (h : arena.formWithin levels id = some form) :
    (arena.preorderWithin levels id).map arena.label? = form.labels.map some := by
  induction levels generalizing id form with
  | zero => cases h
  | succ levels ih =>
      rw [formWithin] at h
      split at h
      · cases h
      · rename_i cell hcell
        obtain ⟨children, hchildren, rfl⟩ := Option.map_eq_some_iff.mp h
        have hlabel : arena.label? id = some cell.label := by rw [label?, hcell, Option.map_some]
        have hbelow : arena.children id = cell.children := by rw [Arena.children, hcell]
        rw [preorderWithin, List.map_cons, hlabel, hbelow, List.map_flatMap,
          labels_of_formsOf (fun _ _ hchild => ih hchild) hchildren, Form.labels, List.map_cons]

theorem form?_of_insert {arena later : Arena} {form : Form}
    (hlater : (arena.insert form).1.Grows later) :
    later.form? (arena.insert form).2 = some form := by
  rw [form?, index_insert]
  exact hlater.formWithin (formWithin_insert arena form (Nat.le_refl _))

theorem Ordered.labels_of_form? {arena : Arena} (h : arena.Ordered) {id : FormId} {form : Form}
    (hform : arena.form? id = some form) :
    (arena.descendants id).map arena.label? = form.labels.map some := by
  rw [h.descendants_eq]
  exact labels_of_formWithin hform

end Arena

end SchemaForms
