import Mathlib.Data.List.Flatten
import Mathlib.Data.List.Forall2
import Mathlib.Data.List.Perm.Basic
import SchemaForms.Form.Tour
import SchemaForms.Proofs.Forests

/-!
# The nodes that are visited for a document

An element is written with those in its content. On the way every node that shows
is gathered once, and each element among them is written once; what is below an
alternative that is not selected is not visited. The elements that are gathered
are the surface of the form, and what is written is its markup.
-/

namespace SchemaForms

open scoped List
open Xml (Markup)

theorem Gathering.each_congr {gather other : FormId → Gathering} {ids : List FormId}
    (h : ∀ id ∈ ids, gather id = other id) : each gather ids = each other ids := by
  simp only [each]
  rw [List.flatMap_congr fun id hid => congrArg elements (h id hid),
    List.flatMap_congr fun id hid => congrArg visited (h id hid)]

namespace Form

theorem markupWithin_eq {form : Form} {levels : Nat} (hsize : form.size ≤ levels)
    (around : Option String) :
    form.markupWithin levels around = form.markupWithin form.size around := by
  induction levels using Nat.strongRecOn generalizing form around with
  | ind levels ih =>
      obtain ⟨count, hcount⟩ := Nat.exists_eq_succ_of_ne_zero (Nat.ne_of_gt form.size_pos)
      obtain ⟨left, rfl⟩ := Nat.exists_eq_add_of_le (hcount ▸ hsize)
      rw [hcount, Nat.succ_add, markupWithin, markupWithin]
      refine congrArg _ (List.map_congr_left fun child hchild => ?_)
      have hchild : child.size ≤ count :=
        Nat.le_of_lt_succ (hcount ▸ size_lt_of_mem_content hchild)
      rw [ih (count + left) (by omega) (Nat.le_add_right_of_le hchild),
        ih count (by omega) hchild]

end Form

namespace Arena

/-! ## Nodes that show -/

def shownChildren (arena : Arena) (cell : Cell) : List FormId :=
  if cell.label.kind = .element then cell.children else arena.transparent cell

/-- The arena without what is listed but not shown. -/
def shown (arena : Arena) : Arena :=
  ⟨arena.cells.map fun cell => { cell with children := arena.shownChildren cell }⟩

theorem shownChildren_sublist (arena : Arena) (cell : Cell) :
    (arena.shownChildren cell).Sublist cell.children := by
  rw [shownChildren]
  split
  · exact List.Sublist.refl _
  · exact arena.transparent_sublist cell

theorem cell?_shown (arena : Arena) (id : FormId) : arena.shown.cell? id =
    (arena.cell? id).map fun cell => { cell with children := arena.shownChildren cell } := by
  simp [cell?, shown]

theorem children_shown {arena : Arena} {id : FormId} {cell : Cell}
    (hcell : arena.cell? id = some cell) : arena.shown.children id = arena.shownChildren cell := by
  rw [children, cell?_shown, hcell]
  rfl

theorem Ordered.shown {arena : Arena} (h : arena.Ordered) : arena.shown.Ordered := by
  intro id found hfound child hchild
  rw [cell?_shown] at hfound
  obtain ⟨cell, hcell, rfl⟩ := Option.map_eq_some_iff.mp hfound
  exact h id cell hcell child ((arena.shownChildren_sublist cell).subset hchild)

/-! ## One level of the functions -/

section

variable {arena : Arena}

theorem Ordered.gatherWithin_eq (h : arena.Ordered) {levels : Nat} {id : FormId}
    (hid : id.index < levels) : arena.gatherWithin levels id = arena.gather id := by
  induction levels using Nat.strongRecOn generalizing id with
  | ind levels ih =>
      obtain ⟨left, rfl⟩ := Nat.exists_eq_add_of_lt hid
      cases hcell : arena.cell? id with
      | none => rw [gather, gatherWithin_of_none hcell, gatherWithin_of_none hcell]
      | some cell =>
          have hbelow : Gathering.each (arena.gatherWithin (id.index + left))
              (arena.transparent cell) =
              Gathering.each (arena.gatherWithin id.index) (arena.transparent cell) := by
            refine Gathering.each_congr fun child hchild => ?_
            have hchild := h id cell hcell child ((arena.transparent_sublist cell).subset hchild)
            rw [ih (id.index + left) (by omega) (by omega), ih id.index (by omega) hchild]
          rw [gather, gatherWithin_of_some hcell, gatherWithin_of_some hcell, hbelow]

theorem Ordered.gather_eq (h : arena.Ordered) {id : FormId} {cell : Cell}
    (hcell : arena.cell? id = some cell) :
    arena.gather id =
      { elements := if cell.label.kind = .element then [id]
          else (Gathering.each arena.gather (arena.transparent cell)).elements
        visited := id :: (Gathering.each arena.gather (arena.transparent cell)).visited } := by
  have hbelow : Gathering.each (arena.gatherWithin id.index) (arena.transparent cell) =
      Gathering.each arena.gather (arena.transparent cell) :=
    Gathering.each_congr fun child hchild =>
      h.gatherWithin_eq (h id cell hcell child ((arena.transparent_sublist cell).subset hchild))
  rw [gather, gatherWithin_of_some hcell, hbelow]

def isElement (arena : Arena) (id : FormId) : Bool :=
  (arena.cell? id).any fun cell => cell.label.kind = .element

theorem filter_each {ids : List FormId}
    (h : ∀ id ∈ ids, (arena.gather id).visited.filter arena.isElement =
      (arena.gather id).elements) :
    (Gathering.each arena.gather ids).visited.filter arena.isElement =
      (Gathering.each arena.gather ids).elements := by
  simp only [Gathering.each, List.filter_flatMap]
  exact List.flatMap_congr h

theorem Ordered.filter_gather (h : arena.Ordered) (id : FormId) :
    (arena.gather id).visited.filter arena.isElement = (arena.gather id).elements := by
  obtain ⟨index⟩ := id
  induction index using Nat.strongRecOn with
  | ind index ih =>
      cases hcell : arena.cell? ⟨index⟩ with
      | none => simp [gather, gatherWithin_of_none hcell, isElement, hcell]
      | some cell =>
          have hbelow := filter_each fun child hchild =>
            ih child.index (h _ cell hcell child ((arena.transparent_sublist cell).subset hchild))
          rw [h.gather_eq hcell, List.filter_cons, hbelow]
          by_cases hkind : cell.label.kind = .element
          · simp [isElement, hcell, hkind, transparent, Gathering.each]
          · simp [isElement, hcell, hkind]

/-- What shows at or below the nodes is gathered from them, or shows below an element that
is gathered from them. -/
theorem perm_each {ids : List FormId}
    (h : ∀ id ∈ ids, arena.shown.preorder id ~ (arena.gather id).visited ++
      (arena.gather id).elements.flatMap fun element =>
        (arena.children element).flatMap arena.shown.preorder) :
    ids.flatMap arena.shown.preorder ~ (Gathering.each arena.gather ids).visited ++
      (Gathering.each arena.gather ids).elements.flatMap fun element =>
        (arena.children element).flatMap arena.shown.preorder := by
  refine (List.Perm.flatMap_left ids h).trans ((List.flatMap_append_perm ids _ _).symm.trans ?_)
  simp only [Gathering.each, List.flatMap_assoc]
  exact .refl _

theorem Ordered.perm_gather (h : arena.Ordered) (id : FormId) :
    arena.shown.preorder id ~ (arena.gather id).visited ++
      (arena.gather id).elements.flatMap fun element =>
        (arena.children element).flatMap arena.shown.preorder := by
  obtain ⟨index⟩ := id
  induction index using Nat.strongRecOn with
  | ind index ih =>
      rw [h.shown.preorder_eq]
      cases hcell : arena.cell? ⟨index⟩ with
      | none => simp [gather, gatherWithin_of_none hcell, children, cell?_shown, hcell]
      | some cell =>
          rw [h.gather_eq hcell, children_shown hcell, shownChildren]
          by_cases hkind : cell.label.kind = .element
          · simp [hkind, transparent, Gathering.each, children, hcell]
          · simp only [if_neg hkind]
            exact (perm_each fun child hchild => ih child.index
              (h _ cell hcell child ((arena.transparent_sublist cell).subset hchild))).cons _

theorem Ordered.le_of_mem_gather (h : arena.Ordered) {id element : FormId}
    (hin : element ∈ (arena.gather id).elements) : element.index ≤ id.index := by
  rw [← h.filter_gather] at hin
  have hshown := (h.perm_gather id).mem_iff.mpr
    (List.mem_append_left _ (List.mem_of_mem_filter hin))
  exact h.shown.index_le_of_below (h.shown.mem_preorder.mp hshown)

theorem Ordered.lt_of_mem_content (h : arena.Ordered) {id element : FormId} {cell : Cell}
    (hcell : arena.cell? id = some cell)
    (hin : element ∈ (Gathering.each arena.gather cell.children).elements) :
    element.index < id.index := by
  obtain ⟨child, hchild, hin⟩ := List.mem_flatMap.mp hin
  exact Nat.lt_of_le_of_lt (h.le_of_mem_gather hin) (h id cell hcell child hchild)

theorem Ordered.writeWithin_eq (h : arena.Ordered) {levels : Nat} {id : FormId}
    (hid : id.index < levels) (around : Option String) :
    arena.writeWithin levels around id = arena.write around id := by
  induction levels using Nat.strongRecOn generalizing id around with
  | ind levels ih =>
      obtain ⟨left, rfl⟩ := Nat.exists_eq_add_of_lt hid
      cases hcell : arena.cell? id with
      | none => rw [write, writeWithin_of_none hcell, writeWithin_of_none hcell]
      | some cell =>
          have hbelow : ∀ element ∈ (Gathering.each arena.gather cell.children).elements,
              arena.writeWithin (id.index + left) cell.label.space element =
                arena.writeWithin id.index cell.label.space element := by
            intro element hin
            have hlt := h.lt_of_mem_content hcell hin
            rw [ih (id.index + left) (by omega) (by omega), ih id.index (by omega) hlt]
          rw [write, writeWithin_of_some hcell, writeWithin_of_some hcell,
            List.map_congr_left hbelow]

theorem Ordered.write_eq (h : arena.Ordered) {id : FormId} {cell : Cell}
    (hcell : arena.cell? id = some cell) (around : Option String) :
    let content := Gathering.each arena.gather cell.children
    let below := content.elements.map (arena.write cell.label.space)
    arena.write around id =
      { markup := .element cell.label.tag
          (Form.namespaceDeclaration around cell.label.space ++
            cell.children.filterMap arena.writtenAttribute?)
          cell.label.value (below.map Writing.markup)
        gathered := content.visited ++ below.flatMap Writing.gathered
        written := id :: below.flatMap Writing.written } := by
  have hbelow : ∀ element ∈ (Gathering.each arena.gather cell.children).elements,
      arena.writeWithin id.index cell.label.space element =
        arena.write cell.label.space element :=
    fun element hin => h.writeWithin_eq (h.lt_of_mem_content hcell hin) _
  rw [write, writeWithin_of_some hcell, List.map_congr_left hbelow]

/-! ## Whole documents -/

theorem Ordered.perm_gathered (h : arena.Ordered) (around : Option String) (id : FormId) :
    (arena.write around id).gathered ~ (arena.children id).flatMap arena.shown.preorder := by
  obtain ⟨index⟩ := id
  induction index using Nat.strongRecOn generalizing around with
  | ind index ih =>
      cases hcell : arena.cell? ⟨index⟩ with
      | none => simp [write, writeWithin_of_none hcell, children, hcell]
      | some cell =>
          have hbelow := fun (element : FormId) hin =>
            ih element.index (h.lt_of_mem_content hcell hin) cell.label.space
          have hcontent : arena.children ⟨index⟩ = cell.children := by rw [children, hcell]
          rw [h.write_eq hcell, hcontent]
          simp only [List.flatMap_map]
          exact ((List.Perm.flatMap_left _ hbelow).append_left _).trans
            (perm_each fun child _ => h.perm_gather child).symm

theorem Ordered.perm_written (h : arena.Ordered) (around : Option String) (id : FormId) :
    (arena.write around id).written ~
      id :: ((arena.children id).flatMap arena.shown.preorder).filter arena.isElement := by
  obtain ⟨index⟩ := id
  induction index using Nat.strongRecOn generalizing around with
  | ind index ih =>
      cases hcell : arena.cell? ⟨index⟩ with
      | none => simp [write, writeWithin_of_none hcell, children, hcell]
      | some cell =>
          have hbelow := fun (element : FormId) hin =>
            ih element.index (h.lt_of_mem_content hcell hin) cell.label.space
          have hcontent : arena.children ⟨index⟩ = cell.children := by rw [children, hcell]
          rw [h.write_eq hcell, hcontent]
          simp only [List.flatMap_map]
          have hshown := (perm_each fun (child : FormId) (_ : child ∈ cell.children) =>
            h.perm_gather child).filter arena.isElement
          rw [List.filter_append, filter_each fun child _ => h.filter_gather child] at hshown
          have hwritten := List.map_append_flatMap_perm
            (Gathering.each arena.gather cell.children).elements id fun element =>
              ((arena.children element).flatMap arena.shown.preorder).filter arena.isElement
          rw [List.map_id, ← List.filter_flatMap] at hwritten
          exact ((List.Perm.flatMap_left _ hbelow).trans
            (hwritten.symm.trans hshown.symm)).cons _

theorem Ordered.sublist_preorder (h : arena.Ordered) (id : FormId) :
    (arena.shown.preorder id).Sublist (arena.preorder id) := by
  obtain ⟨index⟩ := id
  induction index using Nat.strongRecOn with
  | ind index ih =>
      rw [h.shown.preorder_eq, h.preorder_eq]
      have hchildren : (arena.shown.children ⟨index⟩).Sublist (arena.children ⟨index⟩) := by
        cases hcell : arena.cell? ⟨index⟩ with
        | none => simp [children, cell?_shown, hcell]
        | some cell =>
            rw [children_shown hcell, children, hcell]
            exact arena.shownChildren_sublist cell
      exact ((hchildren.flatMap _).trans (List.Sublist.flatMap_right _ fun child hchild =>
        ih child.index (h.children_lt hchild))).cons_cons _

theorem Forest.nodup_visits (h : arena.Forest) (id : FormId) :
    (id :: (arena.children id).flatMap arena.shown.preorder).Nodup := by
  have hnodup := h.nodup_preorder id
  rw [h.ordered.preorder_eq] at hnodup
  exact hnodup.sublist ((List.Sublist.flatMap_right _ fun child _ =>
    h.ordered.sublist_preorder child).cons_cons _)

/-! ## What is written -/

theorem formsOf_eq_some_iff {read : FormId → Option Form} {ids : List FormId}
    {forms : List Form} :
    formsOf read ids = some forms ↔
      List.Forall₂ (fun id form => read id = some form) ids forms := by
  induction ids generalizing forms with
  | nil => simp [formsOf, eq_comm]
  | cons id rest ih =>
      rw [formsOf, List.forall₂_cons_left_iff]
      constructor
      · intro h
        split at h
        · rename_i form others hform hothers
          cases h
          exact ⟨form, others, hform, ih.mp hothers, rfl⟩
        · cases h
      · rintro ⟨form, others, hform, hothers, rfl⟩
        rw [hform, ih.mpr hothers]

theorem Ordered.cell?_of_form? (h : arena.Ordered) {id : FormId} {form : Form}
    (hform : arena.form? id = some form) :
    ∃ cell, arena.cell? id = some cell ∧ form.label = cell.label ∧
      List.Forall₂ (fun child form => arena.form? child = some form) cell.children
        form.children := by
  have hid : id.index < arena.size := by
    rw [form?, formWithin] at hform
    cases hcell : arena.cell? id with
    | none => simp [hcell] at hform
    | some cell => exact lt_size_of_cell? hcell
  obtain ⟨cell, forms, hcell, hforms, hread⟩ := h.exists_form? hid
  obtain rfl : form = .node cell.label forms := Option.some.inj (hform.symm.trans hread)
  exact ⟨cell, hcell, rfl, formsOf_eq_some_iff.mp hforms⟩

theorem Ordered.isSelected_eq (h : arena.Ordered) {id : FormId} {form : Form}
    (hform : arena.form? id = some form) : arena.isSelected id = form.isSelected := by
  obtain ⟨cell, hcell, hlabel, -⟩ := h.cell?_of_form? hform
  rw [isSelected, hcell, Form.isSelected, hlabel]
  rfl

theorem Ordered.writtenAttribute?_eq (h : arena.Ordered) {id : FormId} {form : Form}
    (hform : arena.form? id = some form) :
    arena.writtenAttribute? id = form.writtenAttribute? := by
  obtain ⟨cell, hcell, hlabel, -⟩ := h.cell?_of_form? hform
  rw [writtenAttribute?, hcell, Form.writtenAttribute?, hlabel]

theorem Ordered.surface_of_gather (h : arena.Ordered) {id : FormId} {form : Form}
    (hform : arena.form? id = some form) :
    List.Forall₂ (fun id form => arena.form? id = some form) (arena.gather id).elements
      form.surface := by
  obtain ⟨index⟩ := id
  induction index using Nat.strongRecOn generalizing form with
  | ind index ih =>
      obtain ⟨cell, hcell, hlabel, hchildren⟩ := h.cell?_of_form? hform
      have hbelow := ((List.forall₂_and_left _ _).mpr ⟨h _ cell hcell, hchildren⟩).imp
        fun child form hchild =>
          And.intro (h.isSelected_eq hchild.2) (ih child.index hchild.1 hchild.2)
      obtain ⟨label, children⟩ := form
      obtain rfl : label = cell.label := hlabel
      rw [h.gather_eq hcell, Form.surface]
      cases hkind : cell.label.kind with
      | element => exact .cons hform .nil
      | attributeUse => simp [transparent, hkind, Gathering.each]
      | sequence =>
          simp only [transparent, hkind, Gathering.each, reduceCtorEq, if_false,
            Form.surfaceAll_eq_flatMap]
          exact List.rel_flatMap hbelow fun _ _ hchild => hchild.2
      | choice =>
          simp only [transparent, hkind, Gathering.each, reduceCtorEq, if_false,
            Form.surfaceSelected_eq_flatMap]
          exact List.rel_flatMap (List.rel_filter (fun _ _ hchild => by simp [hchild.1]) hbelow)
            fun _ _ hchild => hchild.2

theorem filterMap_of_forall₂ {α β γ : Type} {read : α → Option β} {first : α → Option γ}
    {second : β → Option γ} {ids : List α} {items : List β}
    (h : List.Forall₂ (fun id item => read id = some item) ids items)
    (hsame : ∀ id item, read id = some item → first id = second item) :
    ids.filterMap first = items.filterMap second := by
  induction h with
  | nil => rfl
  | cons hitem _ ih => rw [List.filterMap_cons, List.filterMap_cons, hsame _ _ hitem, ih]

/-- What is written for a node is the markup of its form. -/
theorem Ordered.markup_write (h : arena.Ordered) {id : FormId} {form : Form}
    (hform : arena.form? id = some form) (around : Option String) :
    (arena.write around id).markup = form.markupWithin form.size around := by
  obtain ⟨index⟩ := id
  induction index using Nat.strongRecOn generalizing form around with
  | ind index ih =>
      obtain ⟨cell, hcell, hlabel, hchildren⟩ := h.cell?_of_form? hform
      have hattributes := filterMap_of_forall₂ hchildren fun _ _ => h.writtenAttribute?_eq
      have hcontent : List.Forall₂ (fun id form => arena.form? id = some form)
          (Gathering.each arena.gather cell.children).elements form.content := by
        rw [Form.content, Form.surfaceAll_eq_flatMap]
        exact List.rel_flatMap hchildren fun _ _ => h.surface_of_gather
      have hbelow := (List.forall₂_and_left _ _).mpr ⟨fun element => h.lt_of_mem_content hcell,
        ((List.forall₂_and_left _ _).mpr
          ⟨fun form => Form.size_lt_of_mem_content, hcontent.flip⟩).flip⟩
      obtain ⟨label, children⟩ := form
      obtain rfl : label = cell.label := hlabel
      rw [h.write_eq hcell, Form.size, Form.markupWithin]
      simp only [hattributes, List.map_map, Form.label, Form.children, Form.writtenAttributes]
      refine congrArg _ ?_
      rw [← List.forall₂_eq_eq_eq, List.forall₂_map_left_iff, List.forall₂_map_right_iff]
      refine hbelow.imp fun element form hform => ?_
      obtain ⟨hlt, hsize, hform⟩ := hform
      exact (ih element.index hlt _ hform).trans
        (Form.markupWithin_eq (Nat.le_of_lt_succ hsize) _).symm

end

end Arena

end SchemaForms
