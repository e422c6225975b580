import Mathlib.Data.List.Nodup
import Mathlib.Logic.Relation
import SchemaForms.Proofs.Forms
import SchemaForms.Proofs.Sessions

/-!
# The forest in an arena

Whatever is compiled into an arena, and wherever a compilation ends early, the
nodes of the arena are a forest: the children of a node come before it, no node
is listed as a child twice, and a node that answers a request is listed nowhere.
So every node can be read as a form, and what is below it is visited once.
-/

namespace SchemaForms

namespace Arena

/-! ## Lists of children -/

def listed (arena : Arena) : List FormId := arena.cells.toList.flatMap Cell.children

@[simp] theorem listed_append (arena : Arena) (cell : Cell) :
    (arena.append cell).1.listed = arena.listed ++ cell.children := by
  simp [listed, append]

theorem mem_listed {arena : Arena} {child : FormId} :
    child ∈ arena.listed ↔ ∃ id cell, arena.cell? id = some cell ∧ child ∈ cell.children := by
  simp only [listed, List.mem_flatMap, Array.mem_toList_iff, Array.mem_iff_getElem?, cell?]
  constructor
  · rintro ⟨cell, ⟨index, hcell⟩, hchild⟩
    exact ⟨⟨index⟩, cell, hcell, hchild⟩
  · rintro ⟨id, cell, hcell, hchild⟩
    exact ⟨cell, ⟨id.index, hcell⟩, hchild⟩

theorem cell?_eq_some_of_lt {arena : Arena} {id : FormId} (h : id.index < arena.size) :
    ∃ cell, arena.cell? id = some cell :=
  ⟨_, Array.getElem?_eq_getElem h⟩

theorem lt_size_of_cell? {arena : Arena} {id : FormId} {cell : Cell}
    (h : arena.cell? id = some cell) : id.index < arena.size :=
  (Array.getElem?_eq_some_iff.mp h).1

theorem mem_children {arena : Arena} {id child : FormId} :
    child ∈ arena.children id ↔ ∃ cell, arena.cell? id = some cell ∧ child ∈ cell.children := by
  rw [children]
  cases arena.cell? id <;> simp

/-- Children come before their parents, and none is listed twice. -/
structure Forest (arena : Arena) : Prop where
  ordered : arena.Ordered
  nodup : arena.listed.Nodup

theorem Ordered.lt_size_of_listed {arena : Arena} (h : arena.Ordered) {child : FormId}
    (hchild : child ∈ arena.listed) : child.index < arena.size := by
  obtain ⟨id, cell, hcell, hchild⟩ := mem_listed.mp hchild
  exact Nat.lt_trans (h id cell hcell child hchild) (lt_size_of_cell? hcell)

theorem forest_empty : empty.Forest := ⟨ordered_empty, by simp [listed, empty]⟩

/-! ## Insertion -/

structure Adds (earlier later : Arena) (ids : List FormId) : Prop where
  forest : later.Forest
  size_le : earlier.size ≤ later.size
  nodup : ids.Nodup
  added : ∀ id ∈ ids, earlier.size ≤ id.index ∧ id.index < later.size
  unlisted : ∀ id ∈ ids, id ∉ later.listed
  listed : ∀ id ∈ later.listed, id ∈ earlier.listed ∨ earlier.size ≤ id.index

theorem Adds.notMem_listed {earlier later : Arena} {ids : List FormId}
    (h : earlier.Adds later ids) {id : FormId} (hid : id.index < earlier.size)
    (hunlisted : id ∉ earlier.listed) : id ∉ later.listed := by
  intro hin
  rcases h.listed id hin with hin | hsize
  · exact hunlisted hin
  · exact absurd hid (Nat.not_lt.mpr hsize)

theorem Forest.adds_nil {arena : Arena} (h : arena.Forest) : arena.Adds arena [] :=
  ⟨h, Nat.le_refl _, List.nodup_nil, by simp, by simp, fun _ hid => .inl hid⟩

theorem Adds.append {earlier later : Arena} {ids : List FormId} (h : earlier.Adds later ids)
    (label : FormLabel) :
    earlier.Adds (later.append ⟨label, ids⟩).1 [(later.append ⟨label, ids⟩).2] := by
  have hlast : (later.append ⟨label, ids⟩).2.index = later.size := index_append _ _
  refine ⟨⟨h.forest.ordered.append fun child hchild => (h.added child hchild).2, ?_⟩, ?_,
    List.nodup_singleton _, ?_, ?_, ?_⟩
  · rw [listed_append, List.nodup_append]
    refine ⟨h.forest.nodup, h.nodup, ?_⟩
    rintro id hlisted _ hid rfl
    exact h.unlisted _ hid hlisted
  · rw [size_append]
    exact Nat.le_succ_of_le h.size_le
  · simp [hlast, h.size_le]
  · rintro id hid hlisted
    rw [List.mem_singleton] at hid
    rw [hid, listed_append, List.mem_append] at hlisted
    rcases hlisted with hlisted | hlisted
    · exact Nat.lt_irrefl _ (hlast ▸ h.forest.ordered.lt_size_of_listed hlisted)
    · exact Nat.lt_irrefl _ (hlast ▸ (h.added _ hlisted).2)
  · intro id hid
    rw [listed_append, List.mem_append] at hid
    rcases hid with hid | hid
    · exact h.listed id hid
    · exact .inr (h.added id hid).1

theorem Adds.both {first second third : Arena} {ids more : List FormId}
    (h : first.Adds second ids) (hmore : second.Adds third more) :
    first.Adds third (ids ++ more) where
  forest := hmore.forest
  size_le := Nat.le_trans h.size_le hmore.size_le
  nodup := by
    rw [List.nodup_append]
    refine ⟨h.nodup, hmore.nodup, ?_⟩
    rintro id hid _ hin rfl
    exact Nat.lt_irrefl _ (Nat.lt_of_lt_of_le (h.added id hid).2 (hmore.added id hin).1)
  added := by
    intro id hid
    rcases List.mem_append.mp hid with hid | hid
    · exact ⟨(h.added id hid).1, Nat.lt_of_lt_of_le (h.added id hid).2 hmore.size_le⟩
    · exact ⟨Nat.le_trans h.size_le (hmore.added id hid).1, (hmore.added id hid).2⟩
  unlisted := by
    intro id hid
    rcases List.mem_append.mp hid with hid | hid
    · exact hmore.notMem_listed (h.added id hid).2 (h.unlisted id hid)
    · exact hmore.unlisted id hid
  listed := by
    intro id hid
    rcases hmore.listed id hid with hid | hsize
    · exact h.listed id hid
    · exact .inr (Nat.le_trans h.size_le hsize)

mutual
theorem Forest.adds_insert {arena : Arena} (h : arena.Forest) (form : Form) :
    arena.Adds (arena.insert form).1 [(arena.insert form).2] := by
  cases form with
  | node label children => exact (h.adds_insertAll children).append label

theorem Forest.adds_insertAll {arena : Arena} (h : arena.Forest) (forms : List Form) :
    arena.Adds (arena.insertAll forms).1 (arena.insertAll forms).2 := by
  cases forms with
  | nil => exact h.adds_nil
  | cons form rest =>
      have hform := h.adds_insert form
      exact hform.both (hform.forest.adds_insertAll rest)
end

/-! ## Nodes below a node -/

/-- The second node is the first one, or among its children, or below one of them. -/
def Below (arena : Arena) : FormId → FormId → Prop :=
  Relation.ReflTransGen fun parent child => child ∈ arena.children parent

section

variable {arena : Arena}

theorem Ordered.index_le_of_below (h : arena.Ordered) {id other : FormId}
    (hbelow : arena.Below id other) : other.index ≤ id.index := by
  induction hbelow with
  | refl => exact Nat.le_refl _
  | tail _ hchild ih => exact Nat.le_trans (Nat.le_of_lt (h.children_lt hchild)) ih

theorem Ordered.mem_preorder (h : arena.Ordered) {id other : FormId} :
    other ∈ arena.preorder id ↔ arena.Below id other := by
  obtain ⟨index⟩ := id
  induction index using Nat.strongRecOn with
  | ind index ih =>
      rw [h.preorder_eq, List.mem_cons, List.mem_flatMap, Below,
        Relation.ReflTransGen.cases_head_iff, eq_comm]
      refine or_congr_right (exists_congr fun child => and_congr_right fun hchild => ?_)
      exact ih child.index (h.children_lt hchild)

theorem Forest.parent_unique (h : arena.Forest) {first second child : FormId}
    (hfirst : child ∈ arena.children first) (hsecond : child ∈ arena.children second) :
    first = second := by
  obtain ⟨cell, hcell, hchild⟩ := mem_children.mp hfirst
  obtain ⟨other, hother, hagain⟩ := mem_children.mp hsecond
  have hapart := (List.nodup_flatMap.mp h.nodup).2
  rw [List.pairwise_iff_getElem] at hapart
  obtain ⟨hin, hget⟩ := Array.getElem?_eq_some_iff.mp hcell
  obtain ⟨hinOther, hgetOther⟩ := Array.getElem?_eq_some_iff.mp hother
  rcases Nat.lt_trichotomy first.index second.index with hlt | heq | hlt
  · have hdisjoint := hapart _ _ (by simpa using hin) (by simpa using hinOther) hlt
    simp only [Function.onFun, Array.getElem_toList, hget, hgetOther] at hdisjoint
    exact absurd hagain (hdisjoint hchild)
  · obtain ⟨index⟩ := first
    obtain ⟨index'⟩ := second
    exact congrArg FormId.mk heq
  · have hdisjoint := hapart _ _ (by simpa using hinOther) (by simpa using hin) hlt
    simp only [Function.onFun, Array.getElem_toList, hget, hgetOther] at hdisjoint
    exact absurd hchild (hdisjoint hagain)

/-- Two nodes above the same node are above one another, on its only way up. -/
theorem Forest.below_or_below (h : arena.Forest) {first second id : FormId}
    (hfirst : arena.Below first id) (hsecond : arena.Below second id) :
    arena.Below first second ∨ arena.Below second first := by
  have hunique : Relator.RightUnique fun child parent => child ∈ arena.children parent :=
    fun _ _ _ hparent hother => h.parent_unique hparent hother
  rcases Relation.ReflTransGen.total_of_right_unique hunique hfirst.swap hsecond.swap
    with hup | hup
  · exact .inr hup.swap
  · exact .inl hup.swap

theorem Forest.not_below_sibling (h : arena.Forest) {parent first second : FormId}
    (hfirst : first ∈ arena.children parent) (hsecond : second ∈ arena.children parent)
    (hne : first ≠ second) : ¬arena.Below first second := by
  intro hbelow
  rcases Relation.ReflTransGen.cases_tail hbelow with hsame | ⟨other, hother, hchild⟩
  · exact hne hsame.symm
  · rw [h.parent_unique hchild hsecond] at hother
    have hle := h.ordered.index_le_of_below hother
    exact absurd hle (Nat.not_le_of_lt (h.ordered.children_lt hfirst))

theorem Forest.nodup_children (h : arena.Forest) (id : FormId) : (arena.children id).Nodup := by
  rw [children]
  split
  · rename_i cell hcell
    have hin : cell ∈ arena.cells.toList := by
      rw [Array.mem_toList_iff]
      exact Array.mem_of_getElem? hcell
    exact (List.nodup_flatMap.mp h.nodup).1 cell hin
  · exact List.nodup_nil

theorem Forest.nodup_preorder (h : arena.Forest) (id : FormId) : (arena.preorder id).Nodup := by
  obtain ⟨index⟩ := id
  induction index using Nat.strongRecOn with
  | ind index ih =>
      rw [h.ordered.preorder_eq, List.nodup_cons, List.nodup_flatMap]
      refine ⟨?_, fun child hchild => ih child.index (h.ordered.children_lt hchild), ?_⟩
      · intro hin
        obtain ⟨child, hchild, hin⟩ := List.mem_flatMap.mp hin
        have hle := h.ordered.index_le_of_below (h.ordered.mem_preorder.mp hin)
        exact absurd hle (Nat.not_le_of_lt (h.ordered.children_lt hchild))
      · refine (h.nodup_children ⟨index⟩).imp_of_mem fun {first second} hfirst hsecond hne => ?_
        intro other hin hagain
        rcases h.below_or_below (h.ordered.mem_preorder.mp hin) (h.ordered.mem_preorder.mp hagain)
          with hbelow | hbelow
        · exact h.not_below_sibling hfirst hsecond hne hbelow
        · exact h.not_below_sibling hsecond hfirst hne.symm hbelow

/-! ## Reading the nodes of a forest -/

theorem formsOf_eq_some {read : FormId → Option Form} {ids : List FormId}
    (h : ∀ id ∈ ids, ∃ form, read id = some form) : ∃ forms, formsOf read ids = some forms := by
  induction ids with
  | nil => exact ⟨[], rfl⟩
  | cons id rest ih =>
      rw [List.forall_mem_cons] at h
      obtain ⟨form, hform⟩ := h.1
      obtain ⟨forms, hforms⟩ := ih h.2
      exact ⟨form :: forms, by rw [formsOf, hform, hforms]⟩

theorem formWithin_of_le {levels more : Nat} (hle : levels ≤ more) {id : FormId} {form : Form}
    (h : arena.formWithin levels id = some form) : arena.formWithin more id = some form := by
  induction levels generalizing more id form with
  | zero => cases h
  | succ levels ih =>
      obtain ⟨left, rfl⟩ := Nat.exists_eq_add_of_le hle
      rw [Nat.succ_add]
      rw [formWithin] at h ⊢
      split at h
      · cases h
      · obtain ⟨children, hchildren, rfl⟩ := Option.map_eq_some_iff.mp h
        rw [formsOf_congr (fun _ _ _ hchild => ih (Nat.le_add_right _ _) hchild) hchildren]
        rfl

theorem Ordered.exists_form? (h : arena.Ordered) {id : FormId} (hid : id.index < arena.size) :
    ∃ cell forms, arena.cell? id = some cell ∧ formsOf arena.form? cell.children = some forms ∧
      arena.form? id = some (.node cell.label forms) := by
  obtain ⟨index⟩ := id
  induction index using Nat.strongRecOn with
  | ind index ih =>
      obtain ⟨cell, hcell⟩ := cell?_eq_some_of_lt hid
      have hsmaller := h ⟨index⟩ cell hcell
      obtain ⟨forms, hforms⟩ : ∃ forms, formsOf arena.form? cell.children = some forms := by
        refine formsOf_eq_some fun child hchild => ?_
        obtain ⟨_, _, _, _, hform⟩ :=
          ih child.index (hsmaller child hchild) (Nat.lt_trans (hsmaller child hchild) hid)
        exact ⟨_, hform⟩
      refine ⟨cell, forms, hcell, hforms, ?_⟩
      have hwithin : formsOf (arena.formWithin index) cell.children = some forms :=
        formsOf_congr (fun child hchild _ hform =>
          formWithin_of_le (hsmaller child hchild) hform) hforms
      rw [form?, formWithin, hcell]
      simp only [hwithin, Option.map_some]

end

end Arena

/-! ## Requests -/

namespace Workspace

theorem Idle.adds_run {workspace : Workspace} (hidle : workspace.Idle)
    (h : workspace.arena.Forest) (request : Request) :
    ∃ ids, workspace.arena.Adds (workspace.run request).2.arena ids ∧
      ∀ answer, (workspace.run request).1 = .ok answer → answer ⊆ ids := by
  rw [hidle.run_eq]
  cases request.compile workspace.schema workspace.settings with
  | ok compiled =>
      have hanswer := h.adds_insertAll compiled.answer
      refine ⟨_, hanswer.both (hanswer.forest.adds_insertAll compiled.surplus), ?_⟩
      rintro answer ⟨⟩
      exact List.subset_append_left _ _
  | error failure => exact ⟨_, h.adds_insertAll failure.finished, by rintro answer ⟨⟩⟩

theorem Idle.forest_runAll {workspace : Workspace} (hidle : workspace.Idle)
    (h : workspace.arena.Forest) (requests : List Request) :
    (workspace.runAll requests).arena.Forest := by
  induction requests generalizing workspace with
  | nil => exact h
  | cons request rest ih =>
      obtain ⟨ids, hadds, -⟩ := hidle.adds_run h request
      exact ih (hidle.run request) hadds.forest

theorem forest_of_new (schema : Schema) (settings : Settings) (requests : List Request) :
    ((new schema settings).runAll requests).arena.Forest :=
  (idle_new schema settings).forest_runAll Arena.forest_empty requests

theorem Idle.notMem_listed_runAll {workspace : Workspace} (hidle : workspace.Idle)
    (h : workspace.arena.Forest) {id : FormId} (hid : id.index < workspace.arena.size)
    (hunlisted : id ∉ workspace.arena.listed) (requests : List Request) :
    id.index < (workspace.runAll requests).arena.size ∧
      id ∉ (workspace.runAll requests).arena.listed := by
  induction requests generalizing workspace with
  | nil => exact ⟨hid, hunlisted⟩
  | cons request rest ih =>
      obtain ⟨ids, hadds, -⟩ := hidle.adds_run h request
      exact ih (hidle.run request) hadds.forest (Nat.lt_of_lt_of_le hid hadds.size_le)
        (hadds.notMem_listed hid hunlisted)

theorem runAll_append (workspace : Workspace) (earlier later : List Request) :
    workspace.runAll (earlier ++ later) = (workspace.runAll earlier).runAll later := by
  induction earlier generalizing workspace with
  | nil => rfl
  | cons request rest ih => exact ih _

end Workspace

end SchemaForms
