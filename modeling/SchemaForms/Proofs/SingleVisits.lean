import SchemaForms.Form.Json
import SchemaForms.Proofs.WrittenNodes
import SchemaForms.Store.Basic

/-!
# Nodes that are visited once

What is kept in an arena after any requests can be read from every node, and no
traversal comes to a node twice: not the list of all nodes below, nor the JSON,
the document or the storage of a form.
-/

namespace SchemaForms

/-! ## JSON -/

namespace Text.Json

mutual
def lists : Json → Nat
  | .array items => listsOfItems items + 1
  | .object fields => listsOfFields fields
  | _ => 0

def listsOfItems : List Json → Nat
  | [] => 0
  | item :: rest => lists item + listsOfItems rest

def listsOfFields : List (String × Json) → Nat
  | [] => 0
  | (_, value) :: rest => lists value + listsOfFields rest
end

end Text.Json

open Text (Json)

theorem lists_optionsToJson (options : Options) : (optionsToJson options).lists = 0 := by
  rw [optionsToJson, Json.lists]
  induction options.entries with
  | nil => rfl
  | cons entry rest ih =>
      obtain ⟨key, value⟩ := entry
      rw [List.map_cons, Json.listsOfFields, ih]
      cases value <;> rfl

namespace Form

mutual
/-- The JSON of a form has a list of children for each of its nodes. -/
theorem lists_toJson (form : Form) : form.toJson.lists = form.size := by
  cases form with
  | node label children =>
      have hvalue : (valueToJson label.value).lists = 0 := by cases label.value <;> rfl
      simp only [toJson, Json.lists, Json.listsOfFields, lists_optionsToJson, hvalue,
        listsOfItems_toJsonAll children, size]
      omega

theorem listsOfItems_toJsonAll (forms : List Form) :
    Json.listsOfItems (toJsonAll forms) = sizeAll forms := by
  cases forms with
  | nil => rfl
  | cons form rest =>
      rw [toJsonAll, Json.listsOfItems, lists_toJson form, listsOfItems_toJsonAll rest, sizeAll]
end

end Form

/-! ## Whole sessions -/

/-- What is read at a number is a form with one node for each number below it. The traversal
of these numbers ends and comes to each of them once, and so do the JSON and the storage of
the form. Its document is written with all nodes gathered once that show below it, and each
element among them written once. -/
structure Arena.TraversedOnce (arena : Arena) (id : FormId) (form : Form) : Prop where
  read : ∃ cell children, arena.cell? id = some cell ∧
    formsOf arena.form? cell.children = some children ∧
    arena.form? id = some form ∧ form = .node cell.label children
  below : ∀ other, other ∈ arena.descendants id ↔ arena.Below id other
  nodup : (arena.descendants id).Nodup
  ends : ∀ fuel, (arena.descendants id).length ≤ fuel →
    arena.visit fuel [id] = arena.descendants id
  labels : (arena.descendants id).map arena.label? = form.labels.map some
  json : form.toJson.lists = (arena.descendants id).length
  xml : (arena.write none id).markup = form.markup
  gathered : (arena.write none id).gathered.Nodup ∧
    ∀ other, other ∈ (arena.write none id).gathered ↔
      ∃ child ∈ arena.children id, arena.shown.Below child other
  written : (arena.write none id).written.Nodup ∧
    ∀ other, other ∈ (arena.write none id).written ↔
      other = id ∨ other ∈ (arena.write none id).gathered ∧ arena.isElement other
  stops : ∀ levels, id.index < levels →
    arena.writeWithin levels none id = arena.write none id
  stored : ∀ store : Store, (store.saveForm form).1.size =
    store.size + (arena.descendants id).length

theorem Arena.Forest.traversedOnce {arena : Arena} (h : arena.Forest) {id : FormId}
    (hid : id.index < arena.size) : ∃ form, arena.TraversedOnce id form := by
  obtain ⟨cell, children, hcell, hchildren, hform⟩ := h.ordered.exists_form? hid
  have hvisited := h.ordered.descendants_eq id
  have hlabels := h.ordered.labels_of_form? hform
  have hlength : (arena.descendants id).length = Form.size (.node cell.label children) := by
    simpa [Form.length_labels] using congrArg List.length hlabels
  have hgathered := h.ordered.perm_gathered none id
  have hwritten := h.ordered.perm_written none id
  refine ⟨_, ⟨cell, children, hcell, hchildren, hform, rfl⟩, fun other => ?_, ?_,
    fun fuel hfuel => ?_, hlabels, ?_, h.ordered.markup_write hform none,
    ⟨hgathered.nodup_iff.mpr (h.nodup_visits id).of_cons, fun other => ?_⟩,
    ⟨hwritten.nodup_iff.mpr ((h.nodup_visits id).sublist (List.filter_sublist.cons_cons id)),
      fun other => ?_⟩,
    fun levels hlevels => h.ordered.writeWithin_eq hlevels none, fun store => ?_⟩
  · rw [hvisited, h.ordered.mem_preorder]
  · rw [hvisited]
    exact h.nodup_preorder id
  · have hstack : [id].flatMap arena.preorder = arena.preorder id := List.flatMap_singleton _ _
    rw [hvisited, ← hstack] at hfuel ⊢
    exact h.ordered.visit_eq hfuel
  · rw [Form.lists_toJson, hlength]
  · simp only [hgathered.mem_iff, List.mem_flatMap, h.ordered.shown.mem_preorder]
  · rw [hwritten.mem_iff, hgathered.mem_iff, List.mem_cons, List.mem_filter]
  · rw [Store.size_saveForm, hlength]

namespace Workspace

/-- After any requests, also failing ones, the children of every node are earlier nodes of
the arena, none is listed twice, and the answers to the requests are listed nowhere. So
every node can be read, and the traversals come once to each node below it. -/
theorem forest_of_runs (schema : Schema) (settings : Settings) (requests : List Request) :
    let arena := ((new schema settings).runAll requests).arena
    (∀ id cell, arena.cell? id = some cell → ∀ child ∈ cell.children,
        child.index < id.index ∧ child.index < arena.size) ∧
      arena.listed.Nodup ∧
      (∀ earlier request later answer, requests = earlier ++ request :: later →
        (((new schema settings).runAll earlier).run request).1 = .ok answer →
          ∀ id ∈ answer, id.index < arena.size ∧ id ∉ arena.listed) ∧
      ∀ id, id.index < arena.size → ∃ form, arena.TraversedOnce id form := by
  intro arena
  have hforest : arena.Forest := forest_of_new schema settings requests
  refine ⟨fun id cell hcell child hchild => ?_, hforest.nodup, ?_,
    fun id hid => hforest.traversedOnce hid⟩
  · exact ⟨hforest.ordered id cell hcell child hchild,
      hforest.ordered.lt_size_of_listed (Arena.mem_listed.mpr ⟨id, cell, hcell, hchild⟩)⟩
  · rintro earlier request later answer rfl hanswer id hid
    have hidle := (idle_new schema settings).runAll earlier
    obtain ⟨ids, hadds, hsubset⟩ :=
      hidle.adds_run (forest_of_new schema settings earlier) request
    have hin := hsubset answer hanswer hid
    have hlater := (hidle.run request).notMem_listed_runAll hadds.forest (hadds.added id hin).2
      (hadds.unlisted id hin) later
    have hruns : arena = ((((new schema settings).runAll earlier).run request).2.runAll
        later).arena := congrArg Workspace.arena (runAll_append _ earlier (request :: later))
    rw [hruns]
    exact hlater

end Workspace

end SchemaForms
