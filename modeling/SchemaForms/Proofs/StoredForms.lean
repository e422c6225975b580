import SchemaForms.Proofs.References
import SchemaForms.Proofs.SingleVisits

/-!
# Storing forms

A form that is saved is added behind the elements of the store, the children of
a node before it, and changes none of them. Whatever the store held, the form is
rebuilt by loading the id that was given to it, the ids in its list of children,
and so on, and the new elements list each other as the nodes of one tree.
-/

namespace SchemaForms

inductive StoredForm where
  | node (tag : String) (value : Option String) (options : Options) (children : List StoredForm)
  deriving Repr

namespace Form

mutual
def stored : Form → StoredForm
  | .node label children => .node label.tag label.value label.options (storedAll children)

def storedAll : List Form → List StoredForm
  | [] => []
  | form :: rest => stored form :: storedAll rest
end

mutual
def postorder : Form → List FormLabel
  | .node label children => postorderOf children ++ [label]

def postorderOf : List Form → List FormLabel
  | [] => []
  | form :: rest => postorder form ++ postorderOf rest
end

mutual
theorem length_postorder (form : Form) : form.postorder.length = form.size := by
  cases form with
  | node label children =>
      rw [postorder, List.length_append, length_postorderOf children, size]
      rfl

theorem length_postorderOf (forms : List Form) : (postorderOf forms).length = sizeAll forms := by
  cases forms with
  | nil => rfl
  | cons form rest =>
      rw [postorderOf, List.length_append, length_postorder form, length_postorderOf rest, sizeAll]
end

end Form

def StoredNode.fields (element : StoredNode) : String × Option String × Options :=
  (element.tag, element.value, element.options)

def FormLabel.fields (label : FormLabel) : String × Option String × Options :=
  (label.tag, label.value, label.options)

namespace Store

/-! ## Loading -/

def rebuildWithin (store : Store) : Nat → Nat → Option StoredForm
  | 0, _ => none
  | levels + 1, id =>
      match store.load id with
      | .error _ => none
      | .ok element =>
          (element.children.mapM (store.rebuildWithin levels)).map
            (.node element.tag element.value element.options)

theorem load_of_append {store : Store} {added : List StoredNode} {id : Nat}
    (hid : id ≤ store.size) : (ofElements (store.elements ++ added)).load id = store.load id := by
  have hfound : (ofElements (store.elements ++ added)).find? id = store.find? id := by
    cases id with
    | zero => rw [find?_zero, find?_zero]
    | succ index =>
        have hin : index < store.elements.length := store.length_elements.symm ▸ hid
        rw [find?_succ, find?_succ, elements_ofElements, List.getElem?_append_left hin]
  rw [load, load, MemoryStore.load, MemoryStore.load]
  rw [find?, find?] at hfound
  rw [hfound]

theorem all_append (store : Store) (added : List StoredNode) :
    (ofElements (store.elements ++ added)).all = store.all ++
      added.zipIdx.map (fun (element, index) => (store.size + 1 + index, element)) := by
  have hadded : added.zipIdx (0 + store.elements.length) =
      added.zipIdx.map fun (element, index) => (element, 0 + store.elements.length + index) :=
    List.zipIdx_eq_map_add
  rw [all_eq, all_eq, elements_ofElements, List.zipIdx_append, List.map_append, hadded,
    List.map_map]
  refine congrArg _ (List.map_congr_left fun numbered _ => ?_)
  simp [length_elements, Nat.add_right_comm]

theorem le_size_of_load {store : Store} {id : Nat} {element : StoredNode}
    (h : store.load id = .ok element) : id ≤ store.size := by
  have hsome : (store.find? id).isSome = true := by
    rw [load_eq_ok_iff.mp h, Option.isSome_some]
  exact ((store.find?_isSome_iff id).mp hsome).2

theorem mapM_of_forall {α β : Type} {read again : α → Option β} {ids : List α} {found : List β}
    (h : ∀ id form, read id = some form → again id = some form)
    (hfound : ids.mapM read = some found) : ids.mapM again = some found := by
  induction ids generalizing found with
  | nil => exact hfound
  | cons id rest ih =>
      rw [List.mapM_cons] at hfound ⊢
      obtain ⟨first, hfirst, hfound⟩ := Option.bind_eq_some_iff.mp hfound
      obtain ⟨others, hothers, hfound⟩ := Option.bind_eq_some_iff.mp hfound
      rw [h id first hfirst, ih hothers]
      exact hfound

theorem rebuildWithin_of_le {store : Store} {levels more : Nat} (hle : levels ≤ more)
    (added : List StoredNode) {id : Nat} {form : StoredForm}
    (h : store.rebuildWithin levels id = some form) :
    (ofElements (store.elements ++ added)).rebuildWithin more id = some form := by
  induction levels generalizing more id form with
  | zero => cases h
  | succ levels ih =>
      obtain ⟨left, rfl⟩ := Nat.exists_eq_add_of_le hle
      rw [Nat.succ_add]
      rw [rebuildWithin] at h ⊢
      cases hload : store.load id with
      | error reason =>
          rw [hload] at h
          cases h
      | ok element =>
          rw [hload] at h
          obtain ⟨children, hchildren, rfl⟩ := Option.map_eq_some_iff.mp h
          rw [load_of_append (le_size_of_load hload), hload]
          simp only
          rw [mapM_of_forall (fun _ _ hchild => ih (Nat.le_add_right _ _) hchild) hchildren]
          rfl

/-! ## Saving -/

/-- The later store has these elements behind those of the earlier one, and they are the
nodes of the forms in post-order. Each of them is listed by one other, or is one of `ids`,
from which the forms are rebuilt. -/
structure Saved (store after : Store) (forms : List Form) (ids : List Nat)
    (added : List StoredNode) : Prop where
  elements : after.elements = store.elements ++ added
  fields : added.map StoredNode.fields = (Form.postorderOf forms).map FormLabel.fields
  listed : (added.flatMap StoredNode.children ++ ids).Perm
    (List.range' (store.size + 1) (Form.sizeAll forms))
  rebuilt : ids.mapM (after.rebuildWithin after.size) = some (Form.storedAll forms)

theorem saved_nil (store : Store) : store.Saved store [] [] [] :=
  ⟨(List.append_nil _).symm, rfl, .refl _, rfl⟩

theorem Saved.length {store after : Store} {forms : List Form} {ids : List Nat}
    {added : List StoredNode} (h : store.Saved after forms ids added) :
    added.length = Form.sizeAll forms := by
  simpa [Form.length_postorderOf] using congrArg List.length h.fields

theorem Saved.size_eq {store after : Store} {forms : List Form} {ids : List Nat}
    {added : List StoredNode} (h : store.Saved after forms ids added) :
    after.size = store.size + Form.sizeAll forms := by
  rw [← length_elements, h.elements, List.length_append, h.length, length_elements]

theorem Saved.rebuilt_single {store after : Store} {form : Form} {id : Nat}
    {added : List StoredNode} (h : store.Saved after [form] [id] added) :
    after.rebuildWithin after.size id = some form.stored := by
  have hrebuilt := h.rebuilt
  rw [List.mapM_cons] at hrebuilt
  obtain ⟨found, hfound, hsame⟩ := Option.bind_eq_some_iff.mp hrebuilt
  cases hsame
  exact hfound

theorem Saved.save {store after : Store} {children : List Form} {ids : List Nat}
    {added : List StoredNode} (h : store.Saved after children ids added) (label : FormLabel) :
    store.Saved (after.save ⟨label.tag, label.value, label.options, ids⟩).1
      [.node label children] [after.size + 1]
      (added ++ [⟨label.tag, label.value, label.options, ids⟩]) where
  elements := by rw [save_eq, elements_ofElements, h.elements, List.append_assoc]
  fields := by
    rw [List.map_append, h.fields, Form.postorderOf, Form.postorderOf, Form.postorder,
      List.append_nil, List.map_append]
    rfl
  listed := by
    have hsize : Form.sizeAll [.node label children] = Form.sizeAll children + 1 := rfl
    rw [List.flatMap_append, List.flatMap_singleton, hsize, List.range'_1_concat, h.size_eq,
      Nat.add_right_comm]
    exact h.listed.append_right _
  rebuilt := by
    have hchildren := mapM_of_forall (fun _ _ hchild => rebuildWithin_of_le (Nat.le_refl _)
      [⟨label.tag, label.value, label.options, ids⟩] hchild) h.rebuilt
    have hload : (ofElements (after.elements ++
        [⟨label.tag, label.value, label.options, ids⟩])).load (after.size + 1) =
          .ok ⟨label.tag, label.value, label.options, ids⟩ := by
      rw [load_eq_ok_iff, find?_succ, elements_ofElements, ← length_elements]
      simp
    rw [size_save, List.mapM_cons, rebuildWithin, save_eq, hload]
    simp only [hchildren]
    rfl

theorem Saved.cons {first second third : Store} {form : Form} {rest : List Form} {id : Nat}
    {ids : List Nat} {added further : List StoredNode} (h : first.Saved second [form] [id] added)
    (hrest : second.Saved third rest ids further) :
    first.Saved third (form :: rest) (id :: ids) (added ++ further) where
  elements := by rw [hrest.elements, h.elements, List.append_assoc]
  fields := by
    have hform : Form.postorderOf [form] = form.postorder := List.append_nil _
    rw [List.map_append, h.fields, hrest.fields, hform, Form.postorderOf, List.map_append]
  listed := by
    have hsize : Form.sizeAll (form :: rest) = Form.sizeAll [form] + Form.sizeAll rest := by
      simp only [Form.sizeAll, Nat.add_zero]
    have hlisted := h.listed.append hrest.listed
    rw [h.size_eq, Nat.add_right_comm, List.range'_append_1, ← hsize] at hlisted
    refine List.Perm.trans ?_ hlisted
    rw [List.flatMap_append, List.append_assoc, List.append_assoc]
    exact List.Perm.append_left _ List.perm_middle
  rebuilt := by
    have hgrown : third = ofElements (second.elements ++ further) := by
      rw [← hrest.elements, ofElements_elements]
    have hle : second.size ≤ third.size := by
      rw [hrest.size_eq]
      exact Nat.le_add_right _ _
    have hform : third.rebuildWithin third.size id = some form.stored := by
      rw [hgrown]
      exact rebuildWithin_of_le (hgrown ▸ hle) further h.rebuilt_single
    rw [List.mapM_cons, hform, hrest.rebuilt]
    rfl

mutual
theorem saved_saveForm (store : Store) (form : Form) :
    ∃ added, store.Saved (store.saveForm form).1 [form] [(store.saveForm form).2] added := by
  cases form with
  | node label children =>
      obtain ⟨added, hadded⟩ := saved_saveForms store children
      rw [saveForm, Form.saveWith_node, save_eq]
      exact ⟨_, save_eq _ _ ▸ hadded.save label⟩

theorem saved_saveForms (store : Store) (forms : List Form) :
    ∃ added, store.Saved (Form.saveAllWith save store forms).1 forms
      (Form.saveAllWith save store forms).2 added := by
  cases forms with
  | nil =>
      rw [Form.saveAllWith_nil]
      exact ⟨[], store.saved_nil⟩
  | cons form rest =>
      rw [Form.saveAllWith_cons]
      obtain ⟨added, hadded⟩ := saved_saveForm store form
      obtain ⟨further, hfurther⟩ := saved_saveForms (store.saveForm form).1 rest
      exact ⟨_, hadded.cons hfurther⟩
end

/-- Saving the form adds these elements with the ids that follow: its nodes in post-order,
the last of which is answered. The form is rebuilt from this id, elements that were there
stay as they were, and each new one but the last is listed by one of them, once. -/
structure Keeps (store : Store) (form : Form) (added : List StoredNode) : Prop where
  all : (store.saveForm form).1.all = store.all ++
    added.zipIdx.map (fun (element, index) => (store.size + 1 + index, element))
  last : (store.saveForm form).2 = store.size + added.length
  fields : added.map StoredNode.fields = form.postorder.map FormLabel.fields
  rebuilt : ∀ levels, (store.saveForm form).2 ≤ levels →
    (store.saveForm form).1.rebuildWithin levels (store.saveForm form).2 = some form.stored
  earlier : ∀ id, id ≤ store.size → (store.saveForm form).1.load id = store.load id
  listed : (added.flatMap StoredNode.children).Perm
    (List.range' (store.size + 1) (added.length - 1))

theorem exists_keeps (store : Store) (form : Form) :
    ∃ added, added.length = form.size ∧ store.Keeps form added := by
  obtain ⟨added, hadded⟩ := saved_saveForm store form
  have hlength : added.length = form.size := by simpa [Form.sizeAll] using hadded.length
  have hsize : (store.saveForm form).1.size = store.size + added.length := by
    rw [hlength, size_saveForm]
  have hlast := (snd_saveForm store form).trans hsize
  have hgrown : (store.saveForm form).1 = ofElements (store.elements ++ added) := by
    rw [← hadded.elements, ofElements_elements]
  refine ⟨added, hlength, ?_, hlast, ?_, fun levels hlevels => ?_, fun id hid => ?_, ?_⟩
  · rw [hgrown, all_append]
  · simpa [Form.postorderOf] using hadded.fields
  · have hrebuilt := rebuildWithin_of_le (snd_saveForm store form ▸ hlevels) []
      hadded.rebuilt_single
    rwa [List.append_nil, ofElements_elements] at hrebuilt
  · rw [hgrown, load_of_append hid]
  · have hpos : 0 < added.length := hlength ▸ form.size_pos
    have hcount : Form.sizeAll [form] = added.length - 1 + 1 := by
      rw [← hadded.length, Nat.sub_add_cancel hpos]
    have hend : store.size + 1 + (added.length - 1) = (store.saveForm form).2 := by omega
    have hlisted := hadded.listed
    rw [hcount, List.range'_1_concat, hend] at hlisted
    exact (List.perm_append_right_iff _).mp hlisted

end Store

namespace Workspace

/-- Every node that was compiled is kept by any store, with as many elements as there are
nodes below it. -/
theorem exists_keeps_of_node {schema : Schema} {settings : Settings} {requests : List Request}
    {root : FormId} (hroot : root.index < ((new schema settings).runAll requests).arena.size)
    (store : Store) :
    ∃ form added, ((new schema settings).runAll requests).arena.form? root = some form ∧
      added.length =
        (((new schema settings).runAll requests).arena.descendants root).length ∧
      store.Keeps form added := by
  obtain ⟨form, hform⟩ := (forest_of_new schema settings requests).traversedOnce hroot
  obtain ⟨cell, children, -, -, hread, -⟩ := hform.read
  obtain ⟨added, hlength, hkeeps⟩ := store.exists_keeps form
  have hnodes := hform.stored store
  rw [Store.size_saveForm, ← hlength] at hnodes
  exact ⟨form, added, hread, Nat.add_left_cancel hnodes, hkeeps⟩

end Workspace

open Workspace

def receiptDocument : Xml.Document :=
  .ofRoots (.plain "schema" [] [
    .plain "element" [("name", "receipt")] [
      .plain "complexType" [] [
        .plain "sequence" [] [
          .plain "element" [("name", "line"), ("minOccurs", "2"), ("maxOccurs", "unbounded"),
            ("default", "free")] []],
        .plain "attribute" [("name", "number")] []]]]) []

def listingStore : Store := .ofElements [⟨"folder", none, Text.Dictionary.empty, [2, 7]⟩]

theorem secondReceipt_kept :
    9 < ((new (Schema.given receiptDocument) .default).runAll
        [.root none none, .root (some "bill") none, .root none none]).arena.size ∧
      ∃ form added, ((new (Schema.given receiptDocument) .default).runAll
          [.root none none, .root (some "bill") none, .root none none]).arena.form? ⟨9⟩ =
            some form ∧
        added.length = (((new (Schema.given receiptDocument) .default).runAll
          [.root none none, .root (some "bill") none, .root none none]).arena.descendants
            ⟨9⟩).length ∧
        listingStore.Keeps form added := by
  have hsize : 9 < ((new (Schema.given receiptDocument) .default).runAll
      [.root none none, .root (some "bill") none, .root none none]).arena.size := by
    decide +kernel
  exact ⟨hsize, exists_keeps_of_node hsize listingStore⟩

end SchemaForms
