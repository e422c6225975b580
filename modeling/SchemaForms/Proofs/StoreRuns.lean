import SchemaForms.Proofs.Dictionaries
import SchemaForms.Store.Basic

/-!
# Runs of a store

A store that starts empty is used by any sequence of operations. It stays an
append-only map: saves are numbered from one on, those of the nodes of a form
among them, an id is answered with what was last written under it, and the
parents of an element are those whose current list of children has it.

The run keeps a journal of what was written. A store that follows its journal is
the invariant: its counter has come to the number of saves, its ids are those up
to the counter, and under each is what was written last. Saving and updating keep
it, and from it every answer is read off.
-/

namespace SchemaForms

inductive StoreOperation where
  | save (element : StoredNode)
  | saveForm (form : Form)
  | update (id : Nat) (element : StoredNode)
  | load (id : Nat)
  | parentsOf (child : Nat)
  | all
  deriving Repr

inductive StoreAnswer where
  | saved (id : Nat)
  | updated
  | loaded (element : StoredNode)
  | ids (ids : List Nat)
  | elements (elements : List (Nat × StoredNode))
  deriving DecidableEq, Repr

/-- What a store was made to hold under an id, by a save or by an update. -/
inductive StoreWrite where
  | saved (id : Nat) (element : StoredNode)
  | updated (id : Nat) (element : StoredNode)
  deriving DecidableEq, Repr

namespace StoreWrite

def id : StoreWrite → Nat
  | .saved id _ => id
  | .updated id _ => id

def element : StoreWrite → StoredNode
  | .saved _ element => element
  | .updated _ element => element

def savedId? : StoreWrite → Option Nat
  | .saved id _ => some id
  | .updated _ _ => none

def savedIds (writes : List StoreWrite) : List Nat :=
  writes.filterMap savedId?

/-- The element that was written last under an id. -/
def lastAt (id : Nat) (writes : List StoreWrite) : Option StoredNode :=
  ((writes.filter fun write => write.id = id).map element).getLast?

theorem savedIds_append (writes more : List StoreWrite) :
    savedIds (writes ++ more) = savedIds writes ++ savedIds more :=
  List.filterMap_append

theorem lastAt_concat (id : Nat) (writes : List StoreWrite) (write : StoreWrite) :
    lastAt id (writes ++ [write]) =
      if write.id = id then some write.element else lastAt id writes := by
  by_cases same : write.id = id <;> simp [lastAt, List.filter_append, same]

end StoreWrite

namespace MemoryStore

/-! ## The operations of a run -/

def perform (store : MemoryStore) : StoreOperation → Except StoreError StoreAnswer × MemoryStore
  | .save element => (.ok (.saved (store.save element).2), (store.save element).1)
  | .saveForm form => (.ok (.saved (store.saveForm form).2), (store.saveForm form).1)
  | .update id element =>
      match store.update id element with
      | .ok after => (.ok .updated, after)
      | .error error => (.error error, store)
  | .load id => ((store.load id).map .loaded, store)
  | .parentsOf child => (.ok (.ids (store.parentsOf child)), store)
  | .all => (.ok (.elements store.all), store)

def performAll (store : MemoryStore) : List StoreOperation → MemoryStore
  | [] => store
  | operation :: rest => (store.perform operation).2.performAll rest

mutual
def savesOf (store : MemoryStore) : Form → List StoreWrite
  | .node label children =>
      let (below, ids) := store.saveForms children
      let element := ⟨label.tag, label.value, label.options, ids⟩
      store.savesOfAll children ++ [.saved (below.save element).2 element]

def savesOfAll (store : MemoryStore) : List Form → List StoreWrite
  | [] => []
  | form :: rest => store.savesOf form ++ (store.saveForm form).1.savesOfAll rest
end

def writesOf (store : MemoryStore) : StoreOperation → List StoreWrite
  | .save element => [.saved (store.save element).2 element]
  | .saveForm form => store.savesOf form
  | .update id element =>
      match store.update id element with
      | .ok _ => [.updated id element]
      | .error _ => []
  | .load _ => []
  | .parentsOf _ => []
  | .all => []

def journal (store : MemoryStore) : List StoreOperation → List StoreWrite
  | [] => []
  | operation :: rest => store.writesOf operation ++ (store.perform operation).2.journal rest

/-! ## What a store holds -/

theorem load_eq_ok_iff {store : MemoryStore} {id : Nat} {element : StoredNode} :
    store.load id = .ok element ↔ store.find? id = some element := by
  rw [load]
  cases store.find? id <;> simp

theorem load_eq_absent_iff {store : MemoryStore} {id : Nat} :
    store.load id = .error (.absent id) ↔ ¬ (store.find? id).isSome = true := by
  rw [load]
  cases store.find? id <;> simp

theorem find?_save (store : MemoryStore) (element : StoredNode) (id : Nat) :
    (store.save element).1.find? id =
      if store.lastId + 1 = id then some element else store.find? id := by
  by_cases same : store.lastId + 1 = id
  · rw [if_pos same, ← same]
    exact Entries.lookup_place_self _ _ _
  · rw [if_neg same]
    exact Entries.lookup_place_of_ne (Ne.symm same) _ _

theorem find?_put (store : MemoryStore) (id : Nat) (element : StoredNode) (other : Nat) :
    (store.put id element).find? other =
      if id = other then some element else store.find? other := by
  by_cases same : id = other
  · rw [if_pos same, ← same]
    exact Entries.lookup_place_self _ _ _
  · rw [if_neg same]
    exact Entries.lookup_place_of_ne (Ne.symm same) _ _

theorem update_eq_ok {store after : MemoryStore} {id : Nat} {element : StoredNode}
    (h : store.update id element = .ok after) :
    (store.find? id).isSome = true ∧ after = store.put id element := by
  rw [update] at h
  cases hfound : store.find? id with
  | none =>
      rw [hfound] at h
      cases h
  | some held =>
      rw [hfound] at h
      cases h
      exact ⟨rfl, rfl⟩

theorem update_of_isSome {store : MemoryStore} {id : Nat}
    (h : (store.find? id).isSome = true) (element : StoredNode) :
    store.update id element = .ok (store.put id element) := by
  obtain ⟨held, hheld⟩ := Option.isSome_iff_exists.mp h
  rw [update, hheld]

theorem update_of_not_isSome {store : MemoryStore} {id : Nat}
    (h : ¬ (store.find? id).isSome = true) (element : StoredNode) :
    store.update id element = .error (.absent id) := by
  rw [update, Option.not_isSome_iff_eq_none.mp h]

theorem load_put (store : MemoryStore) (id : Nat) (element : StoredNode) (other : Nat) :
    (store.put id element).load other =
      if id = other then .ok element else store.load other := by
  rw [load, find?_put]
  by_cases same : id = other
  · rw [if_pos same, if_pos same]
  · rw [if_neg same, if_neg same, load]

theorem Numbered.mem_all_iff {store : MemoryStore} (h : store.Numbered) {id : Nat}
    {element : StoredNode} : (id, element) ∈ store.all ↔ store.load id = .ok element := by
  have ascending : (store.elements.map (·.1)).Pairwise (· < ·) := h ▸ List.pairwise_lt_range'
  rw [load_eq_ok_iff, all, find?, Entries.lookup_eq_some_iff (List.pairwise_map.mp ascending)]

theorem Numbered.mem_parentsOf_iff {store : MemoryStore} (h : store.Numbered) {child id : Nat} :
    id ∈ store.parentsOf child ↔
      ∃ element, store.load id = .ok element ∧ child ∈ element.children := by
  simp [parentsOf, ← h.mem_all_iff, all]

theorem Numbered.pairwise_lt_parentsOf {store : MemoryStore} (h : store.Numbered) (child : Nat) :
    (store.parentsOf child).Pairwise (· < ·) := by
  have ascending : (store.elements.map (·.1)).Pairwise (· < ·) := h ▸ List.pairwise_lt_range'
  exact ascending.sublist (List.filter_sublist.map _)

/-! ## A store and its journal -/

/-- The store is what these writes leave of one that was empty. -/
structure Follows (store : MemoryStore) (writes : List StoreWrite) : Prop where
  counted : StoreWrite.savedIds writes = List.range' 1 store.lastId
  numbered : store.Numbered
  held : ∀ id, store.find? id = StoreWrite.lastAt id writes

theorem follows_empty : empty.Follows [] := ⟨rfl, numbered_empty, fun _ => rfl⟩

theorem Follows.save {store : MemoryStore} {writes : List StoreWrite} (h : store.Follows writes)
    (element : StoredNode) :
    (store.save element).1.Follows (writes ++ [.saved (store.save element).2 element]) where
  counted := by
    rw [StoreWrite.savedIds_append, h.counted, MemoryStore.save, List.range'_1_concat,
      Nat.add_comm 1 store.lastId]
    rfl
  numbered := h.numbered.save element
  held id := by
    rw [StoreWrite.lastAt_concat, ← h.held, find?_save]
    rfl

theorem Follows.put {store : MemoryStore} {writes : List StoreWrite} (h : store.Follows writes)
    {id : Nat} (hid : (store.find? id).isSome = true) (element : StoredNode) :
    (store.put id element).Follows (writes ++ [.updated id element]) where
  counted := by
    rw [StoreWrite.savedIds_append, h.counted]
    exact List.append_nil _
  numbered := h.numbered.put hid element
  held other := by
    rw [StoreWrite.lastAt_concat, ← h.held, find?_put]
    rfl

mutual
theorem Follows.saveForm {store : MemoryStore} {writes : List StoreWrite}
    (h : store.Follows writes) (form : Form) :
    (store.saveForm form).1.Follows (writes ++ store.savesOf form) := by
  cases form with
  | node label children =>
      rw [savesOf, ← List.append_assoc, MemoryStore.saveForm, Form.saveWith_node]
      exact (h.saveForms children).save _

theorem Follows.saveForms {store : MemoryStore} {writes : List StoreWrite}
    (h : store.Follows writes) (forms : List Form) :
    (store.saveForms forms).1.Follows (writes ++ store.savesOfAll forms) := by
  cases forms with
  | nil => rwa [savesOfAll, List.append_nil, MemoryStore.saveForms, Form.saveAllWith_nil]
  | cons form rest =>
      rw [savesOfAll, ← List.append_assoc, MemoryStore.saveForms, Form.saveAllWith_cons]
      exact Follows.saveForms (h.saveForm form) rest
end

variable {store : MemoryStore} {writes : List StoreWrite}

/-- Every operation leaves a store that follows the journal with what it wrote. -/
theorem Follows.perform (h : store.Follows writes) (operation : StoreOperation) :
    (store.perform operation).2.Follows (writes ++ store.writesOf operation) := by
  cases operation with
  | save element => exact h.save element
  | saveForm form => exact h.saveForm form
  | update id element =>
      rw [MemoryStore.perform, writesOf]
      cases hupdate : store.update id element with
      | ok after =>
          obtain ⟨hid, rfl⟩ := update_eq_ok hupdate
          exact h.put hid element
      | error error => rwa [List.append_nil]
  | load id => rwa [writesOf, List.append_nil]
  | parentsOf child => rwa [writesOf, List.append_nil]
  | all => rwa [writesOf, List.append_nil]

theorem Follows.performAll (h : store.Follows writes) (operations : List StoreOperation) :
    (store.performAll operations).Follows (writes ++ store.journal operations) := by
  induction operations generalizing store writes with
  | nil => rwa [journal, List.append_nil]
  | cons operation rest ih =>
      rw [journal, ← List.append_assoc]
      exact ih (h.perform operation)

/-! ## What a run leaves -/

/-- The store answers as the writes tell: its counter and its ids are those of the saves, the
last write under an id is what it is answered with, and the children that are held now decide
who is a parent. -/
structure AppendOnly (store : MemoryStore) (writes : List StoreWrite) : Prop where
  numbered : StoreWrite.savedIds writes = List.range' 1 (StoreWrite.savedIds writes).length
  counted : store.lastId = (StoreWrite.savedIds writes).length
  ids : store.all.map (·.1) = StoreWrite.savedIds writes
  loaded : ∀ id element,
    store.load id = .ok element ↔ StoreWrite.lastAt id writes = some element
  absent : ∀ id, store.load id = .error (.absent id) ↔ id ∉ StoreWrite.savedIds writes
  listed : ∀ id element, (id, element) ∈ store.all ↔ store.load id = .ok element
  parents : ∀ child id, id ∈ store.parentsOf child ↔
    ∃ element, store.load id = .ok element ∧ child ∈ element.children
  ascending : ∀ child, (store.parentsOf child).Pairwise (· < ·)
  saved : ∀ element, (store.perform (.save element)).1 =
    .ok (.saved ((StoreWrite.savedIds writes).length + 1))
  savedForm : ∀ form, (store.perform (.saveForm form)).1 =
    .ok (.saved ((StoreWrite.savedIds writes).length + form.size))
  updated : ∀ id ∈ StoreWrite.savedIds writes, ∀ element,
    (store.perform (.update id element)).1 = .ok .updated ∧
      ∀ other, (store.perform (.update id element)).2.load other =
        if id = other then .ok element else store.load other
  refused : ∀ id, id ∉ StoreWrite.savedIds writes → ∀ element,
    store.perform (.update id element) = (.error (.absent id), store)

theorem Follows.isSome_iff (h : store.Follows writes) {id : Nat} :
    (store.find? id).isSome = true ↔ id ∈ StoreWrite.savedIds writes := by
  rw [h.numbered.find?_isSome_iff, h.counted, List.mem_range'_1]
  omega

theorem Follows.length_savedIds (h : store.Follows writes) :
    (StoreWrite.savedIds writes).length = store.lastId := by
  rw [h.counted, List.length_range']

theorem snd_saveForm (store : MemoryStore) (form : Form) :
    (store.saveForm form).2 = store.lastId + form.size := by
  have hnext : ∀ (store : MemoryStore) element, (store.save element).1.lastId = store.lastId + 1 :=
    fun _ _ => rfl
  have hcount := Form.count_saveWith save hnext store form
  cases form with
  | node label children =>
      rw [← hcount, saveForm, Form.saveWith_node]
      rfl

theorem Follows.appendOnly (h : store.Follows writes) : store.AppendOnly writes where
  numbered := by rw [h.length_savedIds, h.counted]
  counted := h.length_savedIds.symm
  ids := h.numbered.trans h.counted.symm
  loaded id element := by rw [load_eq_ok_iff, h.held]
  absent id := by rw [load_eq_absent_iff, h.isSome_iff]
  listed id element := h.numbered.mem_all_iff
  parents child id := h.numbered.mem_parentsOf_iff
  ascending := h.numbered.pairwise_lt_parentsOf
  saved element := by
    rw [h.length_savedIds]
    rfl
  savedForm form := by rw [h.length_savedIds, MemoryStore.perform, snd_saveForm]
  updated id hid element := by
    rw [MemoryStore.perform, update_of_isSome (h.isSome_iff.mpr hid)]
    exact ⟨rfl, load_put store id element⟩
  refused id hid element := by
    rw [← h.isSome_iff] at hid
    rw [MemoryStore.perform, update_of_not_isSome hid]

/-- Whatever a new store is used for, it answers as its journal tells. -/
theorem appendOnly_of_run (operations : List StoreOperation) :
    (empty.performAll operations).AppendOnly (empty.journal operations) :=
  (follows_empty.performAll operations).appendOnly

/-- The second folder no longer lists itself, and nothing was saved under the seventh id. -/
example :
    let folder (children : List Nat) : StoredNode :=
      ⟨"folder", none, Text.Dictionary.empty, children⟩
    let run : List StoreOperation :=
      [.save (folder [2]), .save (folder [2]), .update 7 (folder [2]), .update 2 (folder [])]
    (empty.performAll run).parentsOf 2 = [1] ∧
      empty.journal run = [.saved 1 (folder [2]), .saved 2 (folder [2]),
        .updated 2 (folder [])] := by
  decide

end MemoryStore

end SchemaForms
