import SchemaForms.Store.Memory

/-!
# Stores

In a store the ids count from one and none is missing: it is what a memory is
after any use. So its elements are known as a list, and an id is the position of
its element in that list. Ids are never given twice.
-/

namespace SchemaForms

namespace Entries

variable {α : Type}

theorem lookup_of_range' {start count : Nat} {entries : List (Nat × α)}
    (h : entries.map (·.1) = List.range' start count) (index : Nat) :
    lookup (start + index) entries = (entries.map (·.2))[index]? := by
  induction entries generalizing start count index with
  | nil => rfl
  | cons entry rest ih =>
      obtain ⟨key, value⟩ := entry
      cases count with
      | zero => cases h
      | succ count =>
          rw [List.map_cons, List.range'_succ, List.cons.injEq] at h
          obtain ⟨same, later⟩ := h
          simp only at same
          subst same
          cases index with
          | zero => simp [lookup]
          | succ index =>
              rw [lookup, if_neg (by omega), Nat.add_left_comm, Nat.add_comm, ih later]
              simp

theorem lookup_eq_none_of_lt {start count : Nat} {entries : List (Nat × α)}
    (h : entries.map (·.1) = List.range' start count) {key : Nat} (below : key < start) :
    lookup key entries = none := by
  induction entries generalizing start count with
  | nil => rfl
  | cons entry rest ih =>
      obtain ⟨other, value⟩ := entry
      cases count with
      | zero => cases h
      | succ count =>
          rw [List.map_cons, List.range'_succ, List.cons.injEq] at h
          obtain ⟨same, later⟩ := h
          simp only at same
          subst same
          rw [lookup, if_neg (Nat.ne_of_gt below), ih later (Nat.lt_succ_of_lt below)]

theorem place_of_forall_lt {key : Nat} (value : α) {entries : List (Nat × α)}
    (h : ∀ entry ∈ entries, entry.1 < key) :
    place key value entries = entries ++ [(key, value)] := by
  induction entries with
  | nil => rfl
  | cons entry rest ih =>
      obtain ⟨other, old⟩ := entry
      have before : other < key := h _ List.mem_cons_self
      rw [place, if_neg (Nat.ne_of_gt before), if_neg (Nat.lt_asymm before),
        ih fun entry hentry => h entry (List.mem_cons_of_mem _ hentry)]
      rfl

theorem map_fst_place_of_range' {start count : Nat} {entries : List (Nat × α)}
    (h : entries.map (·.1) = List.range' start count) {index : Nat} (within : index < count)
    (value : α) : (place (start + index) value entries).map (·.1) = List.range' start count ∧
      (place (start + index) value entries).map (·.2) = (entries.map (·.2)).set index value := by
  induction entries generalizing start count index with
  | nil =>
      cases count with
      | zero => cases within
      | succ count => cases h
  | cons entry rest ih =>
      obtain ⟨other, old⟩ := entry
      cases count with
      | zero => cases h
      | succ count =>
          have keys := h
          rw [List.map_cons, List.range'_succ, List.cons.injEq] at h
          obtain ⟨same, later⟩ := h
          simp only at same
          subst same
          cases index with
          | zero => simp [place, later, List.range'_succ]
          | succ index =>
              have next := ih later (Nat.lt_of_succ_lt_succ within)
              rw [Nat.add_assoc, Nat.add_comm 1] at next
              rw [place, if_neg (by omega), if_neg (by omega), List.map_cons, List.map_cons,
                next.1, next.2, List.map_cons, List.range'_succ]
              exact ⟨rfl, rfl⟩

end Entries

namespace MemoryStore

/-- The ids are those up to the last one that was given. -/
def Numbered (store : MemoryStore) : Prop :=
  store.elements.map (·.1) = List.range' 1 store.lastId

variable {store : MemoryStore}

theorem numbered_empty : empty.Numbered := rfl

theorem Numbered.size_eq (h : store.Numbered) : store.size = store.lastId := by
  simpa [size] using congrArg List.length h

theorem Numbered.elements_save (h : store.Numbered) (element : StoredNode) :
    (store.save element).1.elements = store.elements ++ [(store.lastId + 1, element)] := by
  refine Entries.place_of_forall_lt element fun entry hentry => ?_
  have given : entry.1 ∈ store.elements.map (·.1) := List.mem_map_of_mem hentry
  rw [h, List.mem_range'_1] at given
  omega

theorem Numbered.save (h : store.Numbered) (element : StoredNode) :
    (store.save element).1.Numbered := by
  rw [Numbered, h.elements_save, List.map_append, h]
  simp [MemoryStore.save, List.range'_1_concat, Nat.add_comm]

theorem Numbered.find?_isSome_iff (h : store.Numbered) (id : Nat) :
    (store.find? id).isSome = true ↔ 1 ≤ id ∧ id ≤ store.lastId := by
  cases id with
  | zero => simp [find?, Entries.lookup_eq_none_of_lt h]
  | succ index =>
      rw [find?, Nat.add_comm, Entries.lookup_of_range' h, isSome_getElem?]
      have length := h.size_eq
      simp only [size] at length
      simp only [List.length_map]
      omega

theorem Numbered.put (h : store.Numbered) {id : Nat} (given : (store.find? id).isSome = true)
    (element : StoredNode) : (store.put id element).Numbered := by
  rw [h.find?_isSome_iff] at given
  obtain ⟨index, rfl⟩ := Nat.exists_eq_add_of_le given.1
  exact (Entries.map_fst_place_of_range' h (by omega) element).1

end MemoryStore

structure Store where
  memory : MemoryStore
  numbered : memory.Numbered
  deriving DecidableEq

namespace Store

def empty : Store := ⟨.empty, MemoryStore.numbered_empty⟩

def size (store : Store) : Nat := store.memory.size

def isEmpty (store : Store) : Bool := store.memory.isEmpty

/-- The element with that id, if there is one. -/
def find? (store : Store) (id : Nat) : Option StoredNode := store.memory.find? id

def save (store : Store) (element : StoredNode) : Store × Nat :=
  (⟨(store.memory.save element).1, store.numbered.save element⟩, (store.memory.save element).2)

def load (store : Store) (id : Nat) : Except StoreError StoredNode := store.memory.load id

def update (store : Store) (id : Nat) (element : StoredNode) : Except StoreError Store :=
  if given : (store.memory.find? id).isSome = true then
    .ok ⟨store.memory.put id element, store.numbered.put given element⟩
  else .error (.absent id)

/-- All ids in ascending order, each with its element. -/
def all (store : Store) : List (Nat × StoredNode) := store.memory.all

/-- The ids of the elements that have a child with that id. -/
def parentsOf (store : Store) (child : Nat) : List Nat := store.memory.parentsOf child

/-- Saves a form, the children of a node before it. -/
def saveForm : Store → Form → Store × Nat := Form.saveWith save

/-! ## Stores as lists -/

def elements (store : Store) : List StoredNode := store.memory.elements.map (·.2)

def ofElements (elements : List StoredNode) : Store where
  memory := ⟨elements.zipIdx.map fun (element, index) => (index + 1, element), elements.length⟩
  numbered := by
    have indices : elements.zipIdx.map (·.2) = List.range' 0 elements.length :=
      List.zipIdx_map_snd 0 elements
    have shifted := congrArg (List.map (· + 1)) indices
    rw [← List.range'_succ_left, List.map_map] at shifted
    rw [MemoryStore.Numbered, List.map_map]
    exact shifted

@[simp] theorem elements_ofElements (elements : List StoredNode) :
    (ofElements elements).elements = elements := by
  rw [Store.elements, ofElements, List.map_map]
  exact List.zipIdx_map_fst 0 elements

theorem length_elements (store : Store) : store.elements.length = store.size :=
  List.length_map _

theorem lastId_eq_size (store : Store) : store.memory.lastId = store.size :=
  store.numbered.size_eq.symm

theorem map_fst_all (store : Store) : store.all.map (·.1) = List.range' 1 store.size := by
  rw [← lastId_eq_size]
  exact store.numbered

@[simp] theorem find?_zero (store : Store) : store.find? 0 = none :=
  Entries.lookup_eq_none_of_lt store.numbered Nat.one_pos

@[simp] theorem find?_succ (store : Store) (index : Nat) :
    store.find? (index + 1) = store.elements[index]? := by
  rw [find?, MemoryStore.find?, Nat.add_comm, Entries.lookup_of_range' store.numbered, elements]

theorem all_eq (store : Store) :
    store.all = store.elements.zipIdx.map fun (element, index) => (index + 1, element) := by
  refine List.ext_getElem? fun index => ?_
  rw [all, MemoryStore.all, elements, List.getElem?_map, List.getElem?_zipIdx, List.getElem?_map]
  cases found : store.memory.elements[index]? with
  | none => rfl
  | some entry =>
      have key : (store.memory.elements.map (·.1))[index]? = some entry.1 := by
        rw [List.getElem?_map, found]
        rfl
      obtain ⟨within, key⟩ := List.getElem?_eq_some_iff.mp (store.numbered ▸ key)
      rw [List.getElem_range', Nat.one_mul, Nat.add_comm] at key
      rw [Option.map_some, Option.map_some, Option.map_some, Nat.zero_add]
      exact congrArg some (Prod.ext key.symm rfl)

/-- A store is known by the list of its elements. -/
theorem ofElements_elements (store : Store) : ofElements store.elements = store := by
  have entries : (ofElements store.elements).memory.elements = store.memory.elements :=
    store.all_eq.symm
  have lastId : (ofElements store.elements).memory.lastId = store.memory.lastId :=
    store.length_elements.trans store.lastId_eq_size.symm
  generalize ofElements store.elements = listed at entries lastId
  obtain ⟨⟨held, last⟩, numbered⟩ := store
  obtain ⟨⟨_, _⟩, _⟩ := listed
  cases entries
  cases lastId
  rfl

theorem save_eq (store : Store) (element : StoredNode) :
    store.save element = (ofElements (store.elements ++ [element]), store.size + 1) := by
  have grown : (store.save element).1.elements = store.elements ++ [element] := by
    rw [elements, save, store.numbered.elements_save, List.map_append]
    rfl
  rw [← grown, ofElements_elements, ← lastId_eq_size]
  rfl

theorem update_eq (store : Store) (id : Nat) (element : StoredNode) :
    store.update id element =
      match store.find? id with
      | some _ => .ok (ofElements (store.elements.set (id - 1) element))
      | none => .error (.absent id) := by
  rw [update]
  cases found : store.find? id with
  | none => exact dif_neg (by rw [← find?, found]; decide)
  | some held =>
      have given : (store.memory.find? id).isSome = true := by
        rw [← find?, found, Option.isSome_some]
      rw [dif_pos given]
      have within := (store.numbered.find?_isSome_iff id).mp given
      obtain ⟨index, rfl⟩ := Nat.exists_eq_add_of_le within.1
      have below : index < store.memory.lastId := by omega
      have values := (Entries.map_fst_place_of_range' store.numbered below element).2
      rw [Nat.add_sub_cancel_left, elements, ← values]
      exact congrArg Except.ok (ofElements_elements ⟨store.memory.put (1 + index) element, _⟩).symm

@[simp] theorem size_save (store : Store) (element : StoredNode) :
    (store.save element).1.size = store.size + 1 := by
  rw [save_eq, ← length_elements, elements_ofElements, List.length_append, length_elements]
  rfl

theorem size_saveForm (store : Store) (form : Form) :
    (store.saveForm form).1.size = store.size + form.size :=
  Form.count_saveWith save size_save store form

theorem snd_saveForm (store : Store) (form : Form) :
    (store.saveForm form).2 = (store.saveForm form).1.size := by
  cases form with
  | node label children => rw [saveForm, Form.saveWith_node, size_save, save_eq]

theorem find?_isSome_iff (store : Store) (id : Nat) :
    (store.find? id).isSome = true ↔ 1 ≤ id ∧ id ≤ store.size := by
  rw [find?, store.numbered.find?_isSome_iff, lastId_eq_size]

theorem load_eq_ok_iff {store : Store} {id : Nat} {element : StoredNode} :
    store.load id = .ok element ↔ store.find? id = some element := by
  rw [load, MemoryStore.load, find?]
  cases store.memory.find? id <;> simp

end Store

end SchemaForms
