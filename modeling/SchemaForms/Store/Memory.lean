import SchemaForms.Entries
import SchemaForms.Form.Tree

/-!
# Elements in memory

A form is stored as elements under ids, which list the ids of their children.
The memory holds them in the order of the ids and counts the ids that it gives:
every element that is saved gets the next one.
-/

namespace SchemaForms

structure StoredNode where
  tag : String
  value : Option String
  options : Options
  children : List Nat
  deriving DecidableEq, Repr

inductive StoreError where
  | absent (id : Nat)
  | failing (reason : String)
  deriving DecidableEq, Repr

def StoreError.message : StoreError → String
  | .absent id => "no data structure element with id " ++ toString id
  | .failing reason => "storage backend failure: " ++ reason

mutual
/-- Saves a form, the children of a node before it. -/
def Form.saveWith {σ : Type} (save : σ → StoredNode → σ × Nat) (store : σ) : Form → σ × Nat
  | .node label children =>
      let (store, ids) := saveAllWith save store children
      save store ⟨label.tag, label.value, label.options, ids⟩

def Form.saveAllWith {σ : Type} (save : σ → StoredNode → σ × Nat) (store : σ) :
    List Form → σ × List Nat
  | [] => (store, [])
  | form :: rest =>
      let (store, id) := saveWith save store form
      let (store, ids) := saveAllWith save store rest
      (store, id :: ids)
end

section

variable {σ : Type} (save : σ → StoredNode → σ × Nat)

theorem Form.saveWith_node (store : σ) (label : FormLabel) (children : List Form) :
    saveWith save store (.node label children) = save (saveAllWith save store children).1
      ⟨label.tag, label.value, label.options, (saveAllWith save store children).2⟩ := by
  rw [saveWith]

theorem Form.saveAllWith_nil (store : σ) : saveAllWith save store [] = (store, []) := by
  rw [saveAllWith]

theorem Form.saveAllWith_cons (store : σ) (form : Form) (rest : List Form) :
    saveAllWith save store (form :: rest) =
      ((saveAllWith save (saveWith save store form).1 rest).1,
        (saveWith save store form).2 ::
          (saveAllWith save (saveWith save store form).1 rest).2) := by
  rw [saveAllWith]

mutual
/-- What counts the saves counts one for each node of a form. -/
theorem Form.count_saveWith {count : σ → Nat}
    (h : ∀ store element, count (save store element).1 = count store + 1) (store : σ)
    (form : Form) : count (saveWith save store form).1 = count store + form.size := by
  cases form with
  | node label children =>
      rw [saveWith_node, h, count_saveAllWith h store children, size, Nat.add_assoc]

theorem Form.count_saveAllWith {count : σ → Nat}
    (h : ∀ store element, count (save store element).1 = count store + 1) (store : σ)
    (forms : List Form) :
    count (saveAllWith save store forms).1 = count store + sizeAll forms := by
  cases forms with
  | nil => rw [saveAllWith_nil, sizeAll, Nat.add_zero]
  | cons form rest =>
      rw [saveAllWith_cons, count_saveAllWith h _ rest, count_saveWith h store form, sizeAll,
        Nat.add_assoc]
end

end

structure MemoryStore where
  elements : List (Nat × StoredNode)
  lastId : Nat
  deriving DecidableEq, Repr

namespace MemoryStore

def empty : MemoryStore := ⟨[], 0⟩

def size (store : MemoryStore) : Nat := store.elements.length

def isEmpty (store : MemoryStore) : Bool := store.elements.isEmpty

def find? (store : MemoryStore) (id : Nat) : Option StoredNode :=
  Entries.lookup id store.elements

def save (store : MemoryStore) (element : StoredNode) : MemoryStore × Nat :=
  let id := store.lastId + 1
  (⟨Entries.place id element store.elements, id⟩, id)

def load (store : MemoryStore) (id : Nat) : Except StoreError StoredNode :=
  match store.find? id with
  | some element => .ok element
  | none => .error (.absent id)

def put (store : MemoryStore) (id : Nat) (element : StoredNode) : MemoryStore :=
  { store with elements := Entries.place id element store.elements }

def update (store : MemoryStore) (id : Nat) (element : StoredNode) :
    Except StoreError MemoryStore :=
  match store.find? id with
  | some _ => .ok (store.put id element)
  | none => .error (.absent id)

/-- All ids in ascending order, each with its element. -/
def all (store : MemoryStore) : List (Nat × StoredNode) := store.elements

/-- The ids of the elements that have a child with that id. -/
def parentsOf (store : MemoryStore) (child : Nat) : List Nat :=
  (store.elements.filter fun (_, element) => element.children.contains child).map (·.1)

def saveForm : MemoryStore → Form → MemoryStore × Nat := Form.saveWith save

def saveForms : MemoryStore → List Form → MemoryStore × List Nat := Form.saveAllWith save

end MemoryStore

end SchemaForms
