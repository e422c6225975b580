import SchemaForms.Form.Tree

/-!
# Arenas

An arena numbers the nodes of forms in the order in which they are created: the
children of a node, from the first to the last, before the node itself. Printed
numbers start at one.
-/

namespace SchemaForms

structure FormId where
  index : Nat
  deriving DecidableEq, Repr

def FormId.toText (id : FormId) : String := "#" ++ toString (id.index + 1)

structure Cell where
  label : FormLabel
  children : List FormId
  deriving DecidableEq, Repr

structure Arena where
  cells : Array Cell
  deriving DecidableEq, Repr

namespace Arena

def empty : Arena := ⟨#[]⟩

def size (arena : Arena) : Nat := arena.cells.size

def isEmpty (arena : Arena) : Bool := arena.size == 0

def cell? (arena : Arena) (id : FormId) : Option Cell := arena.cells[id.index]?

def tagOf (arena : Arena) (id : FormId) : String :=
  match arena.cell? id with
  | some cell => cell.label.tag
  | none => ""

def append (arena : Arena) (cell : Cell) : Arena × FormId :=
  (⟨arena.cells.push cell⟩, ⟨arena.size⟩)

/-- Changes the label of a node. -/
def relabel (arena : Arena) (id : FormId) (change : FormLabel → FormLabel) : Arena :=
  ⟨arena.cells.modify id.index fun cell => { cell with label := change cell.label }⟩

mutual
def insert (arena : Arena) : Form → Arena × FormId
  | .node label children =>
      let (arena, ids) := arena.insertAll children
      arena.append ⟨label, ids⟩

def insertAll (arena : Arena) : List Form → Arena × List FormId
  | [] => (arena, [])
  | form :: rest =>
      let (arena, id) := arena.insert form
      let (arena, ids) := arena.insertAll rest
      (arena, id :: ids)
end

@[simp] theorem size_append (arena : Arena) (cell : Cell) :
    (arena.append cell).1.size = arena.size + 1 := by
  simp [append, size]

@[simp] theorem cell?_append_self (arena : Arena) (cell : Cell) :
    (arena.append cell).1.cell? (arena.append cell).2 = some cell := by
  simp [append, cell?, size]

theorem cell?_append_of_lt (arena : Arena) (cell : Cell) {id : FormId}
    (h : id.index < arena.size) :
    (arena.append cell).1.cell? id = arena.cell? id := by
  have different : id.index ≠ arena.cells.size := Nat.ne_of_lt h
  simp [append, cell?, Array.getElem?_push, different]

mutual
theorem size_insert (arena : Arena) (form : Form) :
    (arena.insert form).1.size = arena.size + form.size := by
  cases form with
  | node label children =>
      simp only [insert, Form.size, size_append, size_insertAll arena children]
      omega

theorem size_insertAll (arena : Arena) (forms : List Form) :
    (arena.insertAll forms).1.size = arena.size + Form.sizeAll forms := by
  cases forms with
  | nil => rfl
  | cons form rest =>
      simp only [insertAll, Form.sizeAll, size_insertAll _ rest, size_insert arena form]
      omega
end

/-! ## Reading an arena -/

def children (arena : Arena) (id : FormId) : List FormId :=
  match arena.cell? id with
  | some cell => cell.children
  | none => []

def formsOf (form : FormId → Option Form) : List FormId → Option (List Form)
  | [] => some []
  | id :: rest =>
      match form id, formsOf form rest with
      | some first, some others => some (first :: others)
      | _, _ => none

/-- The form of a node that has at most that many levels. -/
def formWithin (arena : Arena) : Nat → FormId → Option Form
  | 0, _ => none
  | levels + 1, id =>
      match arena.cell? id with
      | none => none
      | some cell =>
          (formsOf (formWithin arena levels) cell.children).map (.node cell.label)

/-- The form of a node. Children come before their parents, so the position of a
node bounds its levels. -/
def form? (arena : Arena) (id : FormId) : Option Form :=
  arena.formWithin (id.index + 1) id

def preorderWithin (arena : Arena) : Nat → FormId → List FormId
  | 0, _ => []
  | levels + 1, id => id :: (arena.children id).flatMap (arena.preorderWithin levels)

/-- A node, and then the same for each of its children. -/
def preorder (arena : Arena) (id : FormId) : List FormId :=
  arena.preorderWithin (id.index + 1) id

def visitsWithin (arena : Arena) : Nat → FormId → Nat
  | 0, _ => 0
  | levels + 1, id => ((arena.children id).map (arena.visitsWithin levels)).sum + 1

/-- Takes nodes from a stack and puts their children there, as often as the fuel tells. -/
def visit (arena : Arena) : Nat → List FormId → List FormId
  | 0, _ => []
  | _, [] => []
  | fuel + 1, id :: stack => id :: arena.visit fuel (arena.children id ++ stack)

/-- A node and all below it, visited with a stack. -/
def descendants (arena : Arena) (id : FormId) : List FormId :=
  arena.visit (arena.visitsWithin (id.index + 1) id) [id]

def pathOf? (arena : Arena) (id : FormId) : Option String :=
  (arena.cell? id).map (·.label.path)

/-- The first node with that path among a node and all below it. -/
def firstAt (arena : Arena) (root : FormId) (path : String) : Option FormId :=
  (arena.descendants root).find? fun id => arena.pathOf? id == some path

end Arena

end SchemaForms
