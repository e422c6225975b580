import SchemaForms.Form.Arena
import SchemaForms.Form.Written

/-!
# Writing from an arena

The element with a number is written by two functions: one gathers the elements
in the content of a node, the other writes an element and then those that were
gathered from its children. Beside their results they list the nodes that each
of them has been called on.
-/

namespace SchemaForms

open Xml (Markup)

structure Gathering where
  elements : List FormId
  visited : List FormId

def Gathering.each (gather : FormId → Gathering) (ids : List FormId) : Gathering where
  elements := ids.flatMap fun id => (gather id).elements
  visited := ids.flatMap fun id => (gather id).visited

structure Writing where
  markup : Markup
  gathered : List FormId
  written : List FormId

namespace Arena

def isSelected (arena : Arena) (id : FormId) : Bool :=
  (arena.cell? id).any fun cell => cell.label.options.selected? == some true

/-- The children of a group whose elements stand in its place. -/
def transparent (arena : Arena) (cell : Cell) : List FormId :=
  match cell.label.kind with
  | .sequence => cell.children
  | .choice => cell.children.filter arena.isSelected
  | .element => []
  | .attributeUse => []

theorem transparent_sublist (arena : Arena) (cell : Cell) :
    (arena.transparent cell).Sublist cell.children := by
  rw [transparent]
  split
  · exact List.Sublist.refl _
  · exact List.filter_sublist
  · exact List.nil_sublist _
  · exact List.nil_sublist _

def gatherWithin (arena : Arena) : Nat → FormId → Gathering
  | 0, _ => ⟨[], []⟩
  | levels + 1, id =>
      match arena.cell? id with
      | none => ⟨[], [id]⟩
      | some cell =>
          let below := Gathering.each (arena.gatherWithin levels) (arena.transparent cell)
          { elements := if cell.label.kind = .element then [id] else below.elements
            visited := id :: below.visited }

theorem gatherWithin_of_none {arena : Arena} {id : FormId} (hcell : arena.cell? id = none)
    (levels : Nat) : arena.gatherWithin (levels + 1) id = ⟨[], [id]⟩ := by
  rw [gatherWithin, hcell]

theorem gatherWithin_of_some {arena : Arena} {id : FormId} {cell : Cell}
    (hcell : arena.cell? id = some cell) (levels : Nat) :
    arena.gatherWithin (levels + 1) id =
      { elements := if cell.label.kind = .element then [id]
          else (Gathering.each (arena.gatherWithin levels) (arena.transparent cell)).elements
        visited := id ::
          (Gathering.each (arena.gatherWithin levels) (arena.transparent cell)).visited } := by
  rw [gatherWithin, hcell]

/-- Gathers the elements that a node gives to the content it stands in. -/
def gather (arena : Arena) (id : FormId) : Gathering := arena.gatherWithin (id.index + 1) id

def writtenAttribute? (arena : Arena) (id : FormId) : Option (String × String) :=
  match arena.cell? id with
  | none => none
  | some cell =>
      if cell.label.kind = .attributeUse then
        cell.label.value.map fun value => (cell.label.tag, value)
      else none

def writeWithin (arena : Arena) : Nat → Option String → FormId → Writing
  | 0, _, id => ⟨.element (arena.tagOf id) [] none [], [], []⟩
  | levels + 1, around, id =>
      match arena.cell? id with
      | none => ⟨.element (arena.tagOf id) [] none [], [], [id]⟩
      | some cell =>
          let content := Gathering.each arena.gather cell.children
          let below := content.elements.map (arena.writeWithin levels cell.label.space)
          { markup := .element cell.label.tag
              (Form.namespaceDeclaration around cell.label.space ++
                cell.children.filterMap arena.writtenAttribute?)
              cell.label.value (below.map Writing.markup)
            gathered := content.visited ++ below.flatMap Writing.gathered
            written := id :: below.flatMap Writing.written }

theorem writeWithin_of_none {arena : Arena} {id : FormId} (hcell : arena.cell? id = none)
    (levels : Nat) (around : Option String) :
    arena.writeWithin (levels + 1) around id =
      ⟨.element (arena.tagOf id) [] none [], [], [id]⟩ := by
  rw [writeWithin, hcell]

theorem writeWithin_of_some {arena : Arena} {id : FormId} {cell : Cell}
    (hcell : arena.cell? id = some cell) (levels : Nat) (around : Option String) :
    let content := Gathering.each arena.gather cell.children
    let below := content.elements.map (arena.writeWithin levels cell.label.space)
    arena.writeWithin (levels + 1) around id =
      { markup := .element cell.label.tag
          (Form.namespaceDeclaration around cell.label.space ++
            cell.children.filterMap arena.writtenAttribute?)
          cell.label.value (below.map Writing.markup)
        gathered := content.visited ++ below.flatMap Writing.gathered
        written := id :: below.flatMap Writing.written } := by
  rw [writeWithin, hcell]

/-- Writes an element among elements in the namespace `around`. -/
def write (arena : Arena) (around : Option String) (id : FormId) : Writing :=
  arena.writeWithin (id.index + 1) around id

end Arena

end SchemaForms
