import Mathlib.Logic.Relation
import SchemaForms.Proofs.Arenas
import SchemaForms.Proofs.Documents

/-!
# Traversals with a stack

A traversal takes the number on top of its stack, visits the node, and puts the
children of the node on the stack, the last of them first. What has been visited,
and then what the numbers on the stack lead to, the top first, is the same in
every round. So where children have smaller numbers than their parents, a
traversal comes to an end and has visited the nodes as the recursion from a node
to its children does.
-/

namespace SchemaForms

/-- A traversal under way: the nodes that were visited, in their order, and the stack,
with its top at the end. -/
structure Traversal where
  visited : List FormId
  stack : List FormId
  deriving DecidableEq, Repr

namespace Traversal

def start (root : FormId) : Traversal := ⟨[], [root]⟩

def next? (arena : Arena) (traversal : Traversal) : Option Traversal :=
  traversal.stack.getLast?.map fun id =>
    ⟨traversal.visited ++ [id], traversal.stack.dropLast ++ (arena.children id).reverse⟩

def Round (arena : Arena) (before after : Traversal) : Prop := before.next? arena = some after

def pending (arena : Arena) (traversal : Traversal) : List FormId :=
  traversal.stack.reverse.flatMap arena.preorder

variable {arena : Arena} {before after : Traversal}

theorem next?_eq_none : before.next? arena = none ↔ before.stack = [] := by
  rw [next?, Option.map_eq_none_iff, List.getLast?_eq_none_iff]

theorem round_iff :
    Round arena before after ↔ ∃ rest id, before.stack = rest ++ [id] ∧
      after = ⟨before.visited ++ [id], rest ++ (arena.children id).reverse⟩ := by
  rw [Round, next?, Option.map_eq_some_iff]
  constructor
  · rintro ⟨id, htop, rfl⟩
    obtain ⟨rest, hstack⟩ := List.getLast?_eq_some_iff.mp htop
    exact ⟨rest, id, hstack, by rw [hstack, List.dropLast_concat]⟩
  · rintro ⟨rest, id, hstack, rfl⟩
    exact ⟨id, by rw [hstack, List.getLast?_concat], by rw [hstack, List.dropLast_concat]⟩

theorem Round.visits (hround : Round arena before after) (h : arena.Ordered) :
    ∃ id, after.visited = before.visited ++ [id] ∧
      before.pending arena = id :: after.pending arena := by
  obtain ⟨rest, id, hstack, rfl⟩ := round_iff.mp hround
  refine ⟨id, rfl, ?_⟩
  simp only [pending, hstack, List.reverse_append, List.reverse_singleton, List.reverse_reverse,
    List.flatMap_append, List.flatMap_singleton]
  rw [h.preorder_eq id, List.cons_append]

/-- Whatever number of rounds has been made, the visited and the pending nodes are the same. -/
theorem visited_append_pending (h : arena.Ordered)
    (hrun : Relation.ReflTransGen (Round arena) before after) :
    after.visited ++ after.pending arena = before.visited ++ before.pending arena := by
  induction hrun with
  | refl => rfl
  | tail _ hround ih =>
      obtain ⟨id, hvisited, hpending⟩ := hround.visits h
      rw [← ih, hvisited, hpending, List.append_assoc, List.singleton_append]

/-- A traversal comes to an empty stack: there is one node less to visit in each round. -/
theorem exists_run (h : arena.Ordered) (before : Traversal) :
    ∃ visited, Relation.ReflTransGen (Round arena) before ⟨visited, []⟩ := by
  induction hleft : (before.pending arena).length generalizing before with
  | zero =>
      obtain ⟨visited, stack⟩ := before
      obtain rfl : stack = [] := by
        rw [List.length_eq_zero_iff, pending, List.flatMap_eq_nil_iff] at hleft
        refine List.eq_nil_iff_forall_not_mem.mpr fun id hid => ?_
        have hnone := hleft id (List.mem_reverse.mpr hid)
        rw [h.preorder_eq id] at hnone
        cases hnone
      exact ⟨visited, .refl⟩
  | succ left ih =>
      cases hnext : before.next? arena with
      | none =>
          rw [pending, next?_eq_none.mp hnext] at hleft
          cases hleft
      | some after =>
          obtain ⟨id, -, hpending⟩ := Round.visits hnext h
          rw [hpending, List.length_cons, Nat.succ_inj] at hleft
          obtain ⟨visited, hrun⟩ := ih after hleft
          exact ⟨visited, .head hnext hrun⟩

theorem run_preorder (h : arena.Ordered) (root : FormId) :
    Relation.ReflTransGen (Round arena) (start root) ⟨arena.preorder root, []⟩ := by
  obtain ⟨visited, hrun⟩ := exists_run h (start root)
  have hsame := visited_append_pending h hrun
  simp only [start, pending, List.reverse_nil, List.flatMap_nil, List.append_nil,
    List.reverse_singleton, List.flatMap_singleton, List.nil_append] at hsame
  exact hsame ▸ hrun

end Traversal

namespace Arena

theorem Ordered.index_lt_of_mem_preorder {arena : Arena} (h : arena.Ordered) {root id : FormId}
    (hroot : root.index < arena.size) (hid : id ∈ arena.preorder root) :
    id.index < arena.size := by
  induction hindex : root.index using Nat.strongRecOn generalizing root with
  | ind index ih =>
      rw [h.preorder_eq root, List.mem_cons, List.mem_flatMap] at hid
      rcases hid with rfl | ⟨child, hchild, hid⟩
      · exact hroot
      · have hlt := h.children_lt hchild
        exact ih child.index (hindex ▸ hlt) (Nat.lt_trans hlt hroot) hid rfl

theorem firstAt_eq_some_iff {arena : Arena} {root id : FormId} {path : String} :
    arena.firstAt root path = some id ↔ arena.pathOf? id = some path ∧
      ∃ before after, arena.descendants root = before ++ id :: after ∧
        ∀ other ∈ before, arena.pathOf? other ≠ some path := by
  simp [firstAt, List.find?_eq_some_iff_append]

theorem firstAt_eq_none_iff {arena : Arena} {root : FormId} {path : String} :
    arena.firstAt root path = none ↔
      ∀ id ∈ arena.descendants root, arena.pathOf? id ≠ some path := by
  simp [firstAt]

theorem ordered_iff {arena : Arena} :
    arena.Ordered ↔
      ∀ index < arena.size, ∀ child ∈ arena.children ⟨index⟩, child.index < index := by
  constructor
  · exact fun h index _ child hchild => h.children_lt hchild
  · intro h id cell hcell child hchild
    obtain ⟨hin, -⟩ := Array.getElem?_eq_some_iff.mp hcell
    refine h id.index hin child ?_
    rw [children, hcell]
    exact hchild

instance (arena : Arena) : Decidable arena.Ordered := decidable_of_iff _ ordered_iff.symm

/-- In an ordered arena the traversal with a stack ends, and it has visited nodes of the arena
only, in the order in which the recursion comes to them: a node, and then the same for each of
its children. The search for a path finds the first of these nodes that has it. -/
theorem descendants_of_ordered {arena : Arena} (h : arena.Ordered) {root : FormId}
    (hroot : root.index < arena.size) :
    Relation.ReflTransGen (Traversal.Round arena) (.start root) ⟨arena.descendants root, []⟩ ∧
      (∀ id ∈ arena.descendants root, id.index < arena.size) ∧
      arena.descendants root = arena.preorder root ∧
      (∀ id, arena.preorder id = id :: (arena.children id).flatMap arena.preorder) ∧
      ∀ path,
        (∀ id, arena.firstAt root path = some id ↔ arena.pathOf? id = some path ∧
          ∃ before after, arena.preorder root = before ++ id :: after ∧
            ∀ other ∈ before, arena.pathOf? other ≠ some path) ∧
        (arena.firstAt root path = none ↔
          ∀ id ∈ arena.preorder root, arena.pathOf? id ≠ some path) := by
  have hsame := h.descendants_eq root
  refine ⟨?_, ?_, hsame, h.preorder_eq, fun path => ⟨fun id => ?_, ?_⟩⟩
  · rw [hsame]
    exact Traversal.run_preorder h root
  · intro id hid
    rw [hsame] at hid
    exact h.index_lt_of_mem_preorder hroot hid
  · rw [firstAt_eq_some_iff, hsame]
  · rw [firstAt_eq_none_iff, hsame]

end Arena

def Cell.atPath (path : String) (children : List Nat) : Cell :=
  ⟨⟨.element, "note", none, .empty, path, none, .plain "element" [] [], none⟩,
    children.map FormId.mk⟩

def sharedNotes : Arena :=
  ⟨#[.atPath "/notes/a" [], .atPath "/notes/b" [0], .atPath "/notes/c" [],
    .atPath "/notes/a" [1, 2], .atPath "/notes/d" [], .atPath "/notes" [3, 4, 1]]⟩

theorem sharedNotes_descendants :
    sharedNotes.Ordered ∧ (FormId.mk 5).index < sharedNotes.size ∧
      sharedNotes.preorder ⟨5⟩ = [5, 3, 1, 0, 2, 4, 1, 0].map FormId.mk ∧
      sharedNotes.firstAt ⟨5⟩ "/notes/a" = some ⟨3⟩ ∧
      Relation.ReflTransGen (Traversal.Round sharedNotes) (.start ⟨5⟩)
        ⟨sharedNotes.descendants ⟨5⟩, []⟩ ∧
      (∀ id ∈ sharedNotes.descendants ⟨5⟩, id.index < sharedNotes.size) ∧
      sharedNotes.descendants ⟨5⟩ = sharedNotes.preorder ⟨5⟩ ∧
      (∀ id, sharedNotes.preorder id = id :: (sharedNotes.children id).flatMap
        sharedNotes.preorder) ∧
      ∀ path,
        (∀ id, sharedNotes.firstAt ⟨5⟩ path = some id ↔ sharedNotes.pathOf? id = some path ∧
          ∃ before after, sharedNotes.preorder ⟨5⟩ = before ++ id :: after ∧
            ∀ other ∈ before, sharedNotes.pathOf? other ≠ some path) ∧
        (sharedNotes.firstAt ⟨5⟩ path = none ↔
          ∀ id ∈ sharedNotes.preorder ⟨5⟩, sharedNotes.pathOf? id ≠ some path) := by
  have hordered : sharedNotes.Ordered := by decide
  have hroot : (FormId.mk 5).index < sharedNotes.size := by decide
  exact ⟨hordered, hroot, by decide, by decide, Arena.descendants_of_ordered hordered hroot⟩

end SchemaForms
