import SchemaForms.Schema.Bounds

/-!
# Cursors over an instance

A cursor stands in the element children of one element of an instance and takes
them from the first to the last. It can be taken no further back.
-/

namespace SchemaForms

/-- An instance that does not fit the shape of the schema at some place. -/
inductive Mismatch where
  | elementsInText (tag : String)
  | strayElement (tag found : String)
  | foreignRoot (expected found : String)
  | surplus (tag : String) (occurrence max : Nat)
  deriving DecidableEq, Repr

def Mismatch.message : Mismatch → String
  | .elementsInText tag => "<" ++ tag ++ "> has a simple type but contains element content"
  | .strayElement tag found =>
      "<" ++ tag ++ "> contains unexpected element <" ++ found ++ ">"
  | .foreignRoot expected found =>
      "the instance root is <" ++ found ++ ">, expected <" ++ expected ++ ">"
  | .surplus tag occurrence max =>
      "occurrence " ++ toString occurrence ++ " of <" ++ tag ++ "> exceeds maxOccurs " ++
        toString max

/-- The text of an element without element children, if it is more than white space. -/
def simpleText (occurrence : Xml.Element) : Except Mismatch (Option String) :=
  if occurrence.elements.isEmpty then
    .ok (if Text.isBlank occurrence.text then none else some occurrence.text)
  else .error (.elementsInText occurrence.name)

structure Cursor where
  parent : Xml.Element
  ahead : List Xml.Element
  deriving Repr

namespace Cursor

def ofParent (parent : Xml.Element) : Cursor := ⟨parent, parent.elements⟩

def next? (cursor : Cursor) : Option Xml.Element := cursor.ahead.head?

/-- The number of elements taken. -/
def passed (cursor : Cursor) : Nat :=
  cursor.parent.elements.length - cursor.ahead.length

/-- The elements of that name that come next, as many as the limit allows. -/
def run (cursor : Cursor) (name : String) (limit : MaxOccurs) : List Xml.Element :=
  let named := cursor.ahead.takeWhile (·.name == name)
  named.take (limit.cap named.length)

def takeRun (cursor : Cursor) (name : String) (limit : MaxOccurs) :
    List Xml.Element × Cursor :=
  let taken := cursor.run name limit
  (taken, { cursor with ahead := cursor.ahead.drop taken.length })

theorem takeRun_append (cursor : Cursor) (name : String) (limit : MaxOccurs) :
    (cursor.takeRun name limit).1 ++ (cursor.takeRun name limit).2.ahead =
      cursor.ahead := by
  have leading : cursor.run name limit <+: cursor.ahead :=
    (List.take_prefix _ _).trans (List.takeWhile_prefix _)
  obtain ⟨rest, same⟩ := leading
  simp only [takeRun]
  rw [← same]
  simp

end Cursor

/-- A cursor with the number of repeatable groups that are being instantiated over it. -/
structure Walk where
  cursor : Cursor
  repetitions : Nat
  deriving Repr

namespace Walk

def ofParent (parent : Xml.Element) : Walk := ⟨.ofParent parent, 0⟩

def isRepeated (walk : Walk) : Bool := 0 < walk.repetitions

def enter (walk : Walk) : Walk := { walk with repetitions := walk.repetitions + 1 }

def leave (walk : Walk) : Walk := { walk with repetitions := walk.repetitions - 1 }

/-- What is left to take; nothing without an instance. -/
def aheadOf (walk : Option Walk) : List Xml.Element :=
  (walk.map fun walk => walk.cursor.ahead).getD []

end Walk

end SchemaForms
