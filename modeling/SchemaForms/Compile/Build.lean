import SchemaForms.Form.Tree
import SchemaForms.Instance.Cursor
import SchemaForms.Schema.Particle

/-!
# Building the content of a form

A build makes forms one after the other. It works in the content of one element:
it knows the names that have been given places there, and, if there is an
instance, the cursor over the children of its element. A build that fails leaves
the forms that were finished before.
-/

namespace SchemaForms

/-- What optional elements without a maximum are compiled to without an instance. -/
inductive Placeholder where
  | none
  | template
  deriving DecidableEq, Repr

/-- The alternative that is selected where the instance selects none. -/
inductive DefaultChoice where
  | none
  | first
  deriving DecidableEq, Repr

structure Settings where
  placeholder : Placeholder
  defaultChoice : DefaultChoice
  maxDepth : Nat
  moduleTag : String
  deriving DecidableEq, Repr

def Settings.default : Settings := ⟨.none, .none, 64, "module"⟩

structure BuildState where
  steps : List String
  cursor : Option Cursor
  deriving Repr

namespace BuildState

def start (occurrence : Option Xml.Element) : BuildState := ⟨[], occurrence.map Cursor.ofParent⟩

/-- The place of the next node with that name, counted from one. -/
def nextPlace (state : BuildState) (name : String) : Nat := state.steps.count name + 1

def givePlace (state : BuildState) (name : String) : BuildState :=
  { state with steps := name :: state.steps }

def next? (state : BuildState) : Option Xml.Element := state.cursor.bind Cursor.next?

def ahead (state : BuildState) : List Xml.Element :=
  match state.cursor with
  | some cursor => cursor.ahead
  | none => []

end BuildState

structure Failure where
  error : Diagnostic
  finished : List Form
  deriving Repr

abbrev Build := BuildState → Except Failure (List Form × BuildState)

namespace Build

def nothing : Build := fun state => .ok ([], state)

def fail (error : Diagnostic) : Build := fun _ => .error ⟨error, []⟩

def ofFault {α : Type} (outcome : Except SchemaFault α) (next : α → Build) : Build :=
  match outcome with
  | .error fault => fail (.ofFault fault)
  | .ok value => next value

def emit (form : Form) : Build := fun state => .ok ([form], state)

def andThen (first second : Build) : Build := fun state =>
  match first state with
  | .error failure => .error failure
  | .ok (forms, state) =>
      match second state with
      | .error failure => .error { failure with finished := forms ++ failure.finished }
      | .ok (more, state) => .ok (forms ++ more, state)

def all : List Build → Build
  | [] => nothing
  | build :: rest => build.andThen (all rest)

/-- Changes the forms that a build makes. -/
def mapForms (build : Build) (change : Form → Form) : Build := fun state =>
  match build state with
  | .error failure => .error failure
  | .ok (forms, state) => .ok (forms.map change, state)

/-- Builds without the instance. -/
def withoutInstance (build : Build) : Build := fun state =>
  match build { state with cursor := none } with
  | .error failure => .error failure
  | .ok (forms, after) => .ok (forms, { after with cursor := state.cursor })

@[simp] theorem nothing_andThen (build : Build) : nothing.andThen build = build := by
  funext state
  simp only [andThen, nothing]
  cases build state with
  | error failure => simp
  | ok result => simp

end Build

end SchemaForms
