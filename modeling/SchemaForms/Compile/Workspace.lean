import SchemaForms.Compile.Build
import SchemaForms.Form.Arena

/-!
# Workspaces

A workspace keeps what a compiler has: the nodes that it created, a stack of the
definitions that it is inside of and, for each content that it is working on, the
numbers of the places that names were given there. An action changes the
workspace; what it did before it failed stays done.
-/

namespace SchemaForms

structure Workspace where
  schema : Schema
  settings : Settings
  arena : Arena
  inProgress : List Nat
  positions : List (Text.Dictionary Nat)
  deriving Repr

namespace Workspace

def new (schema : Schema) (settings : Settings) : Workspace :=
  ⟨schema, settings, .empty, [], []⟩

def isInProgress (workspace : Workspace) (definition : Xml.Element) : Bool :=
  workspace.inProgress.contains definition.number

end Workspace

def Action (α : Type) := Workspace → Except Diagnostic α × Workspace

namespace Action

variable {α β : Type}

instance : Monad Action where
  pure value := fun workspace => (.ok value, workspace)
  bind action next := fun workspace =>
    match action workspace with
    | (.ok value, workspace) => next value workspace
    | (.error error, workspace) => (.error error, workspace)

def fail (error : Diagnostic) : Action α := fun workspace => (.error error, workspace)

/-- What the schema and the settings answer, or their fault. -/
def demand (answer : Workspace → Except SchemaFault α) : Action α := fun workspace =>
  match answer workspace with
  | .ok value => (.ok value, workspace)
  | .error fault => (.error (.ofFault fault), workspace)

def read (value : Workspace → α) : Action α := fun workspace => (.ok (value workspace), workspace)

/-- Attaches a path to the error of a failing action. -/
def located (action : Action α) (path : String) : Action α := fun workspace =>
  match action workspace with
  | (.ok value, workspace) => (.ok value, workspace)
  | (.error error, workspace) => (.error (error.located path), workspace)

/-- Acts inside of a definition. Without an instance, a definition must not be
entered again inside of itself; with one, the instance ends before the recursion does. -/
def guarded (definition : Xml.Element) (editing : Bool) (action : Action α) : Action α :=
  fun workspace =>
    if !editing && workspace.isInProgress definition then
      (.error (.ofFault (.circularDefinition (workspace.schema.describe definition))), workspace)
    else if workspace.settings.maxDepth ≤ workspace.inProgress.length then
      (.error (.ofFault (.tooDeep workspace.settings.maxDepth)), workspace)
    else
      let (outcome, after) :=
        action { workspace with inProgress := definition.number :: workspace.inProgress }
      (outcome, { after with inProgress := after.inProgress.tail })

/-- Acts in a content of its own, in which no name has been given a place. -/
def inContent (action : Action α) : Action α := fun workspace =>
  let (outcome, after) := action { workspace with positions := .empty :: workspace.positions }
  (outcome, { after with positions := after.positions.tail })

/-- The place of the next node with that name in the content, counted from one. -/
def takePlace (name : String) : Action Nat := fun workspace =>
  match workspace.positions with
  | [] => (.ok 1, workspace)
  | counts :: outer =>
      let place := (counts.get? name).getD 0 + 1
      (.ok place, { workspace with positions := counts.insert name place :: outer })

def create (label : FormLabel) (children : List FormId) : Action FormId := fun workspace =>
  let (arena, id) := workspace.arena.append ⟨label, children⟩
  (.ok id, { workspace with arena := arena })

def relabel (change : FormLabel → FormLabel) (id : FormId) : Action Unit := fun workspace =>
  (.ok (), { workspace with arena := workspace.arena.relabel id change })

def forEach (action : FormId → Action Unit) : List FormId → Action Unit
  | [] => return ()
  | id :: rest => do
      action id
      forEach action rest

/-- Records a message about the instance on the nodes, if there is one. -/
def remark (ids : List FormId) : Option Mismatch → Action Unit
  | none => return ()
  | some error =>
      forEach (relabel fun label =>
        { label with options := label.options.remark error.message }) ids

def select (ids : List FormId) (selected : Bool) : Action Unit :=
  forEach (relabel fun label =>
    { label with options := label.options.insert OptionKey.selected (.bool selected) }) ids

/-- Does the actions one after the other and lists the nodes that they give. -/
def gather : List (Action (List FormId)) → Action (List FormId)
  | [] => return []
  | action :: rest => do
      let ids ← action
      return ids ++ (← gather rest)

end Action

end SchemaForms
