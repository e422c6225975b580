import SchemaForms.Compile.Creation

/-!
# Requests

What can be compiled on its own: a global element to a whole form, or one
particle of the schema to the nodes it gives at some path. A workspace answers
requests one after the other and keeps all nodes that were created. An instance
with several top-level elements gives a form for each that has the name of its
root, and the first of them is the answer.
-/

namespace SchemaForms

inductive Request where
  | root (name : Option String) (document : Option Xml.Document)
  | particle (tag : String) (node : Xml.Element) (path : String) (parent : Option Xml.Element)
  deriving Repr

/-- The form of a global element, and those of the top-level elements that repeat it. -/
structure RootForms where
  root : Form
  surplus : List Form
  deriving Repr

namespace RootForms

def size (forms : RootForms) : Nat := forms.root.size + Form.sizeAll forms.surplus

def insertInto (forms : RootForms) (arena : Arena) : Arena × FormId :=
  let (arena, root) := arena.insert forms.root
  ((arena.insertAll forms.surplus).1, root)

end RootForms

/-- The forms that answer a request, and those that are kept beside them. -/
structure Compiled where
  answer : List Form
  surplus : List Form
  deriving Repr

/-- Compiles a particle in a content of its own. -/
def buildAtTop (schema : Schema) (settings : Settings) (atLeast : Nat) (particle : Particle)
    (path : String) (parent : Option Xml.Element) : Except Failure (List Form × BuildState) :=
  buildParticle (levelBelow settings.maxDepth) (.start schema settings) atLeast particle path
    (.start parent)

/-- The message about an element outside of the root that no node was compiled from. -/
def rootError (root : Form) (after : BuildState) : Option Mismatch :=
  match after.ahead with
  | found :: _ => some (.foreignRoot root.label.tag found.name)
  | [] => none

def compileForm (schema : Schema) (settings : Settings) (name : Option String)
    (document : Option Xml.Document) : Except Failure RootForms :=
  match schema.selectGlobal name with
  | .error fault => .error ⟨.ofFault fault, []⟩
  | .ok element =>
      match buildAtTop schema settings 1 (.element element .single) ""
          (document.map Xml.Document.holder) with
      | .error failure => .error failure
      | .ok (root :: surplus, after) => .ok ⟨remarkWith (rootError root after) root, surplus⟩
      | .ok ([], _) => .error ⟨.ofFault .noGlobals, []⟩

/-- Compiles a particle that is declared by an element with that tag. -/
def compileParticle (schema : Schema) (settings : Settings) (tag : String) (node : Xml.Element)
    (path : String) (parent : Option Xml.Element) : Except Failure (List Form) :=
  if node.name = tag then
    match Particle.ofElement? schema node with
    | .error fault => .error ⟨(Diagnostic.ofFault fault).located path, []⟩
    | .ok none => .error ⟨.ofFault (.unsupported tag), []⟩
    | .ok (some particle) => (buildAtTop schema settings 0 particle path parent).map (·.1)
  else .error ⟨(Diagnostic.ofFault (.unsupported node.name)).located path, []⟩

def Request.compile (schema : Schema) (settings : Settings) :
    Request → Except Failure Compiled
  | .root name document =>
      (compileForm schema settings name document).map fun forms => ⟨[forms.root], forms.surplus⟩
  | .particle tag node path parent =>
      (compileParticle schema settings tag node path parent).map fun forms => ⟨forms, []⟩

/-! ## Requests to a workspace -/

def createAtTop (atLeast : Nat) (particle : Particle) (path : String)
    (parent : Option Xml.Element) : Action (List FormId × Option Walk) := do
  let depth ← .read fun workspace => workspace.settings.maxDepth
  .inContent (createParticle (interiorBelow depth) atLeast particle path
    (parent.map Walk.ofParent))

def createRoot (name : Option String) (document : Option Xml.Document) :
    Action (List FormId) := do
  let element ← .demand fun workspace => workspace.schema.selectGlobal name
  let (ids, walk) ←
    createAtTop 1 (.element element .single) "" (document.map Xml.Document.holder)
  match ids with
  | [] => .fail (.ofFault .noGlobals)
  | root :: _ =>
      let tag ← .read fun workspace => workspace.arena.tagOf root
      Action.remark [root] ((Walk.aheadOf walk).head?.map fun found => .foreignRoot tag found.name)
      return [root]

/-- Creates the nodes of a particle that is declared by an element with that tag. -/
def createDeclared (tag : String) (node : Xml.Element) (path : String)
    (parent : Option Xml.Element) : Action (List FormId) := do
  if node.name = tag then
    match ← (Action.demand fun workspace =>
        Particle.ofElement? workspace.schema node).located path with
    | some particle => return (← createAtTop 0 particle path parent).1
    | none => .fail (.ofFault (.unsupported tag))
  else .fail ((Diagnostic.ofFault (.unsupported node.name)).located path)

/-- Answers a request. The nodes of a failing one that were finished stay. -/
def Workspace.run (workspace : Workspace) :
    Request → Except Diagnostic (List FormId) × Workspace
  | .root name document => createRoot name document workspace
  | .particle tag node path parent => createDeclared tag node path parent workspace

end SchemaForms
