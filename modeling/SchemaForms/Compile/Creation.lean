import SchemaForms.Compile.Descent
import SchemaForms.Compile.Workspace

/-!
# Creating nodes

The compiler as it works on a workspace: a node is created after its children,
and its number is handed upwards; marks are set on nodes that are there. What it
creates is what is built for the same particles.
-/

namespace SchemaForms

/-- Creates nodes over the children of an instance element, if there are any left to take. -/
abbrev Creation := Option Walk → Action (List FormId × Option Walk)

namespace Creation

def nothing : Creation := fun walk => return ([], walk)

def ofAction (action : Action (List FormId)) : Creation := fun walk => do
  return (← action, walk)

def andThen (first second : Creation) : Creation := fun walk => do
  let (ids, walk) ← first walk
  let (more, walk) ← second walk
  return (ids ++ more, walk)

def all : List Creation → Creation
  | [] => nothing
  | creation :: rest => creation.andThen (all rest)

end Creation

/-- What can be created inside of a definition. -/
structure Interior where
  particle : Nat → Particle → String → Creation
  attributeEntry : Xml.Element → String → Option Xml.Element → Action (List FormId)

/-! ## Attributes -/

def createAttribute (use : Xml.Element) (path : String) (occurrence : Option Xml.Element) :
    Action (List FormId) := do
  if useOf use = "prohibited" then return []
  else
    let (declaration, name) ← .demand fun workspace => declaredAttribute workspace.schema use
    let id ← .create (attributeForm use declaration name path occurrence).label []
    return [id]

def createAttributeEntry (inside : Interior) (item : Xml.Element) (path : String)
    (occurrence : Option Xml.Element) : Action (List FormId) :=
  match item.name with
  | "attribute" => createAttribute item path occurrence
  | "attributeGroup" => do
      let definition ← .demand fun workspace =>
        Schema.followReference workspace.schema.attributeGroup item
      .guarded definition false (.gather (definition.elements.map fun child =>
        inside.attributeEntry child path occurrence))
  | _ => return []

/-! ## Elements -/

structure CreatedContent where
  value : Option String
  children : List FormId
  mismatch : Option Mismatch

def createItem (inside : Interior) (item : Xml.Element) (path : String)
    (occurrence : Option Xml.Element) : Creation :=
  match item.name with
  | "sequence" | "choice" | "group" | "all" | "complexContent" => fun walk => do
      match ← .demand fun workspace => Particle.ofElement? workspace.schema item with
      | some particle => inside.particle 0 particle path walk
      | none => return ([], walk)
  | "attribute" | "attributeGroup" => .ofAction (inside.attributeEntry item path occurrence)
  | "simpleContent" =>
      .ofAction (.gather (item.elements.flatMap fun derivation =>
        derivation.elements.map fun child => inside.attributeEntry child path occurrence))
  | "annotation" | "anyAttribute" => .nothing
  | tag => fun _ => .fail (.ofFault (.unsupported tag))

def createComplexContent (inside : Interior) (definition : Xml.Element) (path : String)
    (occurrence : Option Xml.Element) : Action CreatedContent :=
  .guarded definition occurrence.isSome (.inContent do
    let (children, walk) ← Creation.all (definition.elements.map fun item =>
      createItem inside item path occurrence) (occurrence.map Walk.ofParent)
    let (value, mismatch) := contentValue definition ⟨[], walk.map Walk.cursor⟩ occurrence
    return ⟨value, children, mismatch⟩)

def createContent (inside : Interior) (declaration : Declaration) (path : String)
    (occurrence : Option Xml.Element) : Action CreatedContent :=
  match declaration.content with
  | .simple =>
      let content := simpleContent declaration occurrence
      return ⟨content.value, [], content.mismatch⟩
  | .complex definition => createComplexContent inside definition path occurrence

/-- Creates one node for an element, from an occurrence in the instance if there is one. -/
def createOccurrence (inside : Interior) (declaration : Declaration) (bounds : Bounds)
    (path : String) (occurrence : Option Xml.Element) : Action (List FormId) := do
  let place ← .takePlace declaration.name
  let path := placePath path declaration.name place
  let content ← (createContent inside declaration path occurrence).located path
  let label := (elementForm declaration bounds path occurrence ⟨content.value, [], none⟩).label
  let id ← .create { label with space := none } content.children
  Action.relabel (fun label => { label with space := declaration.space }) id
  Action.remark [id] content.mismatch
  return [id]

def copiesInProgress (declaration : Declaration) (bounds : Bounds) (atLeast : Nat)
    (workspace : Workspace) : Nat :=
  match declaration.content with
  | .complex definition =>
      if bounds.min = 0 && workspace.isInProgress definition then 0
      else max (initialCount bounds workspace.settings.placeholder) atLeast
  | .simple => max (initialCount bounds workspace.settings.placeholder) atLeast

/-- Creates `atLeast` nodes or more for an element particle, as far as its maximum allows. -/
def createElement (inside : Interior) (particle : Xml.Element) (bounds : Bounds) (atLeast : Nat)
    (path : String) : Creation := fun walk => do
  let declaration ← (Action.demand fun workspace =>
    Declaration.ofParticle workspace.schema workspace.settings particle).located path
  let atLeast := bounds.max.cap atLeast
  let copies (count : Nat) :=
    Action.gather (List.replicate count (createOccurrence inside declaration bounds path none))
  match walk with
  | none => do
      let count ← .read (copiesInProgress declaration bounds atLeast)
      return (← copies count, none)
  | some walk => do
      let limit := if walk.isRepeated then bounds.max else .unbounded
      let (taken, cursor) := walk.cursor.takeRun declaration.name limit
      let ids ← Action.gather (taken.zipIdx.map fun (occurrence, index) => do
        let ids ← createOccurrence inside declaration bounds path (some occurrence)
        Action.remark ids (surplusError declaration.name bounds.max (index + 1))
        return ids)
      let more ← copies (max bounds.min atLeast - taken.length)
      return (ids ++ more, some { walk with cursor := cursor })

/-! ## Groups -/

def createAlternative (inside : Interior) (path : String) (matched selected : Option Nat)
    (alternative : Particle) (index : Nat) : Creation := fun walk => do
  let (ids, after) ←
    inside.particle 1 alternative path (if matched = some index then walk else none)
  Action.select ids (selected = some index)
  return (ids, if matched = some index then after else walk)

def createMembers (inside : Interior) (compositor : Compositor) (members : List Particle)
    (path : String) : Creation := fun walk =>
  match compositor with
  | .sequence => Creation.all (members.map fun member => inside.particle 0 member path) walk
  | .choice => do
      let matched ← .demand fun workspace =>
        alternativeFor workspace.schema members (Walk.aheadOf walk).head?
      let selected ← .read fun workspace => selectedIndex workspace.settings members matched
      Creation.all (members.zipIdx.map fun (alternative, index) =>
        createAlternative inside path matched selected alternative index) walk

/-- Creates the node of one instantiation, after its members. -/
def createInstantiation (inside : Interior) (compositor : Compositor) (members : List Particle)
    (node : Xml.Element) (bounds : Bounds) (path : String) : Creation := fun walk => do
  let (children, walk) ← createMembers inside compositor members path walk
  let place ← .takePlace compositor.step
  let path := placePath path compositor.step place
  let id ← .create (groupForm compositor node bounds path []).label children
  return ([id], walk)

/-- Instantiates a group over the instance, after `count` times. -/
def createRepetitions (repeated : Bool) (names : List String) (bounds : Bounds) (tag : String)
    (one : Creation) : Nat → Nat → Creation
  | 0, _ => .nothing
  | fuel + 1, count => fun walk => do
      if endsAfter repeated names bounds count (Walk.aheadOf walk).head? then return ([], walk)
      else
        let (ids, after) ← one (if bounds.repeats then walk.map Walk.enter else walk)
        let after := if bounds.repeats then after.map Walk.leave else after
        Action.remark ids (surplusError tag bounds.max (count + 1))
        if requiredCount bounds ≤ count + 1 &&
            (Walk.aheadOf after).length = (Walk.aheadOf walk).length then return (ids, after)
        else
          let (more, last) ← createRepetitions repeated names bounds tag one fuel (count + 1) after
          return (ids ++ more, last)

def createInstantiations (group : Particle) (compositor : Compositor) (bounds : Bounds)
    (one : Creation) : Creation := fun walk => do
  if bounds.max = .count 0 then return ([], walk)
  else
    match walk with
    | none => Creation.all (List.replicate (requiredCount bounds) one) none
    | some walk => do
        let names ← .demand fun workspace => firstNames workspace.schema group
        createRepetitions walk.isRepeated names bounds compositor.label one
          (requiredCount bounds + walk.cursor.ahead.length) 0 (some walk)

def createGroup (inside : Interior) (compositor : Compositor) (node : Xml.Element)
    (bounds : Bounds) (path : String) : Creation := fun walk =>
  .guarded node walk.isSome do
    let members ← .demand fun workspace => Particle.members workspace.schema node
    createInstantiations (.group compositor node bounds) compositor bounds
      (createInstantiation inside compositor members node bounds path) walk

/-! ## Particles -/

/-- Creates the nodes of a particle; an element becomes `atLeast` nodes or more. -/
def createParticle (inside : Interior) (atLeast : Nat) (particle : Particle) (path : String) :
    Creation :=
  match particle with
  | .element node bounds => createElement inside node bounds atLeast path
  | .group compositor node bounds => createGroup inside compositor node bounds path
  | .attributeUse node => fun walk =>
      Creation.ofAction (createAttribute node path (walk.map fun walk => walk.cursor.parent)) walk

/-- What can be created inside of that many definitions. Nothing is entered below the last. -/
def interiorBelow : Nat → Interior
  | 0 =>
      { particle := fun _ _ _ => .nothing
        attributeEntry := fun _ _ _ => return [] }
  | depth + 1 =>
      { particle := createParticle (interiorBelow depth)
        attributeEntry := createAttributeEntry (interiorBelow depth) }

end SchemaForms
