import SchemaForms.Compile.Declaration

/-!
# Elements

Without an instance an element particle becomes as many nodes as its minimum
asks for. With one it takes the children of its name that come next, and
required copies are added to them. The content of an element with a complex type
is built from the items of the type in their order.
-/

namespace SchemaForms

/-- How many copies of a particle a form has without an instance. -/
def initialCount (bounds : Bounds) (placeholder : Placeholder) : Nat :=
  if bounds.min = 0 && bounds.max = .unbounded && placeholder = .template then 1
  else bounds.min

structure ComplexContent where
  value : Option String
  children : List Form
  mismatch : Option Mismatch
  deriving Repr

/-- The attributes that the derivations of a simple content declare. -/
def buildSimpleContent (level : Level) (context : Context) (item : Xml.Element) (path : String)
    (occurrence : Option Xml.Element) : Build :=
  .all (item.elements.flatMap fun derivation =>
    derivation.elements.map fun child => level.attributeEntry context child path occurrence)

def buildItem (level : Level) (context : Context) (item : Xml.Element) (path : String)
    (occurrence : Option Xml.Element) : Build :=
  match item.name with
  | "sequence" | "choice" | "group" | "all" | "complexContent" =>
      .ofFault (Particle.ofElement? context.schema item) fun
        | some particle => level.particle context 0 particle path
        | none => .nothing
  | "attribute" | "attributeGroup" => level.attributeEntry context item path occurrence
  | "simpleContent" => buildSimpleContent level context item path occurrence
  | "annotation" | "anyAttribute" => .nothing
  | tag => .fail (.ofFault (.unsupported tag))

def hasSimpleContent (definition : Xml.Element) : Bool :=
  (definition.child? "simpleContent").isSome

/-- The value of an element with simple content, and whether the instance fits the type. -/
def contentValue (definition : Xml.Element) (after : BuildState) :
    Option Xml.Element → Option String × Option Mismatch
  | none => (none, none)
  | some occurrence =>
      if hasSimpleContent definition then
        match simpleText occurrence with
        | .ok value => (value, none)
        | .error error => (none, some error)
      else
        match after.ahead with
        | unexpected :: _ =>
            (none, some (.strayElement occurrence.name unexpected.name))
        | [] => (none, none)

def buildItems (level : Level) (context : Context) (definition : Xml.Element) (path : String)
    (occurrence : Option Xml.Element) : Build :=
  .all (definition.elements.map fun item => buildItem level context item path occurrence)

def complexContent (deeper : Option Level) (context : Context) (definition : Xml.Element)
    (path : String) (occurrence : Option Xml.Element) : Except Failure ComplexContent :=
  match context.enter deeper definition occurrence.isSome with
  | .error fault => .error ⟨.ofFault fault, []⟩
  | .ok (context, level) =>
      let context := { context with repeated := false }
      match buildItems level context definition path occurrence (.start occurrence) with
      | .error failure => .error failure
      | .ok (children, after) =>
          let (value, mismatch) := contentValue definition after occurrence
          .ok ⟨value, children, mismatch⟩

/-- The value of an element with a simple type, and whether the instance fits the type. -/
def simpleContent (declaration : Declaration) : Option Xml.Element → ComplexContent
  | none => ⟨declaration.value, [], none⟩
  | some occurrence =>
      match simpleText occurrence with
      | .ok value => ⟨value, [], none⟩
      | .error error => ⟨none, [], some error⟩

def elementContent (deeper : Option Level) (context : Context) (declaration : Declaration)
    (path : String) (occurrence : Option Xml.Element) : Except Failure ComplexContent :=
  match declaration.content with
  | .simple => .ok (simpleContent declaration occurrence)
  | .complex definition => complexContent deeper context definition path occurrence

def remarkWith (error : Option Mismatch) (form : Form) : Form :=
  match error with
  | some error => form.remark error.message
  | none => form

def elementForm (declaration : Declaration) (bounds : Bounds) (path : String)
    (occurrence : Option Xml.Element) (content : ComplexContent) : Form :=
  remarkWith content.mismatch
    (.node
      { kind := .element
        tag := declaration.name
        value := content.value
        options := declaration.options bounds
        path := path
        space := declaration.space
        origin := declaration.element
        source := occurrence } content.children)

/-- The path of a node in the content at `path`. -/
def placePath (path name : String) (place : Nat) : String :=
  path ++ "/" ++ name ++ "[" ++ toString place ++ "]"

/-- Builds one node for an element, from an occurrence in the instance if there is one. -/
def buildOccurrence (deeper : Option Level) (context : Context) (declaration : Declaration)
    (bounds : Bounds) (path : String) (occurrence : Option Xml.Element) : Build := fun state =>
  let path := placePath path declaration.name (state.nextPlace declaration.name)
  match elementContent deeper context declaration path occurrence with
  | .error failure => .error { failure with error := failure.error.located path }
  | .ok content =>
      .ok ([elementForm declaration bounds path occurrence content], state.givePlace declaration.name)

/-- The message for an occurrence past the maximum. -/
def surplusError (tag : String) (max : MaxOccurs) (occurrence : Nat) : Option Mismatch :=
  match max with
  | .unbounded => none
  | .count max => if max < occurrence then some (.surplus tag occurrence max) else none

def copiesWithoutInstance (context : Context) (declaration : Declaration) (bounds : Bounds)
    (atLeast : Nat) : Nat :=
  let count := max (initialCount bounds context.settings.placeholder) atLeast
  match declaration.content with
  | .simple => count
  | .complex definition =>
      if bounds.min = 0 && context.encloses definition then 0 else count

def buildTaken (deeper : Option Level) (context : Context) (declaration : Declaration)
    (bounds : Bounds) (path : String) (taken : List Xml.Element) : Build :=
  .all (taken.zipIdx.map fun (occurrence, index) =>
    (buildOccurrence deeper context declaration bounds path (some occurrence)).mapForms
      (remarkWith (surplusError declaration.name bounds.max (index + 1))))

def buildCopies (deeper : Option Level) (context : Context) (declaration : Declaration)
    (bounds : Bounds) (path : String) (count : Nat) : Build :=
  .all (List.replicate count
    (buildOccurrence deeper context declaration bounds path none))

/-- Inside of a repeatable group, occurrences past the maximum are left to the
next repetition; elsewhere they are kept. -/
def takingLimit (context : Context) (bounds : Bounds) : MaxOccurs :=
  if context.repeated then bounds.max else .unbounded

def buildDeclared (deeper : Option Level) (context : Context) (declaration : Declaration)
    (bounds : Bounds) (atLeast : Nat) (path : String) : Build := fun state =>
  match state.cursor with
  | none =>
      buildCopies deeper context declaration bounds path
        (copiesWithoutInstance context declaration bounds atLeast) state
  | some cursor =>
      let (taken, cursor) := cursor.takeRun declaration.name (takingLimit context bounds)
      (buildTaken deeper context declaration bounds path taken).andThen
        (buildCopies deeper context declaration bounds path
          (max bounds.min atLeast - taken.length))
        { state with cursor := some cursor }

/-- Compiles an element particle to `atLeast` nodes or more, as far as its maximum allows. -/
def buildElement (deeper : Option Level) (context : Context) (particle : Xml.Element)
    (bounds : Bounds) (atLeast : Nat) (path : String) : Build :=
  match Declaration.ofParticle context.schema context.settings particle with
  | .error fault => .fail ((Diagnostic.ofFault fault).located path)
  | .ok declaration =>
      buildDeclared deeper context declaration bounds (bounds.max.cap atLeast) path

end SchemaForms
