import SchemaForms.Compile.Elements
import SchemaForms.Schema.FirstNames

/-!
# Sequences and choices

A group is instantiated as often as its minimum asks for, but at least once.
With an instance it is repeated as long as the next element can begin it. One
instantiation of a sequence compiles all members over the instance; of a choice,
only the first alternative that the next element can begin works on the
instance, and the others are compiled as without one.
-/

namespace SchemaForms

def Compositor.kind : Compositor → FormKind
  | .sequence => .sequence
  | .choice => .choice

def groupForm (compositor : Compositor) (node : Xml.Element) (bounds : Bounds) (path : String)
    (children : List Form) : Form :=
  .node
    { kind := compositor.kind
      tag := compositor.label
      value := none
      options := boundsOptions bounds
      path := path
      space := none
      origin := node
      source := none } children

def Compositor.step (compositor : Compositor) : String := "#" ++ compositor.label

/-- Puts the forms of one instantiation under a node of their own. -/
def Build.grouped (members : Build) (compositor : Compositor) (node : Xml.Element)
    (bounds : Bounds) (path : String) : Build := fun state =>
  match members state with
  | .error failure => .error failure
  | .ok (children, state) =>
      let path := placePath path compositor.step (state.nextPlace compositor.step)
      .ok ([groupForm compositor node bounds path children], state.givePlace compositor.step)

/-! ## Alternatives -/

/-- The index of the first alternative that can begin with an element of that name. -/
def firstBeginning (schema : Schema) (tag : String) :
    List Particle → Except SchemaFault (Option Nat)
  | [] => .ok none
  | alternative :: rest => do
      if (← firstNames schema alternative).contains tag then return some 0
      else return (← firstBeginning schema tag rest).map (· + 1)

def alternativeFor (schema : Schema) (alternatives : List Particle)
    (next : Option Xml.Element) : Except SchemaFault (Option Nat) :=
  match next with
  | none => .ok none
  | some element => firstBeginning schema element.name alternatives

def selectedIndex (settings : Settings) (alternatives : List Particle) (matched : Option Nat) :
    Option Nat :=
  match matched, settings.defaultChoice with
  | some index, _ => some index
  | none, .first => if alternatives.isEmpty then none else some 0
  | none, .none => none

/-- One alternative. An optional element gives a node too, so that it can be selected. -/
def buildAlternative (level : Level) (context : Context) (path : String)
    (matched selected : Option Nat) (alternative : Particle) (index : Nat) : Build :=
  let build := level.particle context 1 alternative path
  (if matched = some index then build else build.withoutInstance).mapForms
    (·.insertOption OptionKey.selected (.bool (selected = some index)))

def buildChoice (level : Level) (context : Context) (alternatives : List Particle)
    (path : String) : Build := fun state =>
  Build.ofFault (alternativeFor context.schema alternatives state.next?)
    (fun matched =>
      let selected := selectedIndex context.settings alternatives matched
      .all (alternatives.zipIdx.map fun (alternative, index) =>
        buildAlternative level context path matched selected alternative index))
    state

def buildSequence (level : Level) (context : Context) (members : List Particle)
    (path : String) : Build :=
  .all (members.map fun member => level.particle context 0 member path)

def buildMembers (level : Level) (context : Context) (compositor : Compositor)
    (members : List Particle) (path : String) : Build :=
  match compositor with
  | .sequence => buildSequence level context members path
  | .choice => buildChoice level context members path

/-! ## Instantiations -/

/-- How often a group is instantiated at least. -/
def requiredCount (bounds : Bounds) : Nat := max bounds.min 1

/-- Whether the instance ends the instantiations after that many of them. Inside
of a repeatable group, those past the maximum are left to its next repetition. -/
def endsAfter (repeated : Bool) (names : List String) (bounds : Bounds) (count : Nat)
    (next : Option Xml.Element) : Bool :=
  let begins := next.any fun element => names.contains element.name
  requiredCount bounds ≤ count && (!begins || (repeated && !bounds.max.allows (count + 1)))

/-- Instantiates a group over the instance, after `count` times. An instantiation
that was not required and takes nothing is the last one. -/
def repeatOver (repeated : Bool) (names : List String) (bounds : Bounds) (tag : String)
    (one : Build) : Nat → Nat → Build
  | 0, _ => .nothing
  | fuel + 1, count => fun state =>
      if endsAfter repeated names bounds count state.next? then .ok ([], state)
      else
        (one.mapForms (remarkWith (surplusError tag bounds.max (count + 1)))).andThen
          (fun after =>
            if requiredCount bounds ≤ count + 1 &&
                after.ahead.length = state.ahead.length then .ok ([], after)
            else repeatOver repeated names bounds tag one fuel (count + 1) after)
          state

/-- All instantiations of a group. Each that is not required takes an element, so
the required ones and the remaining elements bound their number. -/
def instantiate (context : Context) (group : Particle) (compositor : Compositor)
    (bounds : Bounds) (one : Build) : Build := fun state =>
  if bounds.max = .count 0 then .ok ([], state)
  else
    match state.cursor with
    | none => Build.all (List.replicate (requiredCount bounds) one) state
    | some cursor =>
        Build.ofFault (firstNames context.schema group)
          (fun names =>
            repeatOver context.repeated names bounds compositor.label one
              (requiredCount bounds + cursor.ahead.length) 0)
          state

def buildGroup (deeper : Option Level) (context : Context) (compositor : Compositor)
    (node : Xml.Element) (bounds : Bounds) (path : String) : Build := fun state =>
  Build.ofFault (context.enter deeper node state.cursor.isSome)
    (fun (context, level) =>
      .ofFault (Particle.members context.schema node) fun members =>
        let inner := { context with repeated := context.repeated || bounds.repeats }
        instantiate context (.group compositor node bounds) compositor bounds
          ((buildMembers level inner compositor members path).grouped compositor node bounds
            path))
    state

end SchemaForms
