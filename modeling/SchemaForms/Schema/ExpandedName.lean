import SchemaForms.Xml.Document

/-!
# Expanded names

A name of a schema component: a local name, with a namespace or none. Written
names are resolved against the declarations in scope of an element.
-/

namespace SchemaForms

structure ExpandedName where
  space : Option String
  localName : String
  deriving DecidableEq, Repr

namespace ExpandedName

/-- A namespace stands in braces before the local name. -/
def toText (name : ExpandedName) : String :=
  match name.space with
  | some space => "\x7b" ++ space ++ "\x7d" ++ name.localName
  | none => name.localName

/-- Names without a namespace come first, then names by namespace and local name. -/
def before (first second : ExpandedName) : Bool :=
  match first.space, second.space with
  | none, some _ => true
  | some _, none => false
  | none, none => first.localName < second.localName
  | some s, some t => s < t || (s == t && first.localName < second.localName)

def insertInto (name : ExpandedName) : List ExpandedName → List ExpandedName
  | [] => [name]
  | other :: rest =>
      if name = other then other :: rest
      else if name.before other then name :: other :: rest
      else other :: insertInto name rest

/-- The names in ascending order, each once. -/
def sorted (names : List ExpandedName) : List ExpandedName :=
  names.foldr insertInto []

/-- The parts before and after the last colon. -/
def splitAtLastColon (source : List Char) : Option (List Char × List Char) :=
  match source.reverse.dropWhile (· != ':') with
  | [] => none
  | _ :: before => some (before.reverse, (source.reverse.takeWhile (· != ':')).reverse)

/-- Resolves a written name; fails with a prefix that is not declared. A name
without a prefix takes the default namespace. -/
def resolve (source : String) (context : Xml.Element) : Except String ExpandedName :=
  match splitAtLastColon source.toList with
  | none => .ok ⟨context.namespace? none, source⟩
  | some (namePrefix, localName) =>
      let namePrefix := String.ofList namePrefix
      if namePrefix = "xml" then
        .ok ⟨some "http://www.w3.org/XML/1998/namespace", String.ofList localName⟩
      else
        match context.namespace? (some namePrefix) with
        | some space => .ok ⟨some space, String.ofList localName⟩
        | none => .error namePrefix

end ExpandedName

end SchemaForms
