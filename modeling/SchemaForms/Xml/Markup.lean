/-!
# Written documents

The elements that are written, and the text of a document made of them. A tag
begins a line of its own unless it stands next to text; lines are indented by
two blanks for each element around them.
-/

namespace SchemaForms.Xml

inductive Markup where
  | element (name : String) (attributes : List (String × String)) (text : Option String)
      (children : List Markup)
  deriving Repr

namespace Markup

def escapedChar (c : Char) : List Char :=
  match c with
  | '<' => "&lt;".toList
  | '>' => "&gt;".toList
  | '&' => "&amp;".toList
  | '\'' => "&apos;".toList
  | '"' => "&quot;".toList
  | c => [c]

def escaped (text : String) : String := String.ofList (text.toList.flatMap escapedChar)

def writeAttributes : List (String × String) → String
  | [] => ""
  | (name, value) :: rest =>
      " " ++ name ++ "=\"" ++ escaped value ++ "\"" ++ writeAttributes rest

def lineAt (depth : Nat) : String := String.ofList ('\n' :: List.replicate (2 * depth) ' ')

def textOf : Option String → String
  | some text => escaped text
  | none => ""

mutual
/-- Writes an element; `newLine` tells that its tag begins a line. -/
def write (depth : Nat) (newLine : Bool) : Markup → String
  | .element name attributes text children =>
      (if newLine then lineAt depth else "") ++ "<" ++ name ++ writeAttributes attributes ++
        if text.isNone && children.isEmpty then "/>"
        else
          ">" ++ textOf text ++ writeAll (depth + 1) text.isNone children ++
            (if children.isEmpty then "" else lineAt depth) ++ "</" ++ name ++ ">"

def writeAll (depth : Nat) (newLine : Bool) : List Markup → String
  | [] => ""
  | markup :: rest => write depth newLine markup ++ writeAll depth true rest
end

def declaration : String := "<?xml version=\"1.0\" encoding=\"UTF-8\"?>"

/-- The text of the document with that root. -/
def document (root : Markup) : String := declaration ++ write 0 true root

end Markup

end SchemaForms.Xml
