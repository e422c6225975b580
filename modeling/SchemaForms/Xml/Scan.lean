import SchemaForms.Xml.Character

/-!
# Scanning the text of a document

A scan takes the characters ahead and gives what it read with the characters
that remain, or the reason why the text is not well-formed.
-/

namespace SchemaForms.Xml

inductive Malformed where
  | unexpectedEnd
  | unexpectedChar (c : Char)
  | invalidName
  | invalidComment
  | invalidText
  | invalidReference
  | unknownEntity (name : String)
  | entityLoop
  | invalidNamespace
  | unknownPrefix (namePrefix : String)
  | duplicateAttribute (name : String)
  | unmatchedClose (name : String)
  | doctypeRefused
  | noRoot
  | unclosedElement
  deriving DecidableEq, Repr

def unexpected : List Char → Malformed
  | [] => .unexpectedEnd
  | c :: _ => .unexpectedChar c

def startsWith (mark : String) (input : List Char) : Bool := mark.toList.isPrefixOf input

def skipSpaces (input : List Char) : List Char := input.dropWhile isSpace

/-- Passes over a mark that has to stand here. -/
def expect (mark : String) (input : List Char) : Except Malformed (List Char) :=
  if startsWith mark input then .ok (input.drop mark.length) else .error (unexpected input)

/-- Passes over white space of which there has to be some. -/
def expectSpaces (input : List Char) : Except Malformed (List Char) :=
  match input with
  | c :: _ => if isSpace c then .ok (skipSpaces input) else .error (.unexpectedChar c)
  | [] => .error .unexpectedEnd

/-- The characters up to the first place where `stop` holds of what is ahead. -/
def scanUntil (stop : List Char → Bool) : List Char → Except Malformed (List Char × List Char)
  | [] => .ok ([], [])
  | c :: rest =>
      if !isXmlChar c then .error (.unexpectedChar c)
      else if stop (c :: rest) then .ok ([], c :: rest)
      else
        match scanUntil stop rest with
        | .error reason => .error reason
        | .ok (taken, rest) => .ok (c :: taken, rest)

/-- The characters up to a mark, and what follows the mark. -/
def scanThrough (mark : String) (input : List Char) : Except Malformed (List Char × List Char) := do
  let (taken, rest) ← scanUntil (startsWith mark) input
  let rest ← expect mark rest
  return (taken, rest)

def scanName : List Char → Except Malformed (String × List Char)
  | [] => .error .invalidName
  | first :: rest =>
      if isNameStart first then
        .ok (String.ofList (first :: rest.takeWhile isNameChar), rest.dropWhile isNameChar)
      else .error .invalidName

structure QualifiedName where
  namePrefix : String
  localName : String
  deriving DecidableEq, Repr

def isPlainNameChar (c : Char) : Bool := isNameChar c && c != ':'

def startsAsName : List Char → Bool
  | [] => false
  | c :: _ => isNameStart c

/-- A name of one or two parts; an empty first part counts as none. -/
def scanQualifiedName (input : List Char) : Except Malformed (QualifiedName × List Char) :=
  let first := input.takeWhile isPlainNameChar
  let rest := input.dropWhile isPlainNameChar
  match rest with
  | ':' :: rest =>
      let second := rest.takeWhile isPlainNameChar
      if (first.isEmpty || startsAsName first) && startsAsName second then
        .ok (⟨String.ofList first, String.ofList second⟩, rest.dropWhile isPlainNameChar)
      else .error .invalidName
  | rest =>
      if startsAsName first then .ok (⟨"", String.ofList first⟩, rest)
      else .error .invalidName

def scanEquals (input : List Char) : Except Malformed (List Char) := do
  let rest ← expect "=" (skipSpaces input)
  return skipSpaces rest

def scanQuote : List Char → Except Malformed (Char × List Char)
  | c :: rest => if c = '"' || c = '\'' then .ok (c, rest) else .error (.unexpectedChar c)
  | [] => .error .unexpectedEnd

/-- A literal between quotes, of any characters but the quote. -/
def scanLiteral (input : List Char) : Except Malformed (List Char × List Char) := do
  let (quote, rest) ← scanQuote input
  match rest.dropWhile (· != quote) with
  | [] => .error .unexpectedEnd
  | _ :: after => return (rest.takeWhile (· != quote), after)

structure RawAttribute where
  name : QualifiedName
  value : List Char
  deriving DecidableEq, Repr

/-- An attribute as it is written; its value holds no less-than sign. -/
def scanAttribute (input : List Char) : Except Malformed (RawAttribute × List Char) := do
  let (name, rest) ← scanQualifiedName input
  let rest ← scanEquals rest
  let (quote, rest) ← scanQuote rest
  let (value, rest) ← scanUntil (fun ahead => ahead.head? = some quote || ahead.head? = some '<') rest
  match rest with
  | c :: rest => if c = quote then return (⟨name, value⟩, rest) else .error (.unexpectedChar c)
  | [] => .error .unexpectedEnd

/-! ## Comments and processing instructions -/

def containsMark (mark : String) : List Char → Bool
  | [] => mark.isEmpty
  | c :: rest => startsWith mark (c :: rest) || containsMark mark rest

/-- A comment from its opening mark on. -/
def scanComment (input : List Char) : Except Malformed (String × List Char) := do
  let (text, rest) ← scanThrough "-->" (input.drop 4)
  if containsMark "--" text || text.getLast? = some '-' then .error .invalidComment
  else return (String.ofList text, rest)

/-- A processing instruction from its opening mark on. -/
def scanInstruction (input : List Char) : Except Malformed (Unit × List Char) := do
  if startsWith "<?xml " input then .error (unexpected input)
  else
    let (_, rest) ← scanName (input.drop 2)
    let (_, rest) ← scanThrough "?>" (skipSpaces rest)
    return ((), rest)

end SchemaForms.Xml
