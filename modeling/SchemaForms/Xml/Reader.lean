import SchemaForms.Xml.Doctype
import SchemaForms.Xml.Outline

/-!
# Reading documents

Content is read into an outline. A reference to an entity in text reads the
value of the entity as content in the same outline, one level deeper.
-/

namespace SchemaForms.Xml

/-- What has been read, and the number of references inside the current entity. -/
structure Progress where
  outline : Outline
  references : Nat
  deriving Repr

/-- How the value of an entity is read. -/
abbrev Expansion := List Char → Progress → Except Malformed Progress

/-- What content depends on: the entities, the levels of them that are left, and
how one more is entered. -/
structure Reading where
  entities : Entities
  levels : Nat
  expand : Option Expansion

def Reading.nested (reading : Reading) : Bool := reading.levels < entityLevels

namespace Progress

def addText (progress : Progress) (text : List Char) : Progress :=
  { progress with outline := progress.outline.addText (String.ofList text) }

/-- Adds a text that makes no node where it is empty. -/
def addSomeText (progress : Progress) (text : List Char) : Progress :=
  if text.isEmpty then progress else progress.addText text

def add (progress : Progress) (node : Node) : Progress :=
  { progress with outline := progress.outline.add node }

end Progress

/-! ## Text -/

/-- Reads the pieces of a text. What came before is kept in reverse, and `verbatim`
tells that the next character stays as it is since a reference stands before it. -/
def readPieces (reading : Reading) (before : List Char) (verbatim : Bool) (progress : Progress) :
    List Piece → Except Malformed Progress
  | [] => .ok (progress.addSomeText before.reverse)
  | .char c :: rest =>
      if verbatim then readPieces reading (c :: before) false progress rest
      else readPieces reading (appendNormalized before c rest.isEmpty) false progress rest
  | .referenced c :: rest =>
      if reading.nested then
        readPieces reading (appendNormalized before c rest.isEmpty) verbatim progress rest
      else readPieces reading (c :: before) true progress rest
  | .entity name :: rest =>
      match reading.entities.value? name, reading.expand with
      | none, _ => .error (.unknownEntity name)
      | some _, none => .error .entityLoop
      | some value, some expand => do
          let references ← countReference reading.nested progress.references
          let progress := { progress.addSomeText before.reverse with references := references }
          let progress ← expand value progress
          readPieces reading [] false
            { progress with references := afterEntity reading.nested progress.references } rest

def readText (reading : Reading) (text : List Char) (progress : Progress) :
    Except Malformed Progress := do
  if containsMark "]]>" text then .error .invalidText
  else readPieces reading [] false progress (← pieces text)

/-! ## Tags -/

inductive TagEnd where
  | opens
  | empty
  | missing
  deriving DecidableEq, Repr

/-- The attributes of a tag and its end; a text may break off only before either. -/
def scanAttributes : Nat → List Char → Except Malformed ((List RawAttribute × TagEnd) × List Char)
  | _, [] => .ok (([], .missing), [])
  | 0, c :: _ => .error (.unexpectedChar c)
  | fuel + 1, input =>
      match skipSpaces input with
      | [] => .error .unexpectedEnd
      | '/' :: rest => do
          let rest ← expect ">" rest
          return (([], .empty), rest)
      | '>' :: rest => .ok (([], .opens), rest)
      | c :: rest =>
          if (input.head?.map isSpace).getD false then do
            let (first, rest) ← scanAttribute (c :: rest)
            let ((others, tagEnd), rest) ← scanAttributes fuel rest
            return ((first :: others, tagEnd), rest)
          else .error (.unexpectedChar c)

def readValues (reading : Reading) :
    List RawAttribute → Nat → Except Malformed (List NamedValue × Nat)
  | [], references => .ok ([], references)
  | ⟨name, value⟩ :: rest, references => do
      let (value, references) ← valueAtLevel reading.entities reading.levels value references
      let (values, references) ← readValues reading rest references
      return (⟨name, String.ofList value⟩ :: values, references)

/-- Reads a tag after its less-than sign. -/
def readTag (reading : Reading) (progress : Progress) (input : List Char) :
    Except Malformed ((Progress × TagEnd) × List Char) := do
  let (name, rest) ← scanQualifiedName input
  if name.namePrefix = "xmlns" then .error .invalidNamespace
  let ((attributes, tagEnd), rest) ← scanAttributes (rest.length + 1) rest
  let (values, references) ← readValues reading attributes progress.references
  let outline ← progress.outline.gather values
  let outline ←
    match tagEnd with
    | .opens => outline.begin name
    | .empty => do (← outline.begin name).close name
    | .missing => pure outline.breakOff
  return ((⟨outline, references⟩, tagEnd), rest)

def scanClose (input : List Char) : Except Malformed (QualifiedName × List Char) := do
  let (name, rest) ← scanQualifiedName input
  let rest ← expect ">" (skipSpaces rest)
  return (name, rest)

/-! ## Content -/

/-- Reads content until an end tag closes the element around it, or to the end
of the text. `depth` counts the elements opened meanwhile, `begun` tells that a
tag stands before, and the fuel is a number of characters. -/
def readContent (reading : Reading) :
    Nat → Nat → Bool → Progress → List Char → Except Malformed (Progress × List Char)
  | _, _, _, progress, [] => .ok (progress, [])
  | 0, _, _, _, c :: _ => .error (.unexpectedChar c)
  | fuel + 1, depth, begun, progress, '<' :: rest =>
      match rest with
      | [] => .error .unexpectedEnd
      | '!' :: _ =>
          if startsWith "!--" rest then do
            let (text, rest) ← scanComment ('<' :: rest)
            readContent reading fuel depth begun (progress.add (.comment text)) rest
          else if startsWith "![CDATA[" rest then do
            let (text, rest) ← scanThrough "]]>" (rest.drop 8)
            readContent reading fuel depth begun (progress.addText (normalizeLines text)) rest
          else .error (.unexpectedChar '!')
      | '?' :: _ => do
          let (_, rest) ← scanInstruction ('<' :: rest)
          readContent reading fuel depth begun (progress.add .instruction) rest
      | '/' :: rest => do
          let (name, rest) ← scanClose rest
          if !begun then .error (.unmatchedClose name.localName)
          else
            let outline ← progress.outline.close name
            let progress := { progress with outline := outline }
            match depth with
            | 0 => return (progress, rest)
            | depth + 1 => readContent reading fuel depth begun progress rest
      | rest => do
          let ((progress, tagEnd), rest) ← readTag reading progress rest
          match tagEnd with
          | .opens => readContent reading fuel (depth + 1) true progress rest
          | .empty => readContent reading fuel depth true progress rest
          | .missing => return (progress, rest)
  | fuel + 1, depth, begun, progress, input => do
      let (text, rest) ← scanUntil (fun ahead => ahead.head? = some '<') input
      let progress ← readText reading text progress
      readContent reading fuel depth begun progress rest

/-- Reads content with a number of levels of entities left. -/
def readingAt (entities : Entities) : Nat → Reading
  | 0 => ⟨entities, 0, none⟩
  | levels + 1 =>
      ⟨entities, levels + 1, some fun value progress => do
        let (progress, _) ←
          readContent (readingAt entities levels) value.length 0 false progress value
        return progress⟩

/-! ## Documents -/

/-- Comments, processing instructions and white space around the root. -/
def skipMisc : Nat → List Char → Except Malformed (List Char)
  | 0, input => .ok input
  | fuel + 1, input =>
      let input := skipSpaces input
      if startsWith "<!--" input then do
        let (_, rest) ← scanComment input
        skipMisc fuel rest
      else if startsWith "<?" input then do
        let (_, rest) ← scanInstruction input
        skipMisc fuel rest
      else .ok input

/-- White space, of which there may be none before the end of the declaration. -/
def spacesInDeclaration (input : List Char) : Except Malformed (List Char) :=
  match input with
  | [] => .ok []
  | c :: _ =>
      if isSpace c then .ok (skipSpaces input)
      else if startsWith "?>" input then .ok input
      else .error (.unexpectedChar c)

/-- Passes over one attribute of the declaration, if it stands here. -/
def skipPseudoAttribute (mark : String) (input : List Char) : Except Malformed (List Char) := do
  if startsWith mark input then
    let (_, rest) ← scanAttribute input
    spacesInDeclaration rest
  else return input

/-- Passes over the declaration at the start of a document, if there is one. -/
def skipDeclaration (input : List Char) : Except Malformed (List Char) := do
  if startsWith "<?xml " input then
    let rest ← spacesInDeclaration (input.drop 5)
    if !startsWith "version" rest then .error (unexpected rest)
    else
      let rest ← skipPseudoAttribute "version" rest
      let rest ← skipPseudoAttribute "encoding" rest
      let rest ← if startsWith "standalone" rest then
          (do let (_, rest) ← scanAttribute rest; pure rest)
        else pure rest
      expect "?>" (skipSpaces rest)
  else return input

def skipByteOrderMark : List Char → List Char
  | '\ufeff' :: rest => rest
  | input => input

/-- The entities of the document type declaration, if there is one. -/
def readProlog (allowDoctype : Bool) (input : List Char) :
    Except Malformed (Entities × List Char) := do
  let rest ← skipDeclaration (skipByteOrderMark input)
  let rest ← skipMisc (rest.length + 1) rest
  if startsWith "<!DOCTYPE" rest then
    if allowDoctype then
      let (entities, rest) ← scanDoctype rest
      return (entities, ← skipMisc (rest.length + 1) rest)
    else .error .doctypeRefused
  else return ([], rest)

/-- Reads the root and what it holds, if there is one. -/
def readRoot (entities : Entities) (input : List Char) :
    Except Malformed (Progress × List Char) := do
  let start : Progress := ⟨Outline.empty, 0⟩
  match input with
  | '<' :: rest =>
      let reading := readingAt entities entityLevels
      let ((progress, tagEnd), rest) ← readTag reading start rest
      match tagEnd with
      | .opens => readContent reading rest.length 0 true progress rest
      | _ => return (progress, rest)
  | input => return (start, input)

def Document.read (allowDoctype : Bool) (text : String) : Except Malformed Document := do
  let (entities, rest) ← readProlog allowDoctype text.toList
  let (progress, rest) ← readRoot entities rest
  let rest ← skipMisc (rest.length + 1) rest
  match rest with
  | [] => progress.outline.document
  | c :: _ => .error (.unexpectedChar c)

end SchemaForms.Xml
