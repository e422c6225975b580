import SchemaForms.Text.Numeral
import SchemaForms.Xml.Scan

/-!
# Character data

Text and attribute values come in pieces: characters as they stand, characters
given by a reference, and references to entities. Line ends become line feeds in
text, and blanks in attribute values; a character given by a reference outside
of entities stays as it is.
-/

namespace SchemaForms.Xml

inductive Piece where
  | char (c : Char)
  | referenced (c : Char)
  | entity (name : String)
  deriving DecidableEq, Repr

/-- The character of a number; a number that is none stands for the replacement character. -/
def charOfNumber (number : Nat) : Char :=
  if number.isValidChar then Char.ofNat number else '\ufffd'

/-- Numbers in references are read in 32 bits. -/
def numberLimit : Nat := 4294967296

def numericReference (radix : Nat) (digits : List Char) : Except Malformed Char :=
  match (Text.natOfDigits? radix digits).filter (· < numberLimit) with
  | none => .error .invalidReference
  | some number =>
      if isXmlChar (charOfNumber number) then .ok (charOfNumber number)
      else .error .invalidReference

def namedReference (name : String) : Piece :=
  match name with
  | "quot" => .referenced '"'
  | "amp" => .referenced '&'
  | "apos" => .referenced '\''
  | "lt" => .referenced '<'
  | "gt" => .referenced '>'
  | name => .entity name

/-- What follows an ampersand up to its semicolon. -/
def scanReference (input : List Char) : Except Malformed (Piece × List Char) := do
  let (piece, rest) ← match input with
    | '#' :: 'x' :: rest => do
        let c ← numericReference 16 (rest.takeWhile isHexDigit)
        pure (Piece.referenced c, rest.dropWhile isHexDigit)
    | '#' :: rest => do
        let c ← numericReference 10 (rest.takeWhile isDigit)
        pure (Piece.referenced c, rest.dropWhile isDigit)
    | input => do
        let (name, rest) ← scanName input
        pure (namedReference name, rest)
  match rest with
  | ';' :: rest => return (piece, rest)
  | _ => .error .invalidReference

def piecesWithin : Nat → List Char → Except Malformed (List Piece)
  | _, [] => .ok []
  | 0, _ :: _ => .error .invalidReference
  | fuel + 1, '&' :: rest => do
      let (piece, rest) ← scanReference rest
      return piece :: (← piecesWithin fuel rest)
  | fuel + 1, c :: rest => return .char c :: (← piecesWithin fuel rest)

/-- The pieces of a text; each takes at least one of its characters. -/
def pieces (input : List Char) : Except Malformed (List Piece) :=
  piecesWithin input.length input

/-! ## Line ends -/

/-- Appends a character to a text kept in reverse. A carriage return becomes a
line feed once the character after it is known, which is dropped if it is one. -/
def appendNormalized (text : List Char) (c : Char) (last : Bool) : List Char :=
  match text with
  | '\r' :: before =>
      if last && c = '\r' then '\n' :: '\n' :: before
      else if c = '\n' then '\n' :: before
      else c :: '\n' :: before
  | text => if last && c = '\r' then '\n' :: text else c :: text

def normalizeFrom (text : List Char) : List Char → List Char
  | [] => text.reverse
  | c :: rest => normalizeFrom (appendNormalized text c rest.isEmpty) rest

def normalizeLines (text : List Char) : List Char := normalizeFrom [] text

def blankLineEnd (c : Char) : Char :=
  if c = '\n' || c = '\r' || c = '\t' then ' ' else c

/-! ## Entities -/

abbrev Entities := List (String × List Char)

def Entities.value? (entities : Entities) (name : String) : Option (List Char) :=
  (entities.find? (·.1 == name)).map (·.2)

/-- Entities may refer to entities this many levels deep. -/
def entityLevels : Nat := 10

/-- References inside one entity, at all levels together. -/
def entityReferences : Nat := 255

/-- Counts a reference; those outside of entities are free. -/
def countReference (nested : Bool) (references : Nat) : Except Malformed Nat :=
  if !nested then .ok references
  else if references < entityReferences then .ok (references + 1)
  else .error .entityLoop

/-- The count after an entity has been read. -/
def afterEntity (nested : Bool) (references : Nat) : Nat := if nested then references else 0

/-- Reads an attribute value from its pieces, given how the value of an entity
is read one level deeper, if that is allowed. -/
def valueOfPieces (entities : Entities) (nested : Bool)
    (expand : Option (List Char → Nat → Except Malformed (List Char × Nat))) :
    List Piece → Nat → Except Malformed (List Char × Nat)
  | [], references => .ok ([], references)
  | .char '\r' :: .char '\n' :: rest, references =>
      valueOfPieces entities nested expand (.char '\n' :: rest) references
  | .char c :: rest, references => do
      let (value, references) ← valueOfPieces entities nested expand rest references
      return (blankLineEnd c :: value, references)
  | .referenced c :: rest, references => do
      if nested && c = '<' then .error .invalidText
      else
        let (value, references) ← valueOfPieces entities nested expand rest references
        return ((if nested then blankLineEnd c else c) :: value, references)
  | .entity name :: rest, references => do
      match entities.value? name, expand with
      | none, _ => .error (.unknownEntity name)
      | some _, none => .error .entityLoop
      | some content, some expand =>
          let references ← countReference nested references
          let (expanded, references) ← expand content references
          let (value, references) ←
            valueOfPieces entities nested expand rest (afterEntity nested references)
          return (expanded ++ value, references)

/-- Reads an attribute value inside of as many levels of entities as are not left. -/
def valueAtLevel (entities : Entities) :
    Nat → List Char → Nat → Except Malformed (List Char × Nat)
  | 0, input, references => do
      valueOfPieces entities true none (← pieces input) references
  | levels + 1, input, references => do
      valueOfPieces entities (levels + 1 < entityLevels)
        (some (valueAtLevel entities levels)) (← pieces input) references

end SchemaForms.Xml
