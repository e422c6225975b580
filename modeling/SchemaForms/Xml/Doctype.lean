import SchemaForms.Xml.CharacterData

/-!
# Document type declarations

Of a document type declaration only the internal entities matter. External
identifiers are passed over, and so are the other declarations.
-/

namespace SchemaForms.Xml

/-- Passes over an external identifier; tells whether there is one. -/
def scanExternalId (input : List Char) : Except Malformed (Bool × List Char) := do
  if startsWith "SYSTEM" input then
    let (_, rest) ← scanLiteral (← expectSpaces (input.drop 6))
    return (true, rest)
  else if startsWith "PUBLIC" input then
    let (_, rest) ← scanLiteral (← expectSpaces (input.drop 6))
    let (_, rest) ← scanLiteral (← expectSpaces rest)
    return (true, rest)
  else return (false, input)

/-- The value of an entity, none for an external one. -/
def scanEntityValue (parameter : Bool) (input : List Char) :
    Except Malformed (Option (List Char) × List Char) := do
  match input with
  | [] => .error .unexpectedEnd
  | c :: _ =>
      if c = '"' || c = '\'' then
        let (value, rest) ← scanLiteral input
        return (some value, rest)
      else
        let (external, rest) ← scanExternalId input
        if !external then .error (.unexpectedChar c)
        else if parameter then return (none, rest)
        else
          let rest := skipSpaces rest
          if startsWith "NDATA" rest then
            let (_, rest) ← scanName (← expectSpaces (rest.drop 5))
            return (none, rest)
          else return (none, rest)

/-- An entity declaration from its keyword on. -/
def scanEntity (input : List Char) : Except Malformed (Entities × List Char) := do
  let rest ← expectSpaces (input.drop 8)
  let (parameter, rest) ← match rest with
    | '%' :: rest => do pure (true, ← expectSpaces rest)
    | rest => pure (false, rest)
  let (name, rest) ← scanName rest
  let (value, rest) ← scanEntityValue parameter (← expectSpaces rest)
  let rest ← expect ">" (skipSpaces rest)
  return (value.toList.map fun content => (name, content), rest)

/-- The internal subset up to the end of the document type declaration. The fuel
is a number of characters, of which each declaration takes one at least. -/
def scanSubset : Nat → List Char → Except Malformed (Entities × List Char)
  | 0, input => .ok ([], input)
  | fuel + 1, input =>
      let input := skipSpaces input
      if startsWith "<!ENTITY" input then do
        let (entities, rest) ← scanEntity input
        let (more, rest) ← scanSubset fuel rest
        return (entities ++ more, rest)
      else if startsWith "<!--" input then do
        let (_, rest) ← scanComment input
        scanSubset fuel rest
      else if startsWith "<?" input then do
        let (_, rest) ← scanInstruction input
        scanSubset fuel rest
      else if startsWith "]" input then do
        let rest ← expect ">" (skipSpaces (input.drop 1))
        return ([], rest)
      else if startsWith "<!ELEMENT" input || startsWith "<!ATTLIST" input ||
          startsWith "<!NOTATION" input then
        match input.dropWhile (· != '>') with
        | [] => .error .unexpectedEnd
        | _ :: rest => scanSubset fuel rest
      else .error (unexpected input)

/-- A document type declaration from its keyword on. -/
def scanDoctype (input : List Char) : Except Malformed (Entities × List Char) := do
  let (_, rest) ← scanName (← expectSpaces (input.drop 9))
  let (_, rest) ← scanExternalId (skipSpaces rest)
  match skipSpaces rest with
  | '>' :: rest => return ([], rest)
  | '[' :: rest => scanSubset (rest.length + 1) rest
  | rest => .error (unexpected rest)

end SchemaForms.Xml
