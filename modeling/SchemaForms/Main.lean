import SchemaForms.CommandLine.Arguments
import SchemaForms.Compile.Sources

/-!
# The program

Compiles the schema in a file to a form, and prints the form as JSON or as XML.
-/

open SchemaForms CommandLine

def usage : String :=
  "Usage: [OPTIONS] <INPUT>\n\n" ++
  "  --instance <FILE>           An existing XML document to reconcile the form with\n" ++
  "  --element <NAME>            The global element to compile (defaults to the first one)\n" ++
  "  --format <json|xml>         [default: json]\n" ++
  "  --placeholder <none|template>\n" ++
  "                              Nodes emitted for optional repeatable elements without " ++
    "occurrences [default: none]\n" ++
  "  --default-choice <none|first>\n" ++
  "                              Choice alternative selected in a fresh form [default: none]\n" ++
  "  --max-depth <N>             [default: 64]\n" ++
  "  --module-tag-name <NAME>    Element under <xs:appinfo> that holds an element's module key " ++
    "[default: module]\n" ++
  "  --allow-dtd                 Allow a XML Document Type Definition (DTD) to occur\n" ++
  "  -h, --help                  Print help\n" ++
  "  -V, --version               Print version\n"

def printed (format : Format) (form : Form) : String :=
  match format with
  | .json => form.toJson.pretty
  | .xml => form.toXml

def errorText : CompileError → String
  | .malformed role _ => "failed to parse " ++ role.label
  | .failed failure => failure.error.message

def runWith (arguments : Arguments) : IO UInt32 := do
  let schemaText ← IO.FS.readFile arguments.input
  let instanceText ← match arguments.instancePath with
    | some path => do pure (some (← IO.FS.readFile path))
    | none => pure none
  let sources : Sources :=
    { schema := schemaText
      instanceText := instanceText
      element := arguments.element
      settings := arguments.settings
      allowDoctype := arguments.allowDoctype }
  match sources.compile with
  | .ok forms => do
      IO.println (printed arguments.format forms.root)
      return 0
  | .error error => do
      IO.eprintln ("Error: " ++ errorText error)
      return 1

def main (arguments : List String) : IO UInt32 := do
  match Arguments.read arguments with
  | .ok arguments => runWith arguments
  | .error .displayHelp => do
      IO.print usage
      return 0
  | .error .displayVersion => do
      IO.println "0.1.0"
      return 0
  | .error error => do
      IO.eprint usage
      return error.exitCode.toUInt32
