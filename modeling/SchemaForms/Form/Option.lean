import SchemaForms.Schema.Bounds
import SchemaForms.Text.Dictionary

/-!
# Options of form nodes

A node of a form carries options: scalars under the keys that the compiler
writes, or that a widget adds. Numbers are kept in 64 bits with a sign; a larger
one becomes the largest of them.
-/

namespace SchemaForms

inductive Scalar where
  | null
  | bool (value : Bool)
  | int (value : Int)
  | str (value : String)
  deriving DecidableEq, Repr

abbrev Options := Text.Dictionary Scalar

namespace Scalar

/-- The largest number in 64 bits with a sign. -/
def largest : Nat := 9223372036854775807

def ofNat (n : Nat) : Scalar := .int (min n largest : Nat)

def ofMaxOccurs : MaxOccurs → Scalar
  | .unbounded => .str "unbounded"
  | .count max => ofNat max

def str? : Scalar → Option String
  | .str value => some value
  | _ => none

def bool? : Scalar → Option Bool
  | .bool value => some value
  | _ => none

def int? : Scalar → Option Int
  | .int value => some value
  | _ => none

end Scalar

namespace OptionKey

def min : String := "min"
def max : String := "max"
def type : String := "type"
def selected : String := "selected"
def module : String := "module"
def use : String := "use"
def mismatch : String := "reload_error"
def data : String := "data"

end OptionKey

namespace Options

/-- Whether the alternative of a choice is selected; none for other nodes. -/
def selected? (options : Options) : Option Bool :=
  (options.get? OptionKey.selected).bind Scalar.bool?

def mismatch? (options : Options) : Option String :=
  (options.get? OptionKey.mismatch).bind Scalar.str?

def widgetKey? (options : Options) : Option String :=
  (options.get? OptionKey.module).bind Scalar.str?

/-- Records a message about the instance; the first one stays. -/
def remark (options : Options) (message : String) : Options :=
  if options.mismatch?.isSome then options
  else options.insert OptionKey.mismatch (.str message)

end Options

end SchemaForms
