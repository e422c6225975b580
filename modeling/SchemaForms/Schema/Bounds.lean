import SchemaForms.Schema.Fault
import SchemaForms.Text.Blank
import SchemaForms.Text.Numeral

/-!
# Occurrence bounds

How often a particle may occur: at least `min` times, and at most `max` times
unless it is unbounded. The maximum always allows the minimum.
-/

namespace SchemaForms

inductive MaxOccurs where
  | unbounded
  | count (max : Nat)
  deriving DecidableEq, Repr

namespace MaxOccurs

def allows : MaxOccurs → Nat → Bool
  | .unbounded, _ => true
  | .count max, n => n ≤ max

/-- The part of a number of occurrences that is allowed. -/
def cap : MaxOccurs → Nat → Nat
  | .unbounded, n => n
  | .count max, n => min n max

theorem allows_cap (max : MaxOccurs) (n : Nat) : max.allows (max.cap n) = true := by
  cases max with
  | unbounded => rfl
  | count max => exact decide_eq_true (Nat.min_le_right n max)

end MaxOccurs

structure Bounds where
  min : Nat
  max : MaxOccurs
  allows_min : max.allows min = true
  deriving DecidableEq, Repr

namespace Bounds

def single : Bounds := ⟨1, .count 1, rfl⟩

def repeats (bounds : Bounds) : Bool :=
  match bounds.max with
  | .unbounded => true
  | .count max => 1 < max

def number (source : String) : Except SchemaFault Nat :=
  match Text.word64? (Text.trim source) with
  | some value => .ok value
  | none => .error (.malformedValue source "a non-negative integer")

def minimum (particle : Xml.Element) : Except SchemaFault Nat :=
  match particle.attribute? "minOccurs" with
  | some source => number source
  | none => .ok 1

def maximum (particle : Xml.Element) : Except SchemaFault MaxOccurs :=
  match particle.attribute? "maxOccurs" with
  | some source =>
      if Text.trim source = "unbounded" then .ok .unbounded
      else (number source).map .count
  | none => .ok (.count 1)

/-- The bounds that a particle declares; each is one if it is left out. -/
def resolve (particle : Xml.Element) : Except SchemaFault Bounds := do
  let min ← minimum particle
  let max ← maximum particle
  if allowed : max.allows min = true then .ok ⟨min, max, allowed⟩
  else
    match max with
    | .count max => .error (.emptyRange min max)
    | .unbounded => .ok ⟨min, .unbounded, rfl⟩

end Bounds

end SchemaForms
