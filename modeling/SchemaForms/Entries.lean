/-!
# Entries under keys

Entries stand in the ascending order of their keys, one for each key. Placing an
entry keeps this order and replaces the entry that was there under its key.
-/

namespace SchemaForms.Entries

variable {κ α : Type} [DecidableEq κ]

def lookup (key : κ) : List (κ × α) → Option α
  | [] => none
  | (other, value) :: rest => if other = key then some value else lookup key rest

def place [LT κ] [DecidableLT κ] (key : κ) (value : α) : List (κ × α) → List (κ × α)
  | [] => [(key, value)]
  | (other, old) :: rest =>
      if key = other then (key, value) :: rest
      else if key < other then (key, value) :: (other, old) :: rest
      else (other, old) :: place key value rest

theorem lookup_place_self [LT κ] [DecidableLT κ] (key : κ) (value : α)
    (entries : List (κ × α)) : lookup key (place key value entries) = some value := by
  induction entries with
  | nil => simp [place, lookup]
  | cons entry rest ih =>
      obtain ⟨other, old⟩ := entry
      by_cases same : key = other
      · simp [place, lookup, same]
      · by_cases before : key < other
        · simp [place, lookup, same, before]
        · simp only [place, lookup, if_neg same, if_neg before, if_neg (Ne.symm same)]
          exact ih

theorem lookup_place_of_ne [LT κ] [DecidableLT κ] {key other : κ} (h : other ≠ key) (value : α)
    (entries : List (κ × α)) :
    lookup other (place key value entries) = lookup other entries := by
  induction entries with
  | nil => simp [place, lookup, h.symm]
  | cons entry rest ih =>
      obtain ⟨first, old⟩ := entry
      by_cases same : key = first
      · subst same
        simp only [place, lookup, if_true, if_neg (Ne.symm h)]
      · by_cases before : key < first
        · simp only [place, lookup, if_neg same, if_pos before, if_neg (Ne.symm h)]
        · simp only [place, lookup, if_neg same, if_neg before, ih]

end SchemaForms.Entries
