import SchemaForms.Entries

/-!
# Dictionaries with texts as keys

Entries stand in ascending order of their keys, one for each key. The view of a
dictionary is the function `get?`.
-/

namespace SchemaForms.Text

structure Dictionary (α : Type) where
  entries : List (String × α)
  deriving DecidableEq, Repr

namespace Dictionary

variable {α : Type}

def empty : Dictionary α := ⟨[]⟩

def get? (dictionary : Dictionary α) (key : String) : Option α :=
  Entries.lookup key dictionary.entries

def insert (dictionary : Dictionary α) (key : String) (value : α) : Dictionary α :=
  ⟨Entries.place key value dictionary.entries⟩

def keys (dictionary : Dictionary α) : List String := dictionary.entries.map (·.1)

def ofList (entries : List (String × α)) : Dictionary α :=
  entries.foldl (fun dictionary (key, value) => dictionary.insert key value) empty

@[simp] theorem get?_empty (key : String) : (empty : Dictionary α).get? key = none := rfl

@[simp] theorem get?_insert_self (dictionary : Dictionary α) (key : String) (value : α) :
    (dictionary.insert key value).get? key = some value :=
  Entries.lookup_place_self key value dictionary.entries

@[simp] theorem get?_insert_of_ne (dictionary : Dictionary α) {key other : String}
    (h : other ≠ key) (value : α) :
    (dictionary.insert key value).get? other = dictionary.get? other :=
  Entries.lookup_place_of_ne h value dictionary.entries

end Dictionary

/-- Inserts a text into an ascending list without repetition. -/
def insertText (text : String) : List String → List String
  | [] => [text]
  | other :: rest =>
      if text = other then other :: rest
      else if text < other then text :: other :: rest
      else other :: insertText text rest

@[simp] theorem mem_insertText {text other : String} {texts : List String} :
    other ∈ insertText text texts ↔ other = text ∨ other ∈ texts := by
  induction texts with
  | nil => simp [insertText]
  | cons first rest ih =>
      simp only [insertText]
      split
      · next same => simp [same]
      · split
        · simp
        · simp only [List.mem_cons, ih]
          constructor
          · rintro (h | h | h) <;> simp [h]
          · rintro (h | h | h) <;> simp [h]

end SchemaForms.Text
