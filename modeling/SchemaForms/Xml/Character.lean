/-!
# Characters of XML

The characters a document may hold, its white space, and the characters of
names. A name without a colon is an NCName.
-/

namespace SchemaForms.Xml

def isSpace (c : Char) : Bool := c = ' ' || c = '\t' || c = '\n' || c = '\r'

def isXmlChar (c : Char) : Bool :=
  if c.toNat < 0x20 then isSpace c else c.toNat != 0xFFFE && c.toNat != 0xFFFF

def isAsciiLetter (c : Char) : Bool :=
  ('A' ≤ c && c ≤ 'Z') || ('a' ≤ c && c ≤ 'z')

def isDigit (c : Char) : Bool := '0' ≤ c && c ≤ '9'

def isHexDigit (c : Char) : Bool :=
  isDigit c || ('a' ≤ c && c ≤ 'f') || ('A' ≤ c && c ≤ 'F')

def within (c : Char) (first last : Nat) : Bool := first ≤ c.toNat && c.toNat ≤ last

/-- The characters above ASCII that may begin a name. -/
def isWideNameStart (c : Char) : Bool :=
  within c 0xC0 0xD6 || within c 0xD8 0xF6 || within c 0xF8 0x2FF ||
    within c 0x370 0x37D || within c 0x37F 0x1FFF || within c 0x200C 0x200D ||
    within c 0x2070 0x218F || within c 0x2C00 0x2FEF || within c 0x3001 0xD7FF ||
    within c 0xF900 0xFDCF || within c 0xFDF0 0xFFFD || within c 0x10000 0xEFFFF

def isNameStart (c : Char) : Bool :=
  isAsciiLetter c || c = ':' || c = '_' || isWideNameStart c

def isNameChar (c : Char) : Bool :=
  isNameStart c || isDigit c || c = '-' || c = '.' || c.toNat = 0xB7 ||
    within c 0x300 0x36F || within c 0x203F 0x2040

/-- A name that holds no colon. -/
def isNCName (name : String) : Bool :=
  match name.toList with
  | [] => false
  | first :: rest =>
      isNameStart first && first != ':' &&
        rest.all fun c => isNameChar c && c != ':'

/-- A name without a colon has a first character, and all its characters belong to names. -/
theorem exists_of_isNCName {name : String} (h : isNCName name = true) :
    ∃ first rest, name.toList = first :: rest ∧ isNameStart first = true ∧
      ∀ c ∈ name.toList, isNameChar c = true ∧ c ≠ ':' := by
  rw [isNCName] at h
  split at h
  · cases h
  · rename_i first rest hname
    simp only [Bool.and_eq_true, List.all_eq_true, bne_iff_ne] at h
    refine ⟨first, rest, hname, h.1.1, fun c hc => ?_⟩
    rw [hname, List.mem_cons] at hc
    rcases hc with rfl | hc
    · exact ⟨by simp [isNameChar, h.1.1], h.1.2⟩
    · exact h.2 c hc

end SchemaForms.Xml
