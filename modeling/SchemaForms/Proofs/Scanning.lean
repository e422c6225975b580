import Mathlib.Data.List.TakeWhile
import SchemaForms.Xml.Markup
import SchemaForms.Xml.Reader

/-!
# Scanning what is written

Names, attribute values and texts that are written are scanned again: the scanner
stops where the writer did, and the references stand for the characters that were
escaped. Line ends and other blanks are changed where they are not written as
references, so texts are free of carriage returns and values of all blanks but
spaces.
-/

namespace SchemaForms.Xml

/-! ## Names -/

theorem isPlainNameChar_of_isNCName {name : String} (h : isNCName name = true) :
    ∀ c ∈ name.toList, isPlainNameChar c = true := by
  obtain ⟨-, -, -, -, hchars⟩ := exists_of_isNCName h
  exact fun c hc => by simp [isPlainNameChar, hchars c hc]

theorem startsAsName_of_isNCName {name : String} (h : isNCName name = true) :
    startsAsName name.toList = true := by
  obtain ⟨first, rest, hname, hstart, -⟩ := exists_of_isNCName h
  rw [hname, startsAsName, hstart]

theorem takeWhile_append_cons {test : Char → Bool} {taken rest : List Char} {c : Char}
    (h : ∀ c ∈ taken, test c = true) (hc : test c = false) :
    (taken ++ c :: rest).takeWhile test = taken := by
  rw [List.takeWhile_append_of_pos h, List.takeWhile_cons_of_neg (by simp [hc]), List.append_nil]

theorem dropWhile_append_cons {test : Char → Bool} {taken rest : List Char} {c : Char}
    (h : ∀ c ∈ taken, test c = true) (hc : test c = false) :
    (taken ++ c :: rest).dropWhile test = c :: rest := by
  rw [List.dropWhile_append_of_pos h, List.dropWhile_cons_of_neg (by simp [hc])]

theorem scanQualifiedName_append {name : String} (h : isNCName name = true) {c : Char}
    (hc : isNameChar c = false) (rest : List Char) :
    scanQualifiedName (name.toList ++ c :: rest) = .ok (⟨"", name⟩, c :: rest) := by
  have hplain : isPlainNameChar c = false := by simp [isPlainNameChar, hc]
  have hcolon : c ≠ ':' := by
    rintro rfl
    revert hc
    decide
  simp only [scanQualifiedName, takeWhile_append_cons (isPlainNameChar_of_isNCName h) hplain,
    dropWhile_append_cons (isPlainNameChar_of_isNCName h) hplain, startsAsName_of_isNCName h]
  split
  · rename_i hsame
    exact absurd (List.cons.inj hsame).1 hcolon
  · simp

theorem scanName_append {name : String} (h : isNCName name = true) {c : Char}
    (hc : isNameChar c = false) (rest : List Char) :
    scanName (name.toList ++ c :: rest) = .ok (name, c :: rest) := by
  obtain ⟨first, others, hname, hstart, hchars⟩ := exists_of_isNCName h
  have hothers : ∀ c ∈ others, isNameChar c = true := fun c hc =>
    (hchars c (hname ▸ List.mem_cons_of_mem _ hc)).1
  rw [hname, List.cons_append, scanName, if_pos hstart, takeWhile_append_cons hothers hc,
    dropWhile_append_cons hothers hc, ← hname, String.ofList_toList]

/-! ## Scanning up to a mark -/

theorem scanUntil_append {stop : List Char → Bool} {taken rest : List Char}
    (htaken : ∀ c ∈ taken, isXmlChar c = true ∧ ∀ after, stop (c :: after) = false)
    (hrest : ∀ c after, rest = c :: after → isXmlChar c = true ∧ stop rest = true) :
    scanUntil stop (taken ++ rest) = .ok (taken, rest) := by
  induction taken with
  | nil =>
      cases rest with
      | nil => rfl
      | cons c after =>
          obtain ⟨hc, hstop⟩ := hrest c after rfl
          simp [scanUntil, hc, hstop]
  | cons c taken ih =>
      rw [List.forall_mem_cons] at htaken
      rw [List.cons_append, scanUntil, ih htaken.2]
      simp [htaken.1.1, htaken.1.2]

/-! ## Escaped characters -/

namespace Markup

def writtenPiece (c : Char) : Piece :=
  if c ∈ ['<', '>', '&', '\'', '"'] then .referenced c else .char c

theorem forall_letters {name : String}
    (h : (name.toList.all fun c => isXmlChar c && decide (c ∉ ['<', '>', '"', '#'])) = true) :
    ∀ c ∈ name.toList, isXmlChar c = true ∧ c ∉ ['<', '>', '"', '#'] := by
  simpa [List.all_eq_true] using h

theorem escapedChar_cases (c : Char) :
    (∃ name, isNCName name = true ∧ escapedChar c = '&' :: (name.toList ++ [';']) ∧
        (∀ other ∈ name.toList, isXmlChar other = true ∧ other ∉ ['<', '>', '"', '#']) ∧
        namedReference name = .referenced c ∧ writtenPiece c = .referenced c) ∨
      (escapedChar c = [c] ∧ c ∉ ['<', '>', '&', '\'', '"'] ∧ writtenPiece c = .char c) := by
  by_cases hspecial : c ∈ ['<', '>', '&', '\'', '"']
  · left
    simp only [List.mem_cons, List.not_mem_nil, or_false] at hspecial
    rcases hspecial with rfl | rfl | rfl | rfl | rfl
    · exact ⟨"lt", by decide +kernel, by decide +kernel, forall_letters (by decide +kernel),
        by decide +kernel⟩
    · exact ⟨"gt", by decide +kernel, by decide +kernel, forall_letters (by decide +kernel),
        by decide +kernel⟩
    · exact ⟨"amp", by decide +kernel, by decide +kernel, forall_letters (by decide +kernel),
        by decide +kernel⟩
    · exact ⟨"apos", by decide +kernel, by decide +kernel, forall_letters (by decide +kernel),
        by decide +kernel⟩
    · exact ⟨"quot", by decide +kernel, by decide +kernel, forall_letters (by decide +kernel),
        by decide +kernel⟩
  · refine .inr ⟨?_, hspecial, by rw [writtenPiece, if_neg hspecial]⟩
    simp only [List.mem_cons, List.not_mem_nil, or_false, not_or] at hspecial
    unfold escapedChar
    split <;> simp_all

theorem mem_escapedChar {c written : Char} (hc : isXmlChar c = true)
    (h : written ∈ escapedChar c) :
    isXmlChar written = true ∧ written ≠ '<' ∧ written ≠ '>' ∧ written ≠ '"' := by
  have hpossible : isXmlChar written = true ∧ written ∉ ['<', '>', '"'] := by
    rcases escapedChar_cases c with ⟨name, -, hwritten, hletters, -⟩ | ⟨hwritten, hplain, -⟩
    · rw [hwritten] at h
      simp only [List.mem_cons, List.mem_append, List.not_mem_nil, or_false] at h
      rcases h with rfl | h | rfl
      · decide
      · obtain ⟨hxml, hother⟩ := hletters written h
        exact ⟨hxml, fun hin => hother (List.mem_append_left ['#'] hin)⟩
      · decide
    · rw [hwritten, List.mem_singleton] at h
      subst h
      refine ⟨hc, fun hin => hplain ?_⟩
      simp only [List.mem_cons, List.not_mem_nil, or_false] at hin ⊢
      rcases hin with hin | hin | hin <;> simp [hin]
  simpa using hpossible

end Markup

/-! ## References -/

theorem scanReference_append {name : String} (h : isNCName name = true)
    (hletters : ∀ c ∈ name.toList, isXmlChar c = true ∧ c ∉ ['<', '>', '"', '#'])
    (rest : List Char) :
    scanReference (name.toList ++ ';' :: rest) = .ok (namedReference name, rest) := by
  obtain ⟨first, others, hname, -, -⟩ := exists_of_isNCName h
  have hhash : first ≠ '#' := by
    rintro rfl
    exact (hletters '#' (hname ▸ List.mem_cons_self)).2 (by decide)
  have hscan : scanName (name.toList ++ ';' :: rest) = .ok (name, ';' :: rest) :=
    scanName_append h (by decide) rest
  rw [hname, List.cons_append] at hscan ⊢
  simp only [scanReference, bind, Except.bind, pure, Except.pure]
  split
  · rename_i hsame
    exact absurd (List.cons.inj hsame).1 hhash
  · rename_i hsame
    exact absurd (List.cons.inj hsame).1 hhash
  · simp only [hscan]

theorem piecesWithin_escaped {fuel : Nat} {text : List Char}
    (h : (text.flatMap Markup.escapedChar).length ≤ fuel) :
    piecesWithin fuel (text.flatMap Markup.escapedChar) = .ok (text.map Markup.writtenPiece) := by
  induction text generalizing fuel with
  | nil => cases fuel <;> rfl
  | cons c text ih =>
      rw [List.flatMap_cons] at h ⊢
      rw [List.map_cons]
      rcases Markup.escapedChar_cases c with
        ⟨name, hname, hwritten, hletters, hreference, hpiece⟩ | ⟨hwritten, hplain, hpiece⟩
      · rw [hwritten] at h ⊢
        rw [hpiece]
        simp only [List.cons_append, List.append_assoc, List.nil_append, List.length_cons,
          List.length_append] at h ⊢
        obtain ⟨fuel, rfl⟩ := Nat.exists_eq_add_of_lt (Nat.lt_of_lt_of_le (Nat.zero_lt_succ _) h)
        rw [Nat.zero_add, piecesWithin, scanReference_append hname hletters, hreference]
        have hrest := @ih fuel (by omega)
        simp only [bind, Except.bind, hrest, pure, Except.pure]
      · rw [hwritten] at h ⊢
        rw [hpiece]
        simp only [List.singleton_append, List.length_cons] at h ⊢
        obtain ⟨fuel, rfl⟩ := Nat.exists_eq_add_of_lt (Nat.lt_of_lt_of_le (Nat.zero_lt_succ _) h)
        have hamp : c ≠ '&' := by
          rintro rfl
          simp at hplain
        rw [Nat.zero_add, piecesWithin]
        · have hrest := @ih fuel (by omega)
          simp only [bind, Except.bind, hrest, pure, Except.pure]
        · simpa using hamp

theorem pieces_escaped (text : List Char) :
    pieces (text.flatMap Markup.escapedChar) = .ok (text.map Markup.writtenPiece) :=
  piecesWithin_escaped (Nat.le_refl _)

/-! ## Values and texts -/

def IsStableValue (value : String) : Prop :=
  ∀ c ∈ value.toList, isXmlChar c = true ∧ c ∉ ['\n', '\r', '\t']

def IsStableText (text : String) : Prop := ∀ c ∈ text.toList, isXmlChar c = true ∧ c ≠ '\r'

instance (value : String) : Decidable (IsStableValue value) :=
  decidable_of_iff (value.toList.all fun c => isXmlChar c && decide (c ∉ ['\n', '\r', '\t']))
    (by simp [IsStableValue, List.all_eq_true])

instance (text : String) : Decidable (IsStableText text) :=
  decidable_of_iff (text.toList.all fun c => isXmlChar c && c != '\r')
    (by simp [IsStableText, List.all_eq_true])

theorem blankLineEnd_of_notMem {c : Char} (h : c ∉ ['\n', '\r', '\t']) : blankLineEnd c = c := by
  simp only [List.mem_cons, List.not_mem_nil, or_false, not_or] at h
  simp [blankLineEnd, h]

theorem valueOfPieces_written {value : List Char} (h : ∀ c ∈ value, c ∉ ['\n', '\r', '\t'])
    (entities : Entities)
    (expand : Option (List Char → Nat → Except Malformed (List Char × Nat))) (references : Nat) :
    valueOfPieces entities false expand (value.map Markup.writtenPiece) references =
      .ok (value, references) := by
  induction value with
  | nil => rfl
  | cons c value ih =>
      rw [List.forall_mem_cons] at h
      have hrest := ih h.2
      rw [List.map_cons]
      rcases Markup.escapedChar_cases c with ⟨-, -, -, -, -, hpiece⟩ | ⟨-, -, hpiece⟩ <;>
        rw [hpiece]
      · simp [valueOfPieces, hrest, bind, Except.bind, pure, Except.pure]
      · have hreturn : c ≠ '\r' := by
          rintro rfl
          exact h.1 (by decide)
        rw [valueOfPieces]
        · simp only [hrest, bind, Except.bind, pure, Except.pure, blankLineEnd_of_notMem h.1]
        · simpa using fun _ _ => hreturn

theorem valueAtLevel_escaped {value : String} (h : IsStableValue value) (entities : Entities)
    (references : Nat) :
    valueAtLevel entities entityLevels (value.toList.flatMap Markup.escapedChar) references =
      .ok (value.toList, references) := by
  have hvalue := valueOfPieces_written (fun c hc => (h c hc).2) entities
    (some (valueAtLevel entities 9)) references
  rw [show entityLevels = 9 + 1 from rfl, valueAtLevel, pieces_escaped]
  exact hvalue

theorem appendNormalized_of_ne {before : List Char} {c : Char} (hbefore : before.head? ≠ some '\r')
    (hc : c ≠ '\r') (last : Bool) : appendNormalized before c last = c :: before := by
  unfold appendNormalized
  split
  · simp at hbefore
  · simp [hc]

theorem readPieces_written {reading : Reading} (hreading : reading.nested = false)
    {text : List Char} (h : ∀ c ∈ text, c ≠ '\r') {before : List Char}
    (hbefore : before.head? ≠ some '\r') (verbatim : Bool) (progress : Progress) :
    readPieces reading before verbatim progress (text.map Markup.writtenPiece) =
      .ok (progress.addSomeText (before.reverse ++ text)) := by
  induction text generalizing before verbatim with
  | nil => rw [List.map_nil, readPieces, List.append_nil]
  | cons c text ih =>
      rw [List.forall_mem_cons] at h
      have hnext : (c :: before).head? ≠ some '\r' := by simpa using h.1
      have hrest := fun verbatim => ih h.2 hnext verbatim
      rw [List.reverse_cons, List.append_assoc, List.singleton_append] at hrest
      rw [List.map_cons]
      rcases Markup.escapedChar_cases c with ⟨-, -, -, -, -, hpiece⟩ | ⟨-, -, hpiece⟩ <;>
        rw [hpiece, readPieces]
      · rw [hreading, if_neg (by decide), hrest]
      · rw [appendNormalized_of_ne hbefore h.1, hrest]
        split <;> rfl

theorem containsMark_of_notMem {text : List Char} (h : '>' ∉ text) :
    containsMark "]]>" text = false := by
  induction text with
  | nil => decide
  | cons c text ih =>
      rw [List.mem_cons, not_or] at h
      rw [containsMark, ih h.2, Bool.or_false]
      by_contra hstarts
      rw [Bool.not_eq_false, startsWith, List.isPrefixOf_iff_prefix] at hstarts
      have hin : '>' ∈ c :: text := hstarts.subset (by decide +kernel)
      exact absurd hin (by simpa using h)

theorem readText_escaped {reading : Reading} (hreading : reading.nested = false) {text : String}
    (h : IsStableText text) (progress : Progress) :
    readText reading (text.toList.flatMap Markup.escapedChar) progress =
      .ok (progress.addSomeText text.toList) := by
  have hmark : '>' ∉ text.toList.flatMap Markup.escapedChar := by
    intro hin
    obtain ⟨c, hc, hin⟩ := List.mem_flatMap.mp hin
    exact (Markup.mem_escapedChar (h c hc).1 hin).2.2.1 rfl
  rw [readText, containsMark_of_notMem hmark, if_neg (by decide), pieces_escaped]
  exact readPieces_written hreading (fun c hc => (h c hc).2) (by simp) false progress

end SchemaForms.Xml
