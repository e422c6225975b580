import SchemaForms.Proofs.Scanning

/-!
# Reading written tags

The tag of an element that is written without prefixes is read with all its
attributes. One named xmlns is a declaration, and the others are in no namespace.
-/

namespace SchemaForms.Xml

/-! ## Attributes -/

structure StableAttributes (attributes : List (String × String)) : Prop where
  names : ∀ written ∈ attributes, isNCName written.1 = true
  values : ∀ written ∈ attributes, IsStableValue written.2
  spaces : ∀ written ∈ attributes, written.1 = "xmlns" →
    written.2 ≠ xmlNamespace ∧ written.2 ≠ xmlnsNamespace
  nodup : (attributes.map Prod.fst).Nodup

theorem toList_escaped (text : String) :
    (Markup.escaped text).toList = text.toList.flatMap Markup.escapedChar := by
  rw [Markup.escaped, String.toList_ofList]

theorem toList_writeAttributes_cons (name value : String) (rest : List (String × String)) :
    (Markup.writeAttributes ((name, value) :: rest)).toList =
      ' ' :: (name.toList ++ '=' :: '"' :: (value.toList.flatMap Markup.escapedChar ++
        '"' :: (Markup.writeAttributes rest).toList)) := by
  simp [Markup.writeAttributes, toList_escaped]

theorem skipSpaces_cons {c : Char} (h : isSpace c = false) (rest : List Char) :
    skipSpaces (c :: rest) = c :: rest := by
  rw [skipSpaces, List.dropWhile_cons_of_neg (by simp [h])]

theorem expect_append (mark : String) (rest : List Char) :
    expect mark (mark.toList ++ rest) = .ok rest := by
  have hstarts : startsWith mark (mark.toList ++ rest) = true := by
    rw [startsWith, List.isPrefixOf_iff_prefix]
    exact List.prefix_append _ _
  rw [expect, if_pos hstarts, ← String.length_toList, List.drop_left]

theorem scanEquals_cons (rest : List Char) :
    scanEquals ('=' :: '"' :: rest) = .ok ('"' :: rest) := by
  have hexpect : expect "=" ('=' :: '"' :: rest) = .ok ('"' :: rest) := by
    have happend := expect_append "=" ('"' :: rest)
    rwa [show "=".toList = ['='] from by decide +kernel, List.singleton_append] at happend
  rw [scanEquals, skipSpaces_cons (by decide), hexpect]
  exact congrArg Except.ok (skipSpaces_cons (by decide) rest)

theorem scanUntil_quote {value : String} (h : IsStableValue value) (rest : List Char) :
    scanUntil (fun ahead => ahead.head? = some '"' || ahead.head? = some '<')
        (value.toList.flatMap Markup.escapedChar ++ '"' :: rest) =
      .ok (value.toList.flatMap Markup.escapedChar, '"' :: rest) := by
  refine scanUntil_append (fun c hc => ?_) fun c after hrest => ?_
  · obtain ⟨original, horiginal, hc⟩ := List.mem_flatMap.mp hc
    obtain ⟨hxml, hless, -, hquote⟩ := Markup.mem_escapedChar (h original horiginal).1 hc
    exact ⟨hxml, fun after => by simp [hless, hquote]⟩
  · obtain ⟨rfl, rfl⟩ := List.cons.inj hrest
    exact ⟨by decide, by simp⟩

theorem scanAttribute_append {name value : String} (hname : isNCName name = true)
    (hvalue : IsStableValue value) (rest : List Char) :
    scanAttribute (name.toList ++ '=' :: '"' ::
        (value.toList.flatMap Markup.escapedChar ++ '"' :: rest)) =
      .ok (⟨⟨"", name⟩, value.toList.flatMap Markup.escapedChar⟩, rest) := by
  have hquote : ∀ rest, scanQuote ('"' :: rest) = .ok ('"', rest) := fun rest => by
    simp [scanQuote]
  rw [scanAttribute, scanQualifiedName_append hname (by decide)]
  simp only [bind, Except.bind, scanEquals_cons, hquote, scanUntil_quote hvalue, if_true, pure,
    Except.pure]

/-! ## Ends of tags -/

namespace TagEnd

def written : TagEnd → List Char
  | .opens => ['>']
  | .empty => ['/', '>']
  | .missing => []

end TagEnd

theorem not_isSpace_of_isNameStart {c : Char} (h : isNameStart c = true) : isSpace c = false := by
  by_contra hspace
  rw [Bool.not_eq_false] at hspace
  simp only [isSpace, Bool.or_eq_true, decide_eq_true_eq] at hspace
  rcases hspace with ((rfl | rfl) | rfl) | rfl <;> revert h <;> decide

def rawAttribute (written : String × String) : RawAttribute :=
  ⟨⟨"", written.1⟩, written.2.toList.flatMap Markup.escapedChar⟩

theorem scanAttributes_append {attributes : List (String × String)}
    (hnames : ∀ written ∈ attributes, isNCName written.1 = true)
    (hvalues : ∀ written ∈ attributes, IsStableValue written.2) {tagEnd : TagEnd}
    (hend : tagEnd ≠ .missing) {fuel : Nat} (hfuel : attributes.length < fuel)
    (rest : List Char) :
    scanAttributes fuel ((Markup.writeAttributes attributes).toList ++ (tagEnd.written ++ rest)) =
      .ok ((attributes.map rawAttribute, tagEnd), rest) := by
  induction attributes generalizing fuel with
  | nil =>
      obtain ⟨fuel, rfl⟩ := Nat.exists_eq_add_of_lt hfuel
      have hnothing : (Markup.writeAttributes []).toList = [] := rfl
      rw [hnothing, List.nil_append, List.length_nil, Nat.zero_add]
      cases tagEnd with
      | missing => exact absurd rfl hend
      | opens =>
          rw [TagEnd.written, List.singleton_append, scanAttributes, skipSpaces_cons (by decide)]
          · rfl
          · simp
      | empty =>
          have hexpect : expect ">" ('>' :: rest) = .ok rest := expect_append ">" rest
          rw [TagEnd.written, List.cons_append, List.singleton_append, scanAttributes,
            skipSpaces_cons (by decide)]
          · simp only [hexpect, bind, Except.bind, pure, Except.pure, List.map_nil]
          · simp
  | cons first attributes ih =>
      obtain ⟨name, value⟩ := first
      rw [List.forall_mem_cons] at hnames hvalues
      obtain ⟨fuel, rfl⟩ := Nat.exists_eq_add_of_lt (Nat.lt_of_le_of_lt (Nat.zero_le _) hfuel)
      obtain ⟨start, others, hname, hstart, -⟩ := exists_of_isNCName hnames.1
      have hrest := ih hnames.2 hvalues.2 (by simpa using hfuel)
      have hfirst := scanAttribute_append hnames.1 hvalues.1
        ((Markup.writeAttributes attributes).toList ++ (tagEnd.written ++ rest))
      rw [toList_writeAttributes_cons]
      simp only [hname, List.cons_append, List.append_assoc, Nat.zero_add] at hfirst hrest ⊢
      have hspaces : ∀ after, skipSpaces (' ' :: start :: after) = start :: after := by
        intro after
        rw [skipSpaces, List.dropWhile_cons_of_pos (by decide)]
        exact skipSpaces_cons (not_isSpace_of_isNameStart hstart) after
      rw [scanAttributes]
      · simp only [hspaces]
        split
        · rename_i hsame
          cases hsame
        · rename_i hsame
          rw [(List.cons.inj hsame).1] at hstart
          exact absurd hstart (by decide)
        · rename_i hsame
          rw [(List.cons.inj hsame).1] at hstart
          exact absurd hstart (by decide)
        · rename_i hsame
          obtain ⟨rfl, rfl⟩ := List.cons.inj hsame
          have hspace : ((' ' :: start :: (others ++ '=' :: '"' :: (value.toList.flatMap
              Markup.escapedChar ++ '"' :: ((Markup.writeAttributes attributes).toList ++
                (tagEnd.written ++ rest))))).head?.map isSpace).getD false = true := rfl
          rw [if_pos hspace, hfirst]
          simp only [bind, Except.bind, hrest, pure, Except.pure, List.map_cons, rawAttribute]
      · simp

/-! ## What a tag declares and has -/

def namedValue (written : String × String) : NamedValue := ⟨⟨"", written.1⟩, written.2⟩

def declaredBy (attributes : List (String × String)) : Scope :=
  (attributes.filter (·.1 == "xmlns")).map fun written => (none, written.2)

def readAttributes (attributes : List (String × String)) : List Attribute :=
  (attributes.filter (·.1 != "xmlns")).map fun written => ⟨none, written.1, written.2⟩

def readTagOf (around : Scope) (name : String) (attributes : List (String × String)) : Tag :=
  ⟨0, none, name, readAttributes attributes, around.extend (declaredBy attributes)⟩

theorem readValues_written {reading : Reading} (hreading : reading.levels = entityLevels)
    {attributes : List (String × String)}
    (hvalues : ∀ written ∈ attributes, IsStableValue written.2) (references : Nat) :
    readValues reading (attributes.map rawAttribute) references =
      .ok (attributes.map namedValue, references) := by
  induction attributes with
  | nil => rfl
  | cons first attributes ih =>
      rw [List.forall_mem_cons] at hvalues
      rw [List.map_cons, List.map_cons, rawAttribute, readValues, hreading,
        valueAtLevel_escaped hvalues.1]
      simp only [bind, Except.bind, ih hvalues.2, pure, Except.pure, namedValue,
        String.ofList_toList]

theorem Gathered.add_namedValue (gathered : Gathered) {written : String × String}
    (h : written.1 = "xmlns" → written.2 ≠ xmlNamespace ∧ written.2 ≠ xmlnsNamespace) :
    gathered.add (namedValue written) =
      .ok (if written.1 = "xmlns" then
          { gathered with declared := gathered.declared ++ [(none, written.2)] }
        else { gathered with attributes := gathered.attributes ++ [namedValue written] }) := by
  by_cases hname : written.1 = "xmlns"
  · obtain ⟨hxml, hxmlns⟩ := h hname
    simp [Gathered.add, isDeclaration, namedValue, declare, hname, hxml, hxmlns, Except.map]
  · simp [Gathered.add, isDeclaration, namedValue, hname]

theorem foldlM_gathered {attributes : List (String × String)}
    (h : ∀ written ∈ attributes, written.1 = "xmlns" →
      written.2 ≠ xmlNamespace ∧ written.2 ≠ xmlnsNamespace) (gathered : Gathered) :
    (attributes.map namedValue).foldlM Gathered.add gathered =
      .ok ⟨gathered.declared ++ declaredBy attributes, gathered.attributes ++
        (attributes.filter (·.1 != "xmlns")).map namedValue⟩ := by
  induction attributes generalizing gathered with
  | nil => simp [declaredBy, pure, Except.pure]
  | cons first attributes ih =>
      rw [List.forall_mem_cons] at h
      rw [List.map_cons, List.foldlM_cons, gathered.add_namedValue h.1]
      simp only [bind, Except.bind, ih h.2]
      by_cases hname : first.1 = "xmlns" <;> simp [declaredBy, hname]

theorem resolveAttributes_namedValues {attributes : List (String × String)}
    {resolved : List Attribute}
    (h : (resolved.map (·.name) ++ attributes.map Prod.fst).Nodup) (scope : Scope) :
    resolveAttributes scope (attributes.map namedValue) resolved =
      .ok (resolved ++ attributes.map fun written => ⟨none, written.1, written.2⟩) := by
  induction attributes generalizing resolved with
  | nil => simp [resolveAttributes]
  | cons first attributes ih =>
      have hfresh : (resolved.any fun other => other.space == none && other.name == first.1) =
          false := by
        rw [List.any_eq_false]
        intro other hother hsame
        simp only [Bool.and_eq_true, beq_iff_eq] at hsame
        refine (List.nodup_append.mp h).2.2 first.1 ?_ first.1 List.mem_cons_self rfl
        exact hsame.2 ▸ List.mem_map_of_mem hother
      have hrest : ((resolved ++ [(⟨none, first.1, first.2⟩ : Attribute)]).map (·.name) ++
          attributes.map Prod.fst).Nodup := by
        simpa using h
      have hresolved : resolveAttribute scope (namedValue first) =
          .ok ⟨none, first.1, first.2⟩ := by
        simp [resolveAttribute, namedValue, bind, Except.bind, pure, Except.pure]
      rw [List.map_cons, resolveAttributes]
      simp only [hresolved, bind, Except.bind, hfresh, Bool.false_eq_true, if_false, ih hrest]
      simp

/-! ## Tags -/

theorem exists_of_writtenTag (attributes : List (String × String)) {tagEnd : TagEnd}
    (hend : tagEnd ≠ .missing) (rest : List Char) :
    ∃ c after, (Markup.writeAttributes attributes).toList ++ (tagEnd.written ++ rest) = c :: after ∧
      isNameChar c = false := by
  cases attributes with
  | nil =>
      have hnothing : (Markup.writeAttributes []).toList = [] := rfl
      rw [hnothing]
      cases tagEnd with
      | missing => exact absurd rfl hend
      | opens => exact ⟨'>', rest, rfl, by decide⟩
      | empty => exact ⟨'/', '>' :: rest, rfl, by decide⟩
  | cons first attributes =>
      obtain ⟨name, value⟩ := first
      rw [toList_writeAttributes_cons]
      exact ⟨' ', _, rfl, by decide⟩

theorem length_le_writeAttributes (attributes : List (String × String)) :
    attributes.length ≤ (Markup.writeAttributes attributes).toList.length := by
  induction attributes with
  | nil => exact Nat.le_refl _
  | cons first attributes ih =>
      obtain ⟨name, value⟩ := first
      rw [toList_writeAttributes_cons]
      simp only [List.length_cons, List.length_append]
      omega

theorem Gathered.resolve_written {attributes : List (String × String)}
    (h : StableAttributes attributes) (inherited : Scope) :
    (⟨declaredBy attributes, (attributes.filter (·.1 != "xmlns")).map namedValue⟩ :
        Gathered).resolve inherited =
      .ok (inherited.extend (declaredBy attributes), readAttributes attributes) := by
  have hnodup : ((attributes.filter (·.1 != "xmlns")).map Prod.fst).Nodup :=
    (List.filter_sublist.map Prod.fst).nodup h.nodup
  have hresolve : resolveAttributes (inherited.extend (declaredBy attributes))
      ((attributes.filter (·.1 != "xmlns")).map namedValue) [] =
        .ok (readAttributes attributes) := resolveAttributes_namedValues (by simpa using hnodup) _
  simp only [resolve, hresolve, bind, Except.bind, pure, Except.pure]

namespace Outline

variable {outline : Outline} {name : String} {attributes : List (String × String)}

def tagged (outline : Outline) (tag : Tag) : TagEnd → Outline
  | .opens => { outline with opened := ⟨"", tag, []⟩ :: outline.opened }
  | .empty => outline.add (.element tag [])
  | .missing => outline.breakOff

theorem gather_written (hgathered : outline.gathered = .nothing)
    (h : StableAttributes attributes) :
    outline.gather (attributes.map namedValue) =
      .ok { outline with gathered :=
        ⟨declaredBy attributes, (attributes.filter (·.1 != "xmlns")).map namedValue⟩ } := by
  rw [gather, foldlM_gathered h.spaces, hgathered]
  rfl

theorem begin_of_resolve {scope : Scope} {resolved : List Attribute}
    (h : outline.gathered.resolve outline.scope = .ok (scope, resolved)) :
    outline.begin ⟨"", name⟩ =
      .ok ({ outline with gathered := .nothing }.tagged ⟨0, none, name, resolved, scope⟩
        .opens) := by
  simp only [begin, finishTag, h, bind, Except.bind, pure, Except.pure]
  rfl

theorem begin_written (hgathered : outline.gathered = .nothing) (h : StableAttributes attributes) :
    ({ outline with gathered := ⟨declaredBy attributes,
        (attributes.filter (·.1 != "xmlns")).map namedValue⟩ } : Outline).begin ⟨"", name⟩ =
      .ok (outline.tagged (readTagOf outline.scope name attributes) .opens) := by
  rw [begin_of_resolve (Gathered.resolve_written h outline.scope)]
  obtain ⟨opened, nodes, gathered, apart⟩ := outline
  simp only at hgathered
  subst hgathered
  rfl

/-- An end tag closes the innermost element, which then holds the nodes read in it. -/
theorem close_of_opened (hgathered : outline.gathered = .nothing) (tag : Tag)
    (nodes : List Node) :
    ({ outline with opened := ⟨"", tag, nodes⟩ :: outline.opened } : Outline).close ⟨"", tag.name⟩ =
      .ok (outline.add (.element tag nodes.reverse)) := by
  obtain ⟨opened, outside, gathered, apart⟩ := outline
  simp only at hgathered
  subst hgathered
  simp only [close, finishTag, Gathered.resolve_nothing, bind, Except.bind, pure, Except.pure,
    decide_true, Bool.and_self, if_true]

end Outline

/-- The tag of a written element is read as it was written, whether it is empty or not. -/
theorem readTag_written {reading : Reading} (hreading : reading.levels = entityLevels)
    {name : String} (hname : isNCName name = true) {attributes : List (String × String)}
    (hattributes : StableAttributes attributes) {tagEnd : TagEnd} (hend : tagEnd ≠ .missing)
    {progress : Progress} (hgathered : progress.outline.gathered = .nothing)
    (rest : List Char) :
    readTag reading progress (name.toList ++
        ((Markup.writeAttributes attributes).toList ++ (tagEnd.written ++ rest))) =
      .ok ((⟨progress.outline.tagged (readTagOf progress.outline.scope name attributes) tagEnd,
        progress.references⟩, tagEnd), rest) := by
  obtain ⟨c, after, hafter, hc⟩ := exists_of_writtenTag attributes hend rest
  have hlength : attributes.length < (c :: after).length + 1 := by
    rw [← hafter, List.length_append]
    exact Nat.lt_succ_of_le (Nat.le_add_right_of_le (length_le_writeAttributes attributes))
  have hscan := scanAttributes_append hattributes.names hattributes.values hend hlength rest
  have hvalues := readValues_written hreading hattributes.values progress.references
  rw [hafter] at hscan ⊢
  rw [readTag, scanQualifiedName_append hname hc]
  have hprefix : ("" = "xmlns") = False := by decide
  simp only [bind, Except.bind, hscan, hvalues, Outline.gather_written hgathered hattributes,
    Outline.begin_written hgathered hattributes, hprefix, if_false, pure, Except.pure]
  cases tagEnd with
  | missing => exact absurd rfl hend
  | opens => rfl
  | empty =>
      have hclose := Outline.close_of_opened hgathered
        (readTagOf progress.outline.scope name attributes) []
      simp only [Outline.tagged]
      rw [show (⟨"", name⟩ : QualifiedName) =
        ⟨"", (readTagOf progress.outline.scope name attributes).name⟩ from rfl, hclose]
      rfl

end SchemaForms.Xml
