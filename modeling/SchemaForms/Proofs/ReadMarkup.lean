import Mathlib.Data.List.Forall2
import SchemaForms.Proofs.WrittenTags

/-!
# Reading written documents

A document is read as the element that was written. Its attributes and texts are
what was given to the writer; between elements stand the lines that the writer
has put there.
-/

namespace SchemaForms.Xml

namespace Markup

/-! ## What can be written -/

mutual
@[elab_as_elim]
theorem inChildren {motive : Markup → Prop}
    (element : ∀ name attributes text children, (∀ child ∈ children, motive child) →
      motive (.element name attributes text children)) (markup : Markup) : motive markup := by
  obtain ⟨name, attributes, text, children⟩ := markup
  exact element name attributes text children (allChildren element children)

theorem allChildren {motive : Markup → Prop}
    (element : ∀ name attributes text children, (∀ child ∈ children, motive child) →
      motive (.element name attributes text children)) (children : List Markup) :
    ∀ child ∈ children, motive child := by
  cases children with
  | nil => exact fun _ hnone => absurd hnone List.not_mem_nil
  | cons first rest =>
      exact List.forall_mem_cons.mpr ⟨inChildren element first, allChildren element rest⟩
end

mutual
def Stable : Markup → Prop
  | .element name attributes text children =>
      isNCName name = true ∧ StableAttributes attributes ∧ (∀ own ∈ text, IsStableText own) ∧
        AllStable children

def AllStable : List Markup → Prop
  | [] => True
  | markup :: rest => markup.Stable ∧ AllStable rest
end

theorem allStable_iff {children : List Markup} :
    AllStable children ↔ ∀ child ∈ children, child.Stable := by
  induction children with
  | nil => simp [AllStable]
  | cons child rest ih => rw [AllStable, ih, List.forall_mem_cons]

/-! ## What is read -/

def textNodes (text : String) : List Node := if text = "" then [] else [.text text]

def lineNodes (depth : Nat) (children : List Markup) : List Node :=
  if children.isEmpty then [] else [.text (lineAt depth)]

mutual
def node (around : Scope) (depth : Nat) : Markup → Node
  | .element name attributes text children =>
      .element (readTagOf around name attributes)
        (textNodes (text.getD "") ++
          nodes (around.extend (declaredBy attributes)) (depth + 1) text.isNone children ++
          lineNodes depth children)

def nodes (around : Scope) (depth : Nat) (newLine : Bool) : List Markup → List Node
  | [] => []
  | markup :: rest =>
      (if newLine then [.text (lineAt depth)] else []) ++
        markup.node around depth :: nodes around depth true rest
end

/-! ## What is written -/

def inner (depth : Nat) (text : Option String) (children : List Markup) : List Char :=
  (textOf text).toList ++ (writeAll (depth + 1) text.isNone children).toList ++
    if children.isEmpty then [] else (lineAt depth).toList

def tagged (depth : Nat) : Markup → List Char
  | .element name attributes text children =>
      '<' :: (name.toList ++ ((writeAttributes attributes).toList ++
        if text.isNone && children.isEmpty then TagEnd.empty.written
        else TagEnd.opens.written ++ (inner depth text children ++
          '<' :: '/' :: (name.toList ++ ['>']))))

theorem toList_write (depth : Nat) (newLine : Bool) (markup : Markup) :
    (write depth newLine markup).toList =
      (if newLine then (lineAt depth).toList else []) ++ markup.tagged depth := by
  obtain ⟨name, attributes, text, children⟩ := markup
  rw [write, tagged, inner]
  cases newLine <;> cases text.isNone && children.isEmpty <;> cases children.isEmpty <;>
    simp [TagEnd.written]

theorem toList_writeAll_cons (depth : Nat) (newLine : Bool) (markup : Markup)
    (rest : List Markup) :
    (writeAll depth newLine (markup :: rest)).toList =
      (if newLine then (lineAt depth).toList else []) ++
        (markup.tagged depth ++ (writeAll depth true rest).toList) := by
  rw [writeAll, String.toList_append, toList_write, List.append_assoc]

end Markup

/-! ## Reading content -/

structure Frame where
  outer : List OpenElement
  outside : List Node
  references : Nat
  tag : Tag

def Frame.holding (frame : Frame) (nodes : List Node) : Progress :=
  ⟨⟨⟨"", frame.tag, nodes⟩ :: frame.outer, frame.outside, .nothing, false⟩, frame.references⟩

def Frame.below (frame : Frame) (before : List Node) (tag : Tag) : Frame :=
  ⟨⟨"", frame.tag, before⟩ :: frame.outer, frame.outside, frame.references, tag⟩

def Apart (nodes : List Node) : Prop := ∀ text rest, nodes ≠ .text text :: rest

theorem exists_of_escaped {text : String} (h : text ≠ "") :
    ∃ c others, text.toList.flatMap Markup.escapedChar = c :: others := by
  cases hlist : text.toList with
  | nil => exact absurd (String.toList_eq_nil_iff.mp hlist) h
  | cons first rest =>
      rw [List.flatMap_cons]
      rcases Markup.escapedChar_cases first with ⟨name, -, hwritten, -⟩ | ⟨hwritten, -⟩ <;>
        rw [hwritten] <;> exact ⟨_, _, rfl⟩

theorem Frame.addSomeText_holding (frame : Frame) {nodes : List Node} (h : Apart nodes)
    {text : String} (hne : text ≠ "") :
    (frame.holding nodes).addSomeText text.toList = frame.holding (.text text :: nodes) := by
  have hsome : text.toList.isEmpty = false := by
    rw [List.isEmpty_eq_false_iff]
    exact fun hnil => hne (String.toList_eq_nil_iff.mp hnil)
  have hjoin : Outline.joinText text nodes = .text text :: nodes := by
    unfold Outline.joinText
    split
    · rename_i before rest
      exact absurd rfl (h before rest)
    · rfl
  simp only [Progress.addSomeText, hsome, Progress.addText, Frame.holding, Outline.addText,
    Outline.update, Bool.false_eq_true, if_false, String.ofList_toList, hjoin]

section

variable {reading : Reading} (hlevels : reading.levels = entityLevels) (frame : Frame)
  {nodes : List Node}
include hlevels

theorem nested_of_levels : reading.nested = false := by
  rw [Reading.nested, hlevels]
  decide

theorem readContent_text {text : String} (htext : IsStableText text) (hne : text ≠ "")
    (hapart : Apart nodes) (fuel depth : Nat) (rest : List Char) :
    readContent reading (fuel + 1) depth true (frame.holding nodes)
        (text.toList.flatMap Markup.escapedChar ++ '<' :: rest) =
      readContent reading fuel depth true (frame.holding (.text text :: nodes)) ('<' :: rest) := by
  have hchars : ∀ c ∈ text.toList.flatMap Markup.escapedChar, isXmlChar c = true ∧ c ≠ '<' := by
    intro c hc
    obtain ⟨original, horiginal, hc⟩ := List.mem_flatMap.mp hc
    obtain ⟨hxml, hless, -⟩ := Markup.mem_escapedChar (htext original horiginal).1 hc
    exact ⟨hxml, hless⟩
  have hscan : scanUntil (fun ahead => ahead.head? = some '<')
      (text.toList.flatMap Markup.escapedChar ++ '<' :: rest) =
        .ok (text.toList.flatMap Markup.escapedChar, '<' :: rest) := by
    refine scanUntil_append (fun c hc => ?_) fun c after hrest => ?_
    · obtain ⟨hxml, hless⟩ := hchars c hc
      exact ⟨hxml, fun after => by simp [hless]⟩
    · obtain ⟨rfl, rfl⟩ := List.cons.inj hrest
      exact ⟨by decide, by simp⟩
  have hread := readText_escaped (nested_of_levels hlevels) htext (frame.holding nodes)
  rw [frame.addSomeText_holding hapart hne] at hread
  obtain ⟨c, others, hsome⟩ := exists_of_escaped hne
  rw [hsome] at hchars hscan hread ⊢
  rw [List.forall_mem_cons] at hchars
  rw [List.cons_append] at hscan ⊢
  rw [readContent]
  · simp only [hscan, bind, Except.bind, hread]
  · simp
  · exact fun rest hsame => hchars.1.2 (List.cons.inj hsame).1

theorem readContent_line (hapart : Apart nodes) (fuel depth line : Nat) (rest : List Char) :
    readContent reading (fuel + 1) depth true (frame.holding nodes)
        ((Markup.lineAt line).toList ++ '<' :: rest) =
      readContent reading fuel depth true (frame.holding (.text (Markup.lineAt line) :: nodes))
        ('<' :: rest) := by
  have hchars : ∀ c ∈ (Markup.lineAt line).toList, c = '\n' ∨ c = ' ' := by
    intro c hc
    rw [Markup.lineAt, String.toList_ofList, List.mem_cons, List.mem_replicate] at hc
    exact hc.imp id (·.2)
  have hplain : (Markup.lineAt line).toList.flatMap Markup.escapedChar =
      (Markup.lineAt line).toList := by
    have hsame : ∀ c ∈ (Markup.lineAt line).toList, Markup.escapedChar c = [c] := by
      intro c hc
      rcases hchars c hc with rfl | rfl <;> rfl
    rw [List.flatMap_congr hsame, List.flatMap_singleton']
  have hstable : IsStableText (Markup.lineAt line) := by
    intro c hc
    rcases hchars c hc with rfl | rfl <;> decide
  have hne : Markup.lineAt line ≠ "" := by
    intro hempty
    have hlist := congrArg String.toList hempty
    simp [Markup.lineAt] at hlist
  have hread := readContent_text hlevels frame hstable hne hapart fuel depth rest
  rwa [hplain] at hread

omit hlevels in
theorem scanClose_append {name : String} (hname : isNCName name = true) (rest : List Char) :
    scanClose (name.toList ++ '>' :: rest) = .ok (⟨"", name⟩, rest) := by
  have hexpect : expect ">" ('>' :: rest) = .ok rest := expect_append ">" rest
  rw [scanClose, scanQualifiedName_append hname (by decide)]
  simp only [bind, Except.bind, skipSpaces_cons (show isSpace '>' = false by decide), hexpect, pure,
    Except.pure]

omit hlevels in
theorem readContent_close (before : List Node) {tag : Tag} (hname : isNCName tag.name = true)
    (fuel depth : Nat) (rest : List Char) :
    readContent reading (fuel + 1) (depth + 1) true ((frame.below before tag).holding nodes)
        ('<' :: '/' :: (tag.name.toList ++ '>' :: rest)) =
      readContent reading fuel depth true
        (frame.holding (.element tag nodes.reverse :: before)) rest := by
  have hclose := Outline.close_of_opened
    (show (frame.holding before).outline.gathered = .nothing from rfl) tag nodes
  have hsame : ((frame.below before tag).holding nodes).outline =
      { (frame.holding before).outline with
        opened := ⟨"", tag, nodes⟩ :: (frame.holding before).outline.opened } := rfl
  rw [readContent]
  simp only [scanClose_append hname, bind, Except.bind, Bool.not_true, Bool.false_eq_true, if_false,
    hsame, hclose]
  rfl

omit hlevels in
theorem readContent_closeRoot {tag : Tag} (hname : isNCName tag.name = true) (nodes : List Node)
    (fuel : Nat) (rest : List Char) :
    readContent reading (fuel + 1) 0 true ((⟨[], [], 0, tag⟩ : Frame).holding nodes)
        ('<' :: '/' :: (tag.name.toList ++ '>' :: rest)) =
      .ok (⟨⟨[], [.element tag nodes.reverse], .nothing, false⟩, 0⟩, rest) := by
  have hclose := Outline.close_of_opened
    (show (⟨[], [], .nothing, false⟩ : Outline).gathered = .nothing from rfl) tag nodes
  rw [readContent]
  simp only [scanClose_append hname, bind, Except.bind, Bool.not_true, Bool.false_eq_true, if_false,
    Frame.holding, hclose]
  rfl

theorem readContent_tag {name : String} (hname : isNCName name = true)
    {attributes : List (String × String)} (hattributes : StableAttributes attributes)
    {tagEnd : TagEnd} (hend : tagEnd ≠ .missing) (fuel depth : Nat) (rest : List Char) :
    readContent reading (fuel + 1) depth true (frame.holding nodes) ('<' :: (name.toList ++
        ((Markup.writeAttributes attributes).toList ++ (tagEnd.written ++ rest)))) =
      if tagEnd = .opens then readContent reading fuel (depth + 1) true
        ((frame.below nodes (readTagOf frame.tag.scope name attributes)).holding []) rest
      else readContent reading fuel depth true
        (frame.holding (.element (readTagOf frame.tag.scope name attributes) [] :: nodes))
        rest := by
  have hread := readTag_written hlevels hname hattributes hend
    (show (frame.holding nodes).outline.gathered = .nothing from rfl) rest
  obtain ⟨first, others, hfirst, hstart, -⟩ := exists_of_isNCName hname
  rw [hfirst, List.cons_append] at hread ⊢
  rw [readContent]
  · simp only [hread, bind, Except.bind]
    cases tagEnd with
    | missing => exact absurd rfl hend
    | opens => rfl
    | empty => rfl
  · simp
  all_goals
    intro rest hsame
    rw [(List.cons.inj hsame).1] at hstart
    exact absurd hstart (by decide)

end

/-! ## Written elements -/

theorem apart_nil : Apart [] := by
  intro text rest h
  cases h

theorem apart_element (tag : Tag) (children nodes : List Node) :
    Apart (.element tag children :: nodes) := by
  intro text rest h
  cases h

namespace Markup

theorem exists_node (around : Scope) (depth : Nat) (markup : Markup) :
    ∃ tag children, markup.node around depth = .element tag children := by
  obtain ⟨name, attributes, text, children⟩ := markup
  exact ⟨_, _, rfl⟩

theorem exists_tagged (depth : Nat) (markup : Markup) :
    ∃ rest, markup.tagged depth = '<' :: rest := by
  obtain ⟨name, attributes, text, children⟩ := markup
  exact ⟨_, rfl⟩

theorem apart_nodes (around : Scope) (depth : Nat) (newLine : Bool) {children : List Markup}
    (h : children ≠ []) (before : List Node) :
    Apart ((nodes around depth newLine children).reverse ++ before) := by
  induction children generalizing newLine before with
  | nil => exact absurd rfl h
  | cons child rest ih =>
      rw [nodes, List.reverse_append, List.reverse_cons, List.append_assoc, List.append_assoc]
      cases rest with
      | nil =>
          obtain ⟨tag, below, hnode⟩ := child.exists_node around depth
          rw [hnode]
          exact apart_element tag below _
      | cons other rest => exact ih true (by simp) _

def ReadsAll (reading : Reading) (depth : Nat) (newLine : Bool) (children : List Markup) : Prop :=
  ∀ (frame : Frame) (before : List Node) (fuel opened : Nat) (rest : List Char),
    (newLine = true → Apart before) →
    ((writeAll depth newLine children).toList ++ rest).length ≤ fuel →
    ∃ left, rest.length ≤ left ∧
      readContent reading fuel opened true (frame.holding before)
          ((writeAll depth newLine children).toList ++ rest) =
        readContent reading left opened true
          (frame.holding ((nodes frame.tag.scope depth newLine children).reverse ++ before)) rest

section

variable {reading : Reading} (hlevels : reading.levels = entityLevels)
include hlevels

theorem readContent_ownText {text : Option String} (htext : ∀ own ∈ text, IsStableText own)
    (frame : Frame) {fuel : Nat} (opened : Nat) {tail : List Char}
    (htail : text.isNone = false → ∃ rest, tail = '<' :: rest)
    (hfuel : ((textOf text).toList ++ tail).length ≤ fuel) :
    ∃ left, tail.length ≤ left ∧
      readContent reading fuel opened true (frame.holding []) ((textOf text).toList ++ tail) =
        readContent reading left opened true (frame.holding (textNodes (text.getD "")).reverse)
          tail := by
  cases text with
  | none => exact ⟨fuel, hfuel, rfl⟩
  | some own =>
      obtain ⟨rest, rfl⟩ := htail rfl
      by_cases hempty : own = ""
      · subst hempty
        exact ⟨fuel, hfuel, rfl⟩
      · obtain ⟨c, others, hsome⟩ := exists_of_escaped hempty
        rw [textOf, toList_escaped] at hfuel ⊢
        rw [hsome] at hfuel
        simp only [List.length_append, List.length_cons] at hfuel
        obtain ⟨left, rfl⟩ : ∃ left, fuel = left + 1 := ⟨fuel - 1, by omega⟩
        refine ⟨left, by rw [List.length_cons]; omega, ?_⟩
        rw [readContent_text hlevels frame (htext own rfl) hempty apart_nil]
        simp [textNodes, hempty]

theorem readContent_ownLine (depth : Nat) (children : List Markup) (frame : Frame)
    {before : List Node} (hbefore : children ≠ [] → Apart before) {fuel : Nat} (opened : Nat)
    (rest : List Char)
    (hfuel : ((if children.isEmpty then [] else (lineAt depth).toList) ++ '<' :: rest).length ≤
      fuel) :
    ∃ left, rest.length < left ∧
      readContent reading fuel opened true (frame.holding before)
          ((if children.isEmpty then [] else (lineAt depth).toList) ++ '<' :: rest) =
        readContent reading left opened true
          (frame.holding ((lineNodes depth children).reverse ++ before)) ('<' :: rest) := by
  cases children with
  | nil => exact ⟨fuel, hfuel, rfl⟩
  | cons child others =>
      simp only [List.isEmpty_cons, Bool.false_eq_true, if_false, lineAt, String.toList_ofList,
        List.length_append, List.length_cons] at hfuel
      obtain ⟨left, rfl⟩ : ∃ left, fuel = left + 1 := ⟨fuel - 1, by omega⟩
      exact ⟨left, by omega,
        readContent_line hlevels frame (hbefore (by simp)) left opened depth rest⟩

theorem readContent_inner {depth : Nat} {text : Option String} {children : List Markup}
    (htext : ∀ own ∈ text, IsStableText own)
    (hchildren : ReadsAll reading (depth + 1) text.isNone children) (frame : Frame)
    {fuel : Nat} (opened : Nat) (rest : List Char)
    (hfuel : (inner depth text children ++ '<' :: rest).length ≤ fuel) :
    ∃ left, rest.length < left ∧
      readContent reading fuel opened true (frame.holding [])
          (inner depth text children ++ '<' :: rest) =
        readContent reading left opened true
          (frame.holding (textNodes (text.getD "") ++
            nodes frame.tag.scope (depth + 1) text.isNone children ++
            lineNodes depth children).reverse) ('<' :: rest) := by
  obtain ⟨line, hline⟩ : ∃ line, (if children.isEmpty then [] else (lineAt depth).toList) = line :=
    ⟨_, rfl⟩
  rw [inner, hline, List.append_assoc, List.append_assoc] at hfuel ⊢
  -- The text is read first, then the elements, and then the line before the end tag.
  have htail : text.isNone = false → ∃ after,
      (writeAll (depth + 1) text.isNone children).toList ++ (line ++ '<' :: rest) =
        '<' :: after := by
    intro hsome
    rw [hsome]
    cases children with
    | nil =>
        subst hline
        exact ⟨rest, rfl⟩
    | cons child others =>
        obtain ⟨after, hafter⟩ := child.exists_tagged (depth + 1)
        rw [toList_writeAll_cons, hafter]
        exact ⟨_, rfl⟩
  obtain ⟨left, hleft, htextRead⟩ := readContent_ownText hlevels htext frame opened htail hfuel
  have hapart : text.isNone = true → Apart (textNodes (text.getD "")).reverse := by
    intro hnone
    rw [Option.isNone_iff_eq_none.mp hnone]
    exact apart_nil
  obtain ⟨more, hmore, hchildrenRead⟩ := hchildren frame _ left opened _ hapart hleft
  have hready := fun hsome => apart_nodes frame.tag.scope (depth + 1) text.isNone
    (show children ≠ [] from hsome) (textNodes (text.getD "")).reverse
  rw [← hline] at hmore
  obtain ⟨last, hlast, hlineRead⟩ :=
    readContent_ownLine hlevels depth children frame hready opened rest hmore
  rw [hline] at hlineRead
  refine ⟨last, hlast, ?_⟩
  rw [htextRead, hchildrenRead, hlineRead, List.reverse_append, List.reverse_append]

mutual
/-- A written element is read as its node, whatever follows it. -/
theorem readContent_tagged (markup : Markup) (h : markup.Stable) (frame : Frame)
    (before : List Node) (fuel opened depth : Nat) (rest : List Char)
    (hfuel : (markup.tagged depth ++ rest).length ≤ fuel) :
    ∃ left, rest.length ≤ left ∧
      readContent reading fuel opened true (frame.holding before) (markup.tagged depth ++ rest) =
        readContent reading left opened true
          (frame.holding (markup.node frame.tag.scope depth :: before)) rest := by
  obtain ⟨name, attributes, text, children⟩ := markup
  obtain ⟨hname, hattributes, htext, hstable⟩ := h
  rw [tagged, List.cons_append, List.append_assoc, List.append_assoc] at hfuel ⊢
  obtain ⟨left, rfl⟩ : ∃ left, fuel = left + 1 :=
    ⟨fuel - 1, by rw [List.length_cons] at hfuel; omega⟩
  simp only [List.length_cons, List.length_append] at hfuel
  by_cases hempty : (text.isNone && children.isEmpty) = true
  · rw [if_pos hempty] at hfuel ⊢
    rw [readContent_tag hlevels frame hname hattributes (by decide), if_neg (by decide)]
    simp only [Bool.and_eq_true, Option.isNone_iff_eq_none, List.isEmpty_iff] at hempty
    obtain ⟨rfl, rfl⟩ := hempty
    exact ⟨left, by omega, rfl⟩
  · rw [if_neg hempty] at hfuel ⊢
    have hall := readsAll children hstable (depth + 1) text.isNone
    simp only [List.length_cons, List.length_append] at hfuel
    have hleft : (inner depth text children ++ '<' :: '/' :: (name.toList ++ '>' :: rest)).length ≤
        left := by
      simp only [List.length_cons, List.length_append, List.length_nil] at hfuel ⊢
      omega
    have htag : isNCName (readTagOf frame.tag.scope name attributes).name = true := hname
    obtain ⟨more, hmore, hinner⟩ := readContent_inner hlevels htext hall
      (frame.below before (readTagOf frame.tag.scope name attributes)) (opened + 1) _ hleft
    obtain ⟨last, rfl⟩ : ∃ last, more = last + 1 := ⟨more - 1, by omega⟩
    refine ⟨last, ?_, ?_⟩
    · simp only [List.length_cons, List.length_append] at hmore
      omega
    · simp only [List.append_assoc, List.cons_append, List.nil_append]
      rw [readContent_tag hlevels frame hname hattributes (by decide), if_pos rfl, hinner]
      refine (readContent_close frame before htag last opened rest).trans ?_
      rw [List.reverse_reverse]
      rfl

theorem readsAll (children : List Markup) (h : AllStable children) (depth : Nat)
    (newLine : Bool) : ReadsAll reading depth newLine children := by
  cases children with
  | nil => exact fun frame before fuel opened rest _ hfuel => ⟨fuel, hfuel, rfl⟩
  | cons child others =>
      intro frame before fuel opened rest hapart hfuel
      rw [toList_writeAll_cons, List.append_assoc, List.append_assoc] at hfuel ⊢
      obtain ⟨written, hwritten⟩ := child.exists_tagged depth
      obtain ⟨left, hleft, hline⟩ : ∃ left,
          (child.tagged depth ++ ((writeAll depth true others).toList ++ rest)).length ≤ left ∧
          readContent reading fuel opened true (frame.holding before)
              ((if newLine then (lineAt depth).toList else []) ++
                (child.tagged depth ++ ((writeAll depth true others).toList ++ rest))) =
            readContent reading left opened true
              (frame.holding ((if newLine then [.text (lineAt depth)] else []) ++ before))
              (child.tagged depth ++ ((writeAll depth true others).toList ++ rest)) := by
        cases newLine with
        | false => exact ⟨fuel, hfuel, rfl⟩
        | true =>
            rw [if_pos rfl, List.length_append, lineAt, String.toList_ofList,
              List.length_cons] at hfuel
            obtain ⟨left, rfl⟩ : ∃ left, fuel = left + 1 := ⟨fuel - 1, by omega⟩
            refine ⟨left, by omega, ?_⟩
            rw [if_pos rfl, hwritten, List.cons_append,
              readContent_line hlevels frame (hapart rfl)]
            rfl
      obtain ⟨more, hmore, hchild⟩ := readContent_tagged child h.1 frame _ left opened depth _ hleft
      obtain ⟨tag, below, hnode⟩ := child.exists_node frame.tag.scope depth
      obtain ⟨last, hlast, hothers⟩ := readsAll others h.2 depth true frame _ more opened rest
        (fun _ => hnode ▸ apart_element tag below _) hmore
      refine ⟨last, hlast, ?_⟩
      rw [hline, hchild, hothers, nodes]
      cases newLine <;> simp
end

end

/-! ## Documents -/

theorem skipDeclaration_written (rest : List Char) :
    skipDeclaration (declaration.toList ++ rest) = .ok rest := by
  have hchars : declaration.toList = ['<', '?', 'x', 'm', 'l', ' ', 'v', 'e', 'r', 's', 'i', 'o',
      'n', '=', '"', '1', '.', '0', '"', ' ', 'e', 'n', 'c', 'o', 'd', 'i', 'n', 'g', '=', '"',
      'U', 'T', 'F', '-', '8', '"', '?', '>'] := by decide +kernel
  rw [hchars]
  rfl

theorem startsWith_tag {mark : String} {c first : Char} {more : List Char}
    (hmark : mark.toList = '<' :: c :: more) (hc : isNameStart c = false)
    (hfirst : isNameStart first = true) (rest : List Char) :
    startsWith mark ('<' :: first :: rest) = false := by
  have hne : c ≠ first := by
    rintro rfl
    rw [hfirst] at hc
    cases hc
  simp [startsWith, hmark, List.isPrefixOf, hne]

theorem skipMisc_written {markup : Markup} (h : markup.Stable) (fuel : Nat) :
    skipMisc (fuel + 1) (write 0 true markup).toList = .ok (markup.tagged 0) ∧
      startsWith "<!DOCTYPE" (markup.tagged 0) = false := by
  obtain ⟨name, attributes, text, children⟩ := markup
  obtain ⟨first, others, hname, hfirst, -⟩ := exists_of_isNCName h.1
  obtain ⟨rest, hrest⟩ : ∃ rest,
      (Markup.element name attributes text children).tagged 0 = '<' :: first :: rest := by
    rw [tagged, hname]
    exact ⟨_, rfl⟩
  have hline : (lineAt 0).toList = ['\n'] := by decide +kernel
  have hskip : skipSpaces ('\n' :: '<' :: first :: rest) = '<' :: first :: rest := by
    rw [skipSpaces, List.dropWhile_cons_of_pos (by decide)]
    exact skipSpaces_cons (by decide) _
  have hcomment := startsWith_tag (show "<!--".toList = ['<', '!', '-', '-'] by decide +kernel)
    (by decide) hfirst rest
  have hinstruction := startsWith_tag (show "<?".toList = ['<', '?'] by decide +kernel)
    (by decide) hfirst rest
  have hdoctype := startsWith_tag (show "<!DOCTYPE".toList =
    ['<', '!', 'D', 'O', 'C', 'T', 'Y', 'P', 'E'] by decide +kernel) (by decide) hfirst rest
  rw [toList_write, if_pos rfl, hline, hrest, List.singleton_append]
  refine ⟨?_, hdoctype⟩
  simp only [skipMisc, hskip, hcomment, hinstruction, Bool.false_eq_true, if_false]

theorem readProlog_written {markup : Markup} (h : markup.Stable) (allowDoctype : Bool) :
    readProlog allowDoctype (document markup).toList = .ok ([], markup.tagged 0) := by
  have hmark : skipByteOrderMark (declaration.toList ++ (write 0 true markup).toList) =
      declaration.toList ++ (write 0 true markup).toList := by
    rw [show declaration.toList = '<' :: declaration.toList.tail from by decide +kernel]
    rfl
  obtain ⟨hskip, hdoctype⟩ := skipMisc_written h (write 0 true markup).toList.length
  rw [document, String.toList_append, readProlog, hmark, skipDeclaration_written]
  simp only [bind, Except.bind, hskip, hdoctype, Bool.false_eq_true, if_false, pure, Except.pure]

theorem readRoot_written {markup : Markup} (h : markup.Stable) :
    readRoot [] (markup.tagged 0) = .ok (⟨⟨[], [markup.node [] 0], .nothing, false⟩, 0⟩, []) := by
  obtain ⟨name, attributes, text, children⟩ := markup
  obtain ⟨hname, hattributes, htext, hstable⟩ := h
  have hlevels : (readingAt [] entityLevels).levels = entityLevels := rfl
  have hread := fun (tagEnd : TagEnd) (hend : tagEnd ≠ .missing) rest =>
    readTag_written hlevels hname hattributes hend
      (show (⟨Outline.empty, 0⟩ : Progress).outline.gathered = .nothing from rfl) rest
  rw [tagged, readRoot]
  by_cases hempty : (text.isNone && children.isEmpty) = true
  · have htag := hread .empty (by decide) []
    rw [List.append_nil] at htag
    rw [if_pos hempty]
    simp only [htag, bind, Except.bind, pure, Except.pure]
    simp only [Bool.and_eq_true, Option.isNone_iff_eq_none, List.isEmpty_iff] at hempty
    obtain ⟨rfl, rfl⟩ := hempty
    rfl
  · have hall := readsAll hlevels children hstable 1 text.isNone
    have htag : isNCName (readTagOf [] name attributes).name = true := hname
    obtain ⟨left, hleft, hinner⟩ := readContent_inner hlevels htext hall
      ⟨[], [], 0, readTagOf [] name attributes⟩ 0 ('/' :: (name.toList ++ ['>'])) (Nat.le_refl _)
    obtain ⟨left, rfl⟩ : ∃ fuel, left = fuel + 1 := ⟨left - 1, by omega⟩
    rw [if_neg hempty]
    simp only [hread .opens (by decide), bind, Except.bind]
    refine hinner.trans ((readContent_closeRoot htag _ left []).trans ?_)
    rw [List.reverse_reverse]
    rfl

/-- A written document is read as the element that was written. -/
theorem read_document {markup : Markup} (h : markup.Stable) (allowDoctype : Bool) :
    ∃ element, markup.node [] 0 = element.node ∧
      Document.read allowDoctype (document markup) = .ok (Document.ofRoots element []) := by
  obtain ⟨tag, children, hnode⟩ := markup.exists_node [] 0
  refine ⟨⟨tag, children⟩, hnode, ?_⟩
  have hroot := readRoot_written h
  rw [hnode] at hroot
  rw [Document.read, readProlog_written h]
  simp only [bind, Except.bind, hroot]
  rfl

/-! ## Elements of a document that has been read -/

inductive ReadAs : Markup → Element → Prop
  | intro {name : String} {attributes : List (String × String)} {text : Option String}
      {children : List Markup} {element : Element} :
      element.name = name →
      element.tag.attributes = readAttributes attributes →
      (children = [] → element.text = text.getD "") →
      List.Forall₂ ReadAs children element.elements →
      ReadAs (.element name attributes text children) element

theorem numberedAll_append (parent : Option Nat) (next : Nat) (first second : List Node) :
    (numberedAll parent next (first ++ second)).1 =
      (numberedAll parent next first).1 ++
        (numberedAll parent (numberedAll parent next first).2 second).1 := by
  induction first generalizing next with
  | nil => rfl
  | cons node rest ih => simp only [List.cons_append, numberedAll, ih]

theorem numberedAll_textNodes (parent : Option Nat) (next : Nat) (text : String) :
    (numberedAll parent next (textNodes text)).1 = textNodes text := by
  unfold textNodes
  split <;> rfl

theorem elements_textNodes (text : String) :
    (textNodes text).filterMap Node.element? = [] := by
  unfold textNodes
  split <;> rfl

theorem elements_lineNodes (parent : Option Nat) (next depth : Nat) (children : List Markup) :
    (numberedAll parent next (lineNodes depth children)).1.filterMap Node.element? = [] := by
  unfold lineNodes
  split <;> rfl

theorem join_textNodes (text : String) :
    String.join ((textNodes text).filterMap Node.text?) = text := by
  unfold textNodes
  split
  · rename_i hempty
    exact hempty.symm
  · simp [Node.text?, String.join]

def ReadUnder (around : Scope) (depth : Nat) (markup : Markup) (element : Element) : Prop :=
  ∃ parent next, ((markup.node around depth).numbered parent next).1 = element.node

theorem readUnder_numberedAll (children : List Markup) (around : Scope) (depth : Nat)
    (newLine : Bool) (parent : Option Nat) (next : Nat) :
    List.Forall₂ (ReadUnder around depth) children
      ((numberedAll parent next (nodes around depth newLine children)).1.filterMap
        Node.element?) := by
  induction children generalizing newLine next with
  | nil => exact .nil
  | cons child rest ih =>
      have hline : (numberedAll parent next
          (if newLine then [Node.text (lineAt depth)] else [])).1.filterMap Node.element? = [] := by
        cases newLine <;> rfl
      rw [nodes, numberedAll_append, List.filterMap_append, hline, List.nil_append]
      obtain ⟨tag, below, hnode⟩ := child.exists_node around depth
      rw [hnode]
      exact .cons ⟨parent, _, congrArg (fun node => (Node.numbered parent _ node).1) hnode⟩
        (ih true _)

theorem ReadUnder.cases {around : Scope} {depth : Nat} {name : String}
    {attributes : List (String × String)} {text : Option String} {children : List Markup}
    {element : Element}
    (h : ReadUnder around depth (.element name attributes text children) element) :
    element.name = name ∧ element.tag.attributes = readAttributes attributes ∧
      element.tag.scope = around.extend (declaredBy attributes) ∧
      (children = [] → element.text = text.getD "") ∧
      List.Forall₂ (ReadUnder (around.extend (declaredBy attributes)) (depth + 1)) children
        element.elements := by
  obtain ⟨parent, next, hnode⟩ := h
  obtain ⟨tag, below⟩ := element
  obtain ⟨rfl, rfl⟩ := Node.element.inj hnode
  refine ⟨rfl, rfl, rfl, ?_, ?_⟩
  · rintro rfl
    rw [Element.text, nodes, lineNodes, List.isEmpty_nil, if_pos rfl, List.append_nil,
      List.append_nil, numberedAll_textNodes, join_textNodes]
  · rw [Element.elements, numberedAll_append, numberedAll_append, List.filterMap_append,
      List.filterMap_append, numberedAll_textNodes, elements_textNodes, elements_lineNodes,
      List.nil_append, List.append_nil]
    exact readUnder_numberedAll children _ _ _ _ _

theorem ReadUnder.readAs {markup : Markup} {around : Scope} {depth : Nat} {element : Element}
    (h : markup.ReadUnder around depth element) : markup.ReadAs element := by
  induction markup using Markup.inChildren generalizing around depth element with
  | element name attributes text children ih =>
      obtain ⟨hname, hattributes, -, htext, helements⟩ := h.cases
      have hchild : ∀ child ∈ children, ∀ element,
          child.ReadUnder (around.extend (declaredBy attributes)) (depth + 1) element →
            child.ReadAs element := fun child hin element h => ih child hin h
      exact .intro hname hattributes htext
        (((List.forall₂_and_left _ _).mpr ⟨hchild, helements⟩).imp
          fun child element h => h.1 element h.2)

/-- A written document is read again, with one root, which is the element that was written. -/
theorem exists_readUnder {markup : Markup} (h : markup.Stable) (allowDoctype : Bool) :
    ∃ document, Document.read allowDoctype markup.document = .ok document ∧
      document.others = [] ∧ markup.ReadUnder [] 0 document.root := by
  obtain ⟨element, hnode, hread⟩ := read_document h allowDoctype
  exact ⟨_, hread, rfl, none, 0, by rw [hnode]; rfl⟩

theorem exists_readAs {markup : Markup} (h : markup.Stable) (allowDoctype : Bool) :
    ∃ document, Document.read allowDoctype markup.document = .ok document ∧
      document.others = [] ∧ markup.ReadAs document.root := by
  obtain ⟨document, hread, hothers, hroot⟩ := exists_readUnder h allowDoctype
  exact ⟨document, hread, hothers, hroot.readAs⟩

end Markup

end SchemaForms.Xml
