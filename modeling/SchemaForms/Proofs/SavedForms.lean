import SchemaForms.Compile.Request
import SchemaForms.Proofs.ReadMarkup
import SchemaForms.Proofs.WrittenWords

/-!
# Saved forms

What is written for a form is read as one document with the elements, the
attributes and the values of the form. The names must be names without colons.
The values must be stable: the writer escapes the five special characters only, and
the reader changes carriage returns that are written as they are, and in attributes all
blanks but spaces.
-/

namespace SchemaForms

open Xml (Markup)

namespace Form

/-- The element has the name, the attributes, the text and the elements that are written
for the node. Declarations of namespaces are no attributes, and text around elements does
not matter. -/
inductive ReadBack : Form → Xml.Element → Prop
  | intro {form : Form} {element : Xml.Element} :
      element.name = form.label.tag →
      element.tag.attributes = form.writtenAttributes.map
        (fun written => ⟨none, written.1, written.2⟩) →
      (form.content = [] → element.text = form.label.value.getD "") →
      List.Forall₂ ReadBack form.content element.elements → ReadBack form element

theorem ReadBack.text {form : Form} {element : Xml.Element} (h : form.ReadBack element)
    (hcontent : form.content = []) : element.text = form.label.value.getD "" := by
  cases h with
  | intro _ _ htext _ => exact htext hcontent

/-! ## Names and values -/

/-- The names that are written for the node have no colon, and no attribute is written
twice or as a declaration. -/
structure HasPlainNames (form : Form) : Prop where
  tag : Xml.isNCName form.label.tag = true
  attributes : ∀ written ∈ form.writtenAttributes,
    Xml.isNCName written.1 = true ∧ written.1 ≠ "xmlns"
  nodup : (form.writtenAttributes.map Prod.fst).Nodup

/-- The values that are written for the node are stable. So is its namespace, which is
none of the reserved ones. -/
structure HasStableValues (form : Form) : Prop where
  text : ∀ value ∈ form.label.value, Xml.IsStableText value
  attributes : ∀ written ∈ form.writtenAttributes, Xml.IsStableValue written.2
  space : ∀ space ∈ form.label.space,
    Xml.IsStableValue space ∧ space ≠ Xml.xmlNamespace ∧ space ≠ Xml.xmlnsNamespace

instance (form : Form) : Decidable form.HasPlainNames :=
  decidable_of_iff (Xml.isNCName form.label.tag = true ∧
      (∀ written ∈ form.writtenAttributes, Xml.isNCName written.1 = true ∧ written.1 ≠ "xmlns") ∧
      (form.writtenAttributes.map Prod.fst).Nodup)
    ⟨fun h => ⟨h.1, h.2.1, h.2.2⟩, fun h => ⟨h.tag, h.attributes, h.nodup⟩⟩

instance (form : Form) : Decidable form.HasStableValues :=
  decidable_of_iff ((∀ value ∈ form.label.value, Xml.IsStableText value) ∧
      (∀ written ∈ form.writtenAttributes, Xml.IsStableValue written.2) ∧
      ∀ space ∈ form.label.space,
        Xml.IsStableValue space ∧ space ≠ Xml.xmlNamespace ∧ space ≠ Xml.xmlnsNamespace)
    ⟨fun h => ⟨h.1, h.2.1, h.2.2⟩, fun h => ⟨h.text, h.attributes, h.space⟩⟩

theorem Writes.of_child {form child node : Form} (hchild : child ∈ form.content)
    (h : child.Writes node) : form.Writes node := by
  induction h with
  | root => exact .content .root hchild
  | content _ hin ih => exact .content ih hin

/-! ## What is written can be read -/

theorem of_mem_namespaceDeclaration {around own : Option String} {written : String × String}
    (h : written ∈ namespaceDeclaration around own) : written = ("xmlns", own.getD "") := by
  unfold namespaceDeclaration at h
  split at h
  · cases h
  · exact List.mem_singleton.mp h

theorem stableAttributes {form : Form} (hnames : form.HasPlainNames)
    (hvalues : form.HasStableValues) (around : Option String) :
    Xml.StableAttributes
      (namespaceDeclaration around form.label.space ++ form.writtenAttributes) := by
  have hspace : Xml.IsStableValue (form.label.space.getD "") ∧
      form.label.space.getD "" ≠ Xml.xmlNamespace ∧
      form.label.space.getD "" ≠ Xml.xmlnsNamespace := by
    cases hown : form.label.space with
    | none => decide +kernel
    | some space => exact hvalues.space space hown
  have hxmlns : Xml.isNCName "xmlns" = true := by decide +kernel
  refine ⟨?_, ?_, ?_, ?_⟩
  · rw [List.forall_mem_append]
    refine ⟨fun written hwritten => ?_, fun written hwritten => (hnames.attributes _ hwritten).1⟩
    rw [of_mem_namespaceDeclaration hwritten]
    exact hxmlns
  · rw [List.forall_mem_append]
    refine ⟨fun written hwritten => ?_, hvalues.attributes⟩
    rw [of_mem_namespaceDeclaration hwritten]
    exact hspace.1
  · rw [List.forall_mem_append]
    refine ⟨fun written hwritten _ => ?_, fun written hwritten hxmlns => ?_⟩
    · rw [of_mem_namespaceDeclaration hwritten]
      exact hspace.2
    · exact absurd hxmlns (hnames.attributes _ hwritten).2
  · rw [List.map_append, List.nodup_append]
    refine ⟨?_, hnames.nodup, ?_⟩
    · unfold namespaceDeclaration
      split <;> simp
    · simp only [List.mem_map]
      rintro _ ⟨declared, hdeclared, rfl⟩ _ ⟨written, hwritten, rfl⟩ hsame
      rw [of_mem_namespaceDeclaration hdeclared] at hsame
      exact (hnames.attributes _ hwritten).2 hsame.symm

theorem readAttributes_written {form : Form} (hnames : form.HasPlainNames)
    (around : Option String) :
    Xml.readAttributes (namespaceDeclaration around form.label.space ++ form.writtenAttributes) =
      form.writtenAttributes.map fun written => ⟨none, written.1, written.2⟩ := by
  have hdeclared : (namespaceDeclaration around form.label.space).filter (·.1 != "xmlns") = [] := by
    rw [List.filter_eq_nil_iff]
    intro written hwritten
    rw [of_mem_namespaceDeclaration hwritten]
    simp
  have hattributes : form.writtenAttributes.filter (·.1 != "xmlns") = form.writtenAttributes := by
    rw [List.filter_eq_self]
    intro written hwritten
    simpa using (hnames.attributes written hwritten).2
  rw [Xml.readAttributes, List.filter_append, hdeclared, hattributes, List.nil_append]

section

variable {form : Form} (hnames : ∀ node, form.Writes node → node.HasPlainNames)
include hnames

/-- With levels for all the nodes below, what is written for a node is stable. -/
theorem markupWithin_stable {levels : Nat} (hsize : form.size ≤ levels)
    (hvalues : ∀ node, form.Writes node → node.HasStableValues) (around : Option String) :
    (form.markupWithin levels around).Stable := by
  induction levels generalizing form around with
  | zero => exact absurd hsize (Nat.not_le_of_lt form.size_pos)
  | succ levels ih =>
      have hown := hnames form .root
      have hstable := hvalues form .root
      refine ⟨hown.tag, stableAttributes hown hstable around, hstable.text, ?_⟩
      rw [Xml.Markup.allStable_iff, List.forall_mem_map]
      intro child hin
      exact ih (fun node hnode => hnames node (hnode.of_child hin))
        (Nat.le_of_lt_succ (Nat.lt_of_lt_of_le (size_lt_of_mem_content hin) hsize))
        (fun node hnode => hvalues node (hnode.of_child hin)) form.label.space

theorem readBack_of_readAs {levels : Nat} (hsize : form.size ≤ levels) {around : Option String}
    {element : Xml.Element} (h : (form.markupWithin levels around).ReadAs element) :
    form.ReadBack element := by
  induction levels generalizing form around element with
  | zero => exact absurd hsize (Nat.not_le_of_lt form.size_pos)
  | succ levels ih =>
      have hchild : ∀ child ∈ form.content, ∀ element,
          (child.markupWithin levels form.label.space).ReadAs element → child.ReadBack element :=
        fun child hin element h => ih (fun node hnode => hnames node (hnode.of_child hin))
          (Nat.le_of_lt_succ (Nat.lt_of_lt_of_le (size_lt_of_mem_content hin) hsize)) h
      cases h with
      | intro hname hattributes htext helements =>
          rw [List.forall₂_map_left_iff] at helements
          refine .intro hname
            (hattributes.trans (readAttributes_written (hnames form .root) around))
            (fun hnone => htext (by rw [hnone]; rfl)) ?_
          exact ((List.forall₂_and_left _ _).mpr ⟨hchild, helements⟩).imp
            fun child element h => h.1 element h.2

end

/-- A saved form is read again, as a document of one root that has all that the form has. -/
theorem exists_readBack (form : Form)
    (hnames : ∀ node, form.Writes node → node.HasPlainNames)
    (hvalues : ∀ node, form.Writes node → node.HasStableValues) (allowDoctype : Bool) :
    ∃ document, Xml.Document.read allowDoctype form.toXml = .ok document ∧
      document.others = [] ∧ form.ReadBack document.root := by
  have hstable : form.markup.Stable := markupWithin_stable hnames (Nat.le_refl _) hvalues none
  obtain ⟨document, hread, hothers, hroot⟩ := Xml.Markup.exists_readAs hstable allowDoctype
  exact ⟨document, hread, hothers, readBack_of_readAs hnames (Nat.le_refl _) hroot⟩

def allWritten (check : Form → Bool) : Nat → Form → Bool
  | 0, _ => false
  | levels + 1, form => check form && form.content.all (allWritten check levels)

theorem of_allWritten {check : Form → Bool} {levels : Nat} {form node : Form}
    (h : allWritten check levels form = true) (hnode : form.Writes node) : check node = true := by
  have hbelow : ∃ levels, allWritten check levels node = true := by
    induction hnode with
    | root => exact ⟨levels, h⟩
    | content _ hchild ih =>
        obtain ⟨levels, hlevels⟩ := ih
        cases levels with
        | zero => cases hlevels
        | succ levels =>
            rw [allWritten, Bool.and_eq_true, List.all_eq_true] at hlevels
            exact ⟨levels, hlevels.2 _ hchild⟩
  obtain ⟨levels, hlevels⟩ := hbelow
  cases levels with
  | zero => cases hlevels
  | succ levels =>
      rw [allWritten, Bool.and_eq_true] at hlevels
      exact hlevels.1

end Form

def letterDocument : Xml.Document :=
  .ofRoots (.plain "schema" [("targetNamespace", "urn:letters")] [
    .plain "element" [("name", "letter")] [
      .plain "complexType" [] [
        .plain "sequence" [] [
          .plain "element" [("name", "greeting"), ("default", "Tom & Ann,\n<hello>")] [],
          .plain "element" [("name", "body")] []],
        .plain "attribute" [("name", "from"), ("default", "\"me\"")] []]]]) []

theorem freshLetter_readBack :
    ∃ forms document, compileForm (Schema.given letterDocument) .default none none = .ok forms ∧
      forms.root.content.map (·.label.value) = [some "Tom & Ann,\n<hello>", none] ∧
      forms.root.writtenAttributes = [("from", "\"me\"")] ∧
      Xml.Document.read false forms.root.toXml = .ok document ∧
      document.others = [] ∧ forms.root.ReadBack document.root := by
  have hchecked : (compileForm (Schema.given letterDocument) .default none none).toOption.any
      (fun forms => forms.root.content.map (·.label.value) == [some "Tom & Ann,\n<hello>", none] &&
        forms.root.writtenAttributes == [("from", "\"me\"")] &&
        forms.root.allWritten
          (fun node => decide node.HasPlainNames && decide node.HasStableValues) 2) = true := by
    decide +kernel
  obtain ⟨forms, hforms, hchecked⟩ := exists_of_checked hchecked
  simp only [Bool.and_eq_true, beq_iff_eq] at hchecked
  obtain ⟨⟨hvalues, hattributes⟩, hwritten⟩ := hchecked
  have hnodes : ∀ node, forms.root.Writes node → node.HasPlainNames ∧ node.HasStableValues := by
    intro node hnode
    have hnode := Form.of_allWritten hwritten hnode
    simpa using hnode
  obtain ⟨document, hread, hothers, hroot⟩ := forms.root.exists_readBack
    (fun node hnode => (hnodes node hnode).1) (fun node hnode => (hnodes node hnode).2) false
  exact ⟨forms, document, hforms, hvalues, hattributes, hread, hothers, hroot⟩

def noteDocument : Xml.Document :=
  .ofRoots (.plain "schema" [] [.plain "element" [("name", "note"), ("default", "a\rb")] []]) []

/-- A fresh note is written with a carriage return and read with a line feed in its place. -/
theorem freshNote_notReadBack :
    ∃ forms document, compileForm (Schema.given noteDocument) .default none none = .ok forms ∧
      (∀ node, forms.root.Writes node → node.HasPlainNames) ∧
      Xml.Document.read false forms.root.toXml = .ok document ∧
      forms.root.label.value = some "a\rb" ∧ document.root.text = "a\nb" ∧
      ¬ forms.root.ReadBack document.root := by
  have hchecked : (compileForm (Schema.given noteDocument) .default none none).toOption.any
      (fun forms => forms.root.allWritten (fun node => decide node.HasPlainNames) 1 &&
        forms.root.content.isEmpty && forms.root.label.value == some "a\rb" &&
        (Xml.Document.read false forms.root.toXml).toOption.any
          (fun document => document.root.text == "a\nb")) = true := by
    decide +kernel
  obtain ⟨forms, hforms, hchecked⟩ := exists_of_checked hchecked
  simp only [Bool.and_eq_true, beq_iff_eq, List.isEmpty_iff] at hchecked
  obtain ⟨⟨⟨hwritten, hcontent⟩, hvalue⟩, hread⟩ := hchecked
  obtain ⟨document, hread, htext⟩ := exists_of_checked hread
  rw [beq_iff_eq] at htext
  refine ⟨forms, document, hforms, fun node hnode => ?_, hread, hvalue, htext, fun hback => ?_⟩
  · simpa using Form.of_allWritten hwritten hnode
  · have hsame := hback.text hcontent
    rw [htext, hvalue] at hsame
    exact absurd hsame (by decide +kernel)

end SchemaForms
