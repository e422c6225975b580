import SchemaForms.Proofs.KeptNodes
import SchemaForms.Proofs.Selections

/-!
# The shape of nodes

What a reader of a form can rely on at every node. Elements, sequences and choices have a
range of occurrences, attributes a use; sequences and choices have no value and attributes
no children, and of elements only those with text have a value. A message about an instance
stands only where there was one, and never at an attribute.
-/

namespace SchemaForms

/-- The shape of a node with that label and so many children, that was compiled with an
instance if `editing` is true. -/
structure FormLabel.Shaped (schema : Schema) (editing : Bool) (label : FormLabel)
    (childCount : Nat) : Prop where
  bounds : label.kind ≠ .attributeUse →
    ∃ min : Int, label.options.get? OptionKey.min = some (.int min) ∧
      (label.options.get? OptionKey.max = some (.str "unbounded") ∨
        ∃ max : Int, label.options.get? OptionKey.max = some (.int max) ∧ min ≤ max)
  sequence : label.kind = .sequence → label.tag = "sequence" ∧ label.value = none
  choice : label.kind = .choice → label.tag = "choice" ∧ label.value = none
  attributeUse : label.kind = .attributeUse → childCount = 0 ∧
    (∃ use, label.options.get? OptionKey.use = some (.str use) ∧ use ≠ "prohibited") ∧
    label.options.get? OptionKey.min = none ∧ label.options.get? OptionKey.max = none
  element : label.kind = .element → ∃ content,
    Declaration.contentType schema label.origin = .ok content ∧
      (content = .simple → childCount = 0) ∧
      (label.value ≠ none → content = .simple ∨
        ∃ definition, content = .complex definition ∧ hasSimpleContent definition = true)
  remarked : label.options.get? OptionKey.mismatch ≠ none →
    editing = true ∧ label.kind ≠ .attributeUse

/-! ## Options -/

theorem Bounds.exists_range (bounds : Bounds) :
    ∃ min : Int, Scalar.ofNat bounds.min = .int min ∧
      (Scalar.ofMaxOccurs bounds.max = .str "unbounded" ∨
        ∃ max : Int, Scalar.ofMaxOccurs bounds.max = .int max ∧ min ≤ max) := by
  refine ⟨_, rfl, ?_⟩
  cases hmax : bounds.max with
  | unbounded => exact .inl rfl
  | count max =>
      have hallows : bounds.min ≤ max := by simpa [hmax, MaxOccurs.allows] using bounds.allows_min
      exact .inr ⟨_, rfl, Int.ofNat_le.mpr (by omega)⟩

theorem get?_min_boundsOptions (bounds : Bounds) :
    (boundsOptions bounds).get? OptionKey.min = some (.ofNat bounds.min) := by
  rw [boundsOptions, Text.Dictionary.get?_insert_of_ne _ (by decide),
    Text.Dictionary.get?_insert_self]

theorem get?_max_boundsOptions (bounds : Bounds) :
    (boundsOptions bounds).get? OptionKey.max = some (.ofMaxOccurs bounds.max) :=
  Text.Dictionary.get?_insert_self _ _ _

theorem get?_declaration_options (declaration : Declaration) (bounds : Bounds) {key : String}
    (htype : key ≠ OptionKey.type) (hmodule : key ≠ OptionKey.module) :
    (declaration.options bounds).get? key = (boundsOptions bounds).get? key := by
  rw [Declaration.options, get?_withOption _ hmodule, get?_withOption _ htype]

theorem get?_mismatch_boundsOptions (bounds : Bounds) :
    (boundsOptions bounds).get? OptionKey.mismatch = none := by
  rw [boundsOptions, Text.Dictionary.get?_insert_of_ne _ (by decide),
    Text.Dictionary.get?_insert_of_ne _ (by decide), Text.Dictionary.get?_empty]

theorem get?_use_attributeOptions (use declaration : Xml.Element) :
    (attributeOptions use declaration).get? OptionKey.use = some (.str (useOf use)) := by
  simp only [attributeOptions]
  split
  · rw [Text.Dictionary.get?_insert_of_ne _ (by decide), Text.Dictionary.get?_insert_self]
  · rw [Text.Dictionary.get?_insert_self]

theorem get?_attributeOptions_of_ne (use declaration : Xml.Element) {key : String}
    (huse : key ≠ OptionKey.use) (htype : key ≠ OptionKey.type) :
    (attributeOptions use declaration).get? key = none := by
  simp only [attributeOptions]
  split
  · rw [Text.Dictionary.get?_insert_of_ne _ htype, Text.Dictionary.get?_insert_of_ne _ huse,
      Text.Dictionary.get?_empty]
  · rw [Text.Dictionary.get?_insert_of_ne _ huse, Text.Dictionary.get?_empty]

section

variable {schema : Schema} {editing : Bool} {label : FormLabel} {childCount : Nat}

theorem FormLabel.Shaped.withOptions (h : label.Shaped schema editing childCount)
    {options : Options}
    (hsame : ∀ key, key ≠ OptionKey.selected → key ≠ OptionKey.mismatch →
      options.get? key = label.options.get? key)
    (hremarked : options.get? OptionKey.mismatch ≠ none →
      editing = true ∧ label.kind ≠ .attributeUse) :
    ({ label with options := options } : FormLabel).Shaped schema editing childCount := by
  have hmin := hsame OptionKey.min (by decide) (by decide)
  have hmax := hsame OptionKey.max (by decide) (by decide)
  have huse := hsame OptionKey.use (by decide) (by decide)
  refine ⟨fun hkind => ?_, h.sequence, h.choice, fun hkind => ?_, h.element, hremarked⟩
  · rw [hmin, hmax]
    exact h.bounds hkind
  · rw [hmin, hmax, huse]
    exact h.attributeUse hkind

theorem exists_range_of_boundsOptions {options : Options} {bounds : Bounds}
    (hsame : ∀ key ∈ [OptionKey.min, OptionKey.max],
      options.get? key = (boundsOptions bounds).get? key) :
    ∃ min : Int, options.get? OptionKey.min = some (.int min) ∧
      (options.get? OptionKey.max = some (.str "unbounded") ∨
        ∃ max : Int, options.get? OptionKey.max = some (.int max) ∧ min ≤ max) := by
  rw [hsame _ (by simp), hsame _ (by simp), get?_min_boundsOptions, get?_max_boundsOptions]
  simpa only [Option.some.injEq] using bounds.exists_range

end

/-! ## The nodes that are made -/

section

variable {schema : Schema} {settings : Settings} {editing : Bool}

def Form.Shaped (schema : Schema) (editing : Bool) (form : Form) : Prop :=
  form.label.Shaped schema editing form.children.length

theorem shaped_attributeForm {use : Xml.Element} (huse : useOf use ≠ "prohibited")
    (declaration : Xml.Element) (name path : String) (occurrence : Option Xml.Element) :
    (attributeForm use declaration name path occurrence).Shaped schema editing where
  bounds hkind := absurd rfl hkind
  sequence := nofun
  choice := nofun
  attributeUse _ := ⟨rfl, ⟨useOf use, get?_use_attributeOptions use declaration, huse⟩,
    get?_attributeOptions_of_ne use declaration (by decide) (by decide),
    get?_attributeOptions_of_ne use declaration (by decide) (by decide)⟩
  element := nofun
  remarked hremarked :=
    absurd (get?_attributeOptions_of_ne use declaration (by decide) (by decide)) hremarked

theorem shaped_groupForm (compositor : Compositor) (node : Xml.Element) (bounds : Bounds)
    (path : String) (children : List Form) :
    (groupForm compositor node bounds path children).Shaped schema editing where
  bounds _ := exists_range_of_boundsOptions fun _ _ => rfl
  sequence hkind := by
    cases compositor
    · exact ⟨rfl, rfl⟩
    · cases hkind
  choice hkind := by
    cases compositor
    · cases hkind
    · exact ⟨rfl, rfl⟩
  attributeUse hkind := by cases compositor <;> cases hkind
  element hkind := by cases compositor <;> cases hkind
  remarked hremarked := absurd (get?_mismatch_boundsOptions bounds) hremarked

theorem value_of_elementContent {deeper : Option Level} {context : Context}
    {declaration : Declaration} {path : String} {occurrence : Option Xml.Element}
    {content : ComplexContent}
    (h : elementContent deeper context declaration path occurrence = .ok content) :
    (declaration.content = .simple → content.children = []) ∧
      (content.value ≠ none → declaration.content = .simple ∨
        ∃ definition, declaration.content = .complex definition ∧
          hasSimpleContent definition = true) := by
  rcases elementContent_eq_ok.mp h with ⟨hsimple, rfl⟩ |
    ⟨definition, level, children, after, hcomplex, -, -, -, rfl⟩
  · exact ⟨fun _ => simpleContent_children _ _, fun _ => .inl hsimple⟩
  · refine ⟨fun hsimple => (nomatch hcomplex.symm.trans hsimple),
      fun hvalue => .inr ⟨definition, hcomplex, ?_⟩⟩
    by_contra hplain
    refine hvalue ?_
    cases occurrence with
    | none => rfl
    | some occurrence =>
        simp only [contentValue, if_neg hplain]
        split <;> rfl

theorem shaped_elementForm {particle : Xml.Element} {declaration : Declaration}
    (hdeclaration : Declaration.ofParticle schema settings particle = .ok declaration)
    {deeper : Option Level} {context : Context} {path : String}
    {occurrence : Option Xml.Element} {content : ComplexContent}
    (h : elementContent deeper context declaration path occurrence = .ok content)
    (bounds : Bounds) :
    (elementForm declaration bounds path occurrence
      { content with mismatch := none }).Shaped schema editing where
  bounds _ := exists_range_of_boundsOptions fun key hkey =>
    get?_declaration_options declaration bounds (by rintro rfl; revert hkey; decide)
      (by rintro rfl; revert hkey; decide)
  sequence := nofun
  choice := nofun
  attributeUse := nofun
  element _ := by
    obtain ⟨hchildren, hvalue⟩ := value_of_elementContent h
    refine ⟨declaration.content, (Declaration.ofParticle_eq_ok hdeclaration).2.2.1,
      fun hsimple => ?_, hvalue⟩
    exact List.length_eq_zero_iff.mpr (hchildren hsimple)
  remarked hremarked := by
    refine absurd ?_ hremarked
    exact (get?_declaration_options declaration bounds (by decide) (by decide)).trans
      (get?_mismatch_boundsOptions bounds)

theorem makes_shaped (schema : Schema) (settings : Settings) (editing : Bool) :
    schema.Makes settings editing (Form.Shaped schema editing) where
  selected form value h := by
    rw [Form.Shaped, Form.insertOption, Form.label_mapOptions, Form.children_mapOptions]
    refine FormLabel.Shaped.withOptions h
      (fun key hselected _ => Text.Dictionary.get?_insert_of_ne _ hselected _) ?_
    rw [Text.Dictionary.get?_insert_of_ne _ (by decide)]
    exact h.remarked
  remarked form message hediting hkind h := by
    rw [Form.Shaped, Form.remark, Form.label_mapOptions, Form.children_mapOptions]
    exact FormLabel.Shaped.withOptions h
      (fun key _ hmismatch => Options.get?_remark _ _ hmismatch) fun _ => ⟨hediting, hkind⟩
  attributeUse use declaration name path occurrence huse _ :=
    shaped_attributeForm huse declaration name path occurrence
  group := shaped_groupForm
  element _ _ _ _ bounds _ _ _ _ hdeclaration hcontent :=
    shaped_elementForm hdeclaration hcontent bounds

end

theorem Arena.length_of_formsOf {read : FormId → Option Form} {ids : List FormId}
    {forms : List Form} (h : formsOf read ids = some forms) : forms.length = ids.length := by
  induction ids generalizing forms with
  | nil =>
      cases h
      rfl
  | cons id rest ih =>
      simp only [formsOf] at h
      split at h
      · rename_i form others _ hothers
        cases h
        rw [List.length_cons, List.length_cons, ih hothers]
      · cases h

namespace Workspace

/-- After any requests, also failing ones, every node has the shape of its kind, and
whether it may be remarked on is told by the request that left it. -/
theorem shaped_of_runs (schema : Schema) (settings : Settings) (requests : List Request)
    (id : FormId) (cell : Cell)
    (hcell : ((new schema settings).runAll requests).arena.cell? id = some cell) :
    ∃ earlier request later, requests = earlier ++ request :: later ∧
      ((new schema settings).runAll earlier).arena.size ≤ id.index ∧
      id.index < ((new schema settings).runAll (earlier ++ [request])).arena.size ∧
      cell.label.Shaped schema request.hasInstance cell.children.length := by
  obtain ⟨earlier, request, later, form, hrequests, hfrom, hto, hform, hshaped⟩ :=
    property_of_runs (makes_shaped schema settings) requests (Arena.lt_size_of_cell? hcell)
  obtain ⟨found, children, hfound, hchildren, hread⟩ :=
    (forest_of_new schema settings requests).ordered.exists_form? (Arena.lt_size_of_cell? hcell)
  obtain rfl : cell = found := Option.some.inj (hcell.symm.trans hfound)
  obtain rfl : form = .node cell.label children := Option.some.inj (hform.symm.trans hread)
  rw [Form.Shaped, Form.children, Arena.length_of_formsOf hchildren] at hshaped
  exact ⟨earlier, request, later, hrequests, hfrom, hto, hshaped⟩

end Workspace

def invoiceDocument : Xml.Document :=
  .ofRoots (.plain "schema" [] [
    .plain "element" [("name", "invoice")] [
      .plain "complexType" [] [
        .plain "sequence" [] [
          .plain "element" [("name", "line"), ("maxOccurs", "18446744073709551615")] []],
        .plain "attribute" [("name", "number")] []]]]) []

theorem totalledInvoice_shaped :
    let requests : List Request := [.root none none,
      .root none (some (.ofRoots (.plain "invoice" [] [.plain "line" [] [],
        .plain "total" [] []]) [])), .root (some "bill") none]
    let invoices := (Workspace.new (Schema.given invoiceDocument) .default).runAll
    ∃ cell, (invoices requests).arena.cell? ⟨7⟩ = some cell ∧
      cell.label.options.mismatch? ≠ none ∧
      ∃ earlier request later, requests = earlier ++ request :: later ∧
        (invoices earlier).arena.size ≤ 7 ∧ 7 < (invoices (earlier ++ [request])).arena.size ∧
        cell.label.Shaped (Schema.given invoiceDocument) request.hasInstance
          cell.children.length := by
  intro requests invoices
  obtain ⟨cell, hcell⟩ : ∃ cell, (invoices requests).arena.cell? ⟨7⟩ = some cell :=
    Option.isSome_iff_exists.mp (by decide +kernel)
  have hremarked : ((invoices requests).arena.cell? ⟨7⟩).any
      (fun cell => cell.label.options.mismatch?.isSome) = true := by decide +kernel
  rw [hcell, Option.any_some] at hremarked
  exact ⟨cell, hcell, Option.isSome_iff_ne_none.mp hremarked,
    Workspace.shaped_of_runs (Schema.given invoiceDocument) .default requests ⟨7⟩ cell hcell⟩

end SchemaForms
