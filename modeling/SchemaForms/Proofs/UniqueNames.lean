import SchemaForms.Proofs.ContentModels

/-!
# Content models without repeated names

A content model in which no two elements have the same name leaves no doubt about
the element that a child of an instance stands for, nor about the alternative of a
choice that it begins.
-/

namespace SchemaForms

def UniqueNames (schema : Schema) (model : List Particle) : Prop :=
  ∀ first second node other name,
    ModelElementAt schema model first node → declaredName schema node = .ok name →
    ModelElementAt schema model second other → declaredName schema other = .ok name →
    first = second

/-- In no content model of a complex type two elements have the same name. -/
def Schema.NamesUnique (schema : Schema) : Prop :=
  ∀ definition, schema.Owns definition → definition.name = "complexType" →
    ∀ model, contentModel schema definition = .ok model → UniqueNames schema model

def Named (schema : Schema) (model : List Particle) (name : String) : Prop :=
  ∃ particle ∈ model, particle.Names schema name

section

variable {schema : Schema} {particle : Particle} {model rest : List Particle}

theorem modelElementAt_cons {path : List Nat} {target : Xml.Element} :
    ModelElementAt schema (particle :: rest) path target ↔
      (∃ others, path = 0 :: others ∧ particle.ElementAt schema others target) ∨
        ∃ index others, path = (index + 1) :: others ∧
          ModelElementAt schema rest (index :: others) target := by
  constructor
  · rintro ⟨index, others, found, rfl, hfound, hat⟩
    cases index with
    | zero =>
        cases hfound
        exact .inl ⟨others, rfl, hat⟩
    | succ index => exact .inr ⟨index, others, rfl, index, others, found, rfl, hfound, hat⟩
  · rintro (⟨others, rfl, hat⟩ | ⟨_, _, rfl, index, others, found, hpath, hfound, hat⟩)
    · exact ⟨0, others, particle, rfl, rfl, hat⟩
    · cases hpath
      exact ⟨_, _, found, rfl, hfound, hat⟩

theorem modelElementAt_singleton {path : List Nat} {target : Xml.Element} :
    ModelElementAt schema [particle] path target ↔
      ∃ others, path = 0 :: others ∧ particle.ElementAt schema others target := by
  rw [modelElementAt_cons]
  refine or_iff_left ?_
  rintro ⟨_, _, -, _, _, _, -, hfound, -⟩
  cases hfound

theorem Named.exists_at {name : String} (h : Named schema model name) :
    ∃ path node, ModelElementAt schema model path node ∧ declaredName schema node = .ok name := by
  obtain ⟨particle, hparticle, path, node, hat, hname⟩ := h
  obtain ⟨index, hindex⟩ := List.mem_iff_getElem?.mp hparticle
  exact ⟨index :: path, node, ⟨index, path, particle, rfl, hindex, hat⟩, hname⟩

theorem Named.mono {name : String} (hsub : rest ⊆ model) (h : Named schema rest name) :
    Named schema model name := by
  obtain ⟨particle, hparticle, hname⟩ := h
  exact ⟨particle, hsub hparticle, hname⟩

theorem named_singleton {name : String} :
    Named schema [particle] name ↔ particle.Names schema name := by
  simp [Named]

theorem uniqueNames_nil : UniqueNames schema [] := by
  rintro _ _ _ _ _ ⟨_, _, _, -, hfound, -⟩
  cases hfound

theorem uniqueNames_cons :
    UniqueNames schema (particle :: rest) ↔
      UniqueNames schema [particle] ∧ UniqueNames schema rest ∧
        ∀ name, particle.Names schema name → ¬Named schema rest name := by
  simp only [UniqueNames, @modelElementAt_cons schema particle rest, modelElementAt_singleton]
  constructor
  · intro h
    refine ⟨fun first second node other name hfirst hnode hsecond hother =>
      h _ _ _ _ _ (.inl hfirst) hnode (.inl hsecond) hother,
      fun first second node other name hfirst hnode hsecond hother => ?_,
      fun name hname hnamed => ?_⟩
    · obtain ⟨index, path, _, rfl, _⟩ := id hfirst
      obtain ⟨position, others, _, rfl, _⟩ := id hsecond
      have hsame := h _ _ _ _ _ (.inr ⟨index, path, rfl, hfirst⟩) hnode
        (.inr ⟨position, others, rfl, hsecond⟩) hother
      simpa using hsame
    · obtain ⟨path, node, hat, hnode⟩ := hname
      obtain ⟨others, other, hin, hother⟩ := hnamed.exists_at
      obtain ⟨index, others, _, rfl, _⟩ := id hin
      have hsame :=
        h _ _ _ _ _ (.inl ⟨path, rfl, hat⟩) hnode (.inr ⟨index, others, rfl, hin⟩) hother
      simp at hsame
  · rintro ⟨hhead, htail, hdisjoint⟩ first second node other name hfirst hnode hsecond hother
    rcases hfirst with hfirst | ⟨index, path, rfl, hfirst⟩ <;>
      rcases hsecond with hsecond | ⟨position, others, rfl, hsecond⟩
    · exact hhead _ _ _ _ _ hfirst hnode hsecond hother
    · obtain ⟨path, -, hat⟩ := hfirst
      obtain ⟨index, others, found, -, hfound, hin⟩ := hsecond
      exact (hdisjoint name ⟨path, node, hat, hnode⟩
        ⟨found, List.mem_of_getElem? hfound, others, other, hin, hother⟩).elim
    · obtain ⟨path, -, hat⟩ := hsecond
      obtain ⟨index, others, found, -, hfound, hin⟩ := hfirst
      exact (hdisjoint name ⟨path, other, hat, hother⟩
        ⟨found, List.mem_of_getElem? hfound, others, node, hin, hnode⟩).elim
    · have hsame := htail _ _ _ _ _ hfirst hnode hsecond hother
      simpa using hsame

theorem uniqueNames_element {node : Xml.Element} {bounds : Bounds} :
    UniqueNames schema [.element node bounds] := by
  simp only [UniqueNames, modelElementAt_singleton]
  rintro _ _ _ _ _ ⟨_, rfl, hfirst⟩ - ⟨_, rfl, hsecond⟩ -
  cases hfirst
  cases hsecond
  rfl

theorem uniqueNames_attributeUse {node : Xml.Element} :
    UniqueNames schema [.attributeUse node] := by
  simp only [UniqueNames, modelElementAt_singleton]
  rintro _ _ _ _ _ ⟨_, rfl, hfirst⟩
  cases hfirst

theorem uniqueNames_group {compositor : Compositor} {node : Xml.Element} {bounds : Bounds}
    {members : List Particle} (hmembers : Particle.members schema node = .ok members) :
    UniqueNames schema [.group compositor node bounds] ↔ UniqueNames schema members := by
  have hat : ∀ path target, ModelElementAt schema [.group compositor node bounds] path target ↔
      ∃ others, path = 0 :: others ∧ ModelElementAt schema members others target := by
    intro path target
    rw [modelElementAt_singleton]
    constructor
    · rintro ⟨others, rfl, hat⟩
      cases hat with
      | member hothers hindex hat =>
          cases hmembers.symm.trans hothers
          exact ⟨_, rfl, _, _, _, rfl, hindex, hat⟩
    · rintro ⟨_, rfl, index, others, found, rfl, hindex, hat⟩
      exact ⟨_, rfl, .member hmembers hindex hat⟩
  simp only [UniqueNames, hat]
  constructor
  · intro h first second node other name hfirst hnode hsecond hother
    have hsame := h _ _ _ _ _ ⟨first, rfl, hfirst⟩ hnode ⟨second, rfl, hsecond⟩ hother
    simpa using hsame
  · rintro h _ _ node other name ⟨first, rfl, hfirst⟩ hnode ⟨second, rfl, hsecond⟩ hother
    rw [h _ _ _ _ _ hfirst hnode hsecond hother]

theorem UniqueNames.of_mem (h : UniqueNames schema model) (hparticle : particle ∈ model) :
    UniqueNames schema [particle] := by
  induction model with
  | nil => cases hparticle
  | cons first rest ih =>
      obtain ⟨hfirst, hrest, -⟩ := uniqueNames_cons.mp h
      rcases List.mem_cons.mp hparticle with rfl | hparticle
      · exact hfirst
      · exact ih hrest hparticle

theorem UniqueNames.index_eq (h : UniqueNames schema model) {first second : Nat}
    {one other : Particle} (hfirst : model[first]? = some one)
    (hsecond : model[second]? = some other) {name : String} (hone : one.Names schema name)
    (hother : other.Names schema name) : first = second := by
  obtain ⟨path, node, hat, hnode⟩ := hone
  obtain ⟨others, target, hin, htarget⟩ := hother
  have hsame := h _ _ _ _ _ ⟨first, path, one, rfl, hfirst, hat⟩ hnode
    ⟨second, others, other, rfl, hsecond, hin⟩ htarget
  exact (List.cons.inj hsame).1

structure PlainModel (schema : Schema) (model : List Particle) : Prop where
  ofSchema : ∀ particle ∈ model, particle.OfSchema schema
  unique : UniqueNames schema model

theorem PlainModel.of_mem (h : PlainModel schema model)
    (hparticle : particle ∈ model) : PlainModel schema [particle] :=
  ⟨by simpa using h.ofSchema particle hparticle, h.unique.of_mem hparticle⟩

theorem PlainModel.tail (h : PlainModel schema (particle :: rest)) : PlainModel schema rest :=
  ⟨fun other hother => h.ofSchema other (List.mem_cons_of_mem _ hother),
    (uniqueNames_cons.mp h.unique).2.1⟩

theorem PlainModel.members (hschema : schema.Grounded) {compositor : Compositor}
    {node : Xml.Element} {bounds : Bounds}
    (h : PlainModel schema [.group compositor node bounds]) {members : List Particle}
    (hmembers : Particle.members schema node = .ok members) : PlainModel schema members :=
  ⟨Particle.members_ofSchema hschema (h.ofSchema _ (List.mem_singleton_self _)).1 hmembers,
    (uniqueNames_group hmembers).mp h.unique⟩

theorem PlainModel.of_definition (hschema : schema.Grounded) (hunique : schema.NamesUnique)
    {definition : Xml.Element} (howns : schema.Owns definition)
    (hname : definition.name = "complexType") {model : List Particle}
    (hmodel : contentModel schema definition = .ok model) : PlainModel schema model := by
  refine ⟨fun particle hparticle => ?_, hunique definition howns hname model hmodel⟩
  obtain ⟨node, hnode, hfound⟩ := Particle.membersOf_eq_ok hmodel particle hparticle
  exact Particle.ofElement?_ofSchema hschema (howns.child (List.mem_filter.mp hnode).1) hfound

/-! ## The search for an alternative -/

theorem firstBeginning_eq_ok {tag : String} {members : List Particle} {matched : Option Nat}
    (h : firstBeginning schema tag members = .ok matched) :
    (∀ index, matched = some index →
      ∃ member, members[index]? = some member ∧ member.Names schema tag) ∧
      (matched = none → ¬Named schema members tag) := by
  induction members generalizing matched with
  | nil =>
      cases h
      refine ⟨by simp, ?_⟩
      rintro - ⟨_, hmember, -⟩
      cases hmember
  | cons member rest ih =>
      obtain ⟨names, hnames, h⟩ := bind_eq_ok.mp h
      split at h
      · rename_i hbegins
        cases h
        refine ⟨fun index hindex => ?_, by simp⟩
        cases hindex
        exact ⟨member, rfl, (mem_firstNames hnames).mp (by simpa using hbegins)⟩
      · rename_i hbegins
        obtain ⟨found, hfound, h⟩ := bind_eq_ok.mp h
        cases h
        obtain ⟨hsome, hnone⟩ := ih hfound
        refine ⟨fun index hindex => ?_, fun hmatched => ?_⟩
        · obtain ⟨left, rfl, rfl⟩ := Option.map_eq_some_iff.mp hindex
          exact hsome left rfl
        · rintro ⟨other, hother, hname⟩
          rcases List.mem_cons.mp hother with rfl | hother
          · exact hbegins (by simpa using (mem_firstNames hnames).mpr hname)
          · exact hnone (Option.map_eq_none_iff.mp hmatched) ⟨other, hother, hname⟩

theorem firstBeginning_found {tag : String} {members : List Particle}
    (h : ∀ member ∈ members, ∃ names, firstNames schema member = .ok names) :
    ∃ matched, firstBeginning schema tag members = .ok matched := by
  induction members with
  | nil => exact ⟨none, rfl⟩
  | cons member rest ih =>
      obtain ⟨names, hnames⟩ := h member List.mem_cons_self
      obtain ⟨found, hfound⟩ := ih fun other hother => h other (List.mem_cons_of_mem _ hother)
      by_cases hbegins : names.contains tag = true
      · exact ⟨some 0, bind_eq_ok.mpr ⟨names, hnames, by rw [if_pos hbegins]; rfl⟩⟩
      · refine ⟨found.map (· + 1), bind_eq_ok.mpr ⟨names, hnames, ?_⟩⟩
        rw [if_neg hbegins]
        exact bind_eq_ok.mpr ⟨found, hfound, rfl⟩

theorem alternativeFor_found (h : ∀ member ∈ model, ∃ names, firstNames schema member = .ok names)
    (next : Option Xml.Element) : ∃ matched, alternativeFor schema model next = .ok matched := by
  cases next with
  | none => exact ⟨none, rfl⟩
  | some element => exact firstBeginning_found h

theorem alternativeFor_eq_none {next : Option Xml.Element} {matched : Option Nat}
    (h : alternativeFor schema model next = .ok matched)
    (hnext : ∀ element ∈ next, ¬Named schema model element.name) : matched = none := by
  cases next with
  | none =>
      cases h
      rfl
  | some element =>
      cases matched with
      | none => rfl
      | some index =>
          obtain ⟨member, hmember, hname⟩ := (firstBeginning_eq_ok h).1 index rfl
          exact (hnext element rfl ⟨member, List.mem_of_getElem? hmember, hname⟩).elim

theorem UniqueNames.alternativeFor_eq (hunique : UniqueNames schema model) {index : Nat}
    (hparticle : model[index]? = some particle) {element : Xml.Element}
    (hname : particle.Names schema element.name) {matched : Option Nat}
    (h : alternativeFor schema model (some element) = .ok matched) : matched = some index := by
  obtain ⟨hsome, hnone⟩ := firstBeginning_eq_ok h
  cases matched with
  | none => exact (hnone rfl ⟨particle, List.mem_of_getElem? hparticle, hname⟩).elim
  | some other =>
      obtain ⟨member, hmember, hother⟩ := hsome other rfl
      rw [hunique.index_eq hmember hparticle hother hname]

/-! ## The search for repeated names -/

def namesOfAll {α : Type} (names : α → Except SchemaFault (List String)) :
    List α → Except SchemaFault (List String)
  | [] => .ok []
  | component :: rest => do
      let first ← names component
      let others ← namesOfAll names rest
      return first ++ others

def elementNames (schema : Schema) : Nat → Particle → Except SchemaFault (List String)
  | _, .element node _ => do return [← declaredName schema node]
  | _, .attributeUse _ => .ok []
  | 0, .group _ node _ => .error (.circularDefinition (schema.describe node))
  | fuel + 1, .group _ node _ => do
      namesOfAll (elementNames schema fuel) (← Particle.members schema node)

structure NamesListed (schema : Schema) (model : List Particle) (names : List String) : Prop where
  mem : ∀ name, Named schema model name → name ∈ names
  unique : names.Nodup → UniqueNames schema model

theorem namesListed_of_namesOfAll {names : Particle → Except SchemaFault (List String)}
    (heach : ∀ particle ∈ model, ∀ own, names particle = .ok own →
      NamesListed schema [particle] own)
    {all : List String} (h : namesOfAll names model = .ok all) : NamesListed schema model all := by
  induction model generalizing all with
  | nil =>
      refine ⟨?_, fun _ => uniqueNames_nil⟩
      rintro name ⟨_, hparticle, -⟩
      cases hparticle
  | cons particle rest ih =>
      obtain ⟨own, hown, h⟩ := bind_eq_ok.mp h
      obtain ⟨others, hothers, h⟩ := bind_eq_ok.mp h
      cases h
      have hfirst := heach particle List.mem_cons_self own hown
      have hrest := ih (fun other hother => heach other (List.mem_cons_of_mem _ hother)) hothers
      have hin : ∀ name, particle.Names schema name → name ∈ own :=
        fun name hname => hfirst.mem name ⟨particle, List.mem_cons_self, hname⟩
      refine ⟨?_, fun hnodup => ?_⟩
      · rintro name ⟨other, hother, hname⟩
        rcases List.mem_cons.mp hother with rfl | hother
        · exact List.mem_append_left _ (hin name hname)
        · exact List.mem_append_right _ (hrest.mem name ⟨other, hother, hname⟩)
      · obtain ⟨hownNodup, hothersNodup, hdisjoint⟩ := List.nodup_append'.mp hnodup
        refine uniqueNames_cons.mpr ⟨hfirst.unique hownNodup, hrest.unique hothersNodup, ?_⟩
        exact fun name hname hnamed => hdisjoint (hin name hname) (hrest.mem name hnamed)

theorem namesListed_element {node : Xml.Element} {bounds : Bounds} {names : List String}
    (h : (do return [← declaredName schema node]) = Except.ok names) :
    NamesListed schema [.element node bounds] names := by
  obtain ⟨own, hown, h⟩ := bind_eq_ok.mp h
  cases h
  refine ⟨?_, fun _ => uniqueNames_element⟩
  rintro name ⟨particle, hparticle, hname⟩
  rw [List.mem_singleton.mp hparticle, Particle.names_element, hown] at hname
  cases hname
  exact List.mem_singleton_self _

theorem namesListed_attributeUse {node : Xml.Element} :
    NamesListed schema [.attributeUse node] [] := by
  refine ⟨?_, fun _ => uniqueNames_attributeUse⟩
  rintro name ⟨particle, hparticle, hname⟩
  rw [List.mem_singleton.mp hparticle] at hname
  exact (Particle.not_names_attributeUse hname).elim

theorem namesListed_of_elementNames {fuel : Nat} {names : List String}
    (h : elementNames schema fuel particle = .ok names) : NamesListed schema [particle] names := by
  induction fuel generalizing particle names with
  | zero =>
      cases particle with
      | element node bounds => exact namesListed_element h
      | group compositor node bounds => cases h
      | attributeUse node =>
          cases h
          exact namesListed_attributeUse
  | succ fuel ih =>
      cases particle with
      | element node bounds => exact namesListed_element h
      | group compositor node bounds =>
          obtain ⟨members, hmembers, h⟩ := bind_eq_ok.mp h
          have hlisted := namesListed_of_namesOfAll (fun member _ own hown => ih hown) h
          refine ⟨?_, fun hnodup => (uniqueNames_group hmembers).mpr (hlisted.unique hnodup)⟩
          rintro name ⟨particle, hparticle, hname⟩
          rw [List.mem_singleton.mp hparticle, Particle.names_group hmembers] at hname
          exact hlisted.mem name hname
      | attributeUse node =>
          cases h
          exact namesListed_attributeUse

end

def Schema.namesDiffer (schema : Schema) (definition : Xml.Element) : Bool :=
  match contentModel schema definition with
  | .error _ => true
  | .ok model =>
      match namesOfAll (elementNames schema schema.document.elements.length) model with
      | .error _ => false
      | .ok names => decide names.Nodup

theorem Schema.namesUnique_of_namesDiffer {schema : Schema}
    (h : ∀ definition ∈ schema.document.elements, definition.name = "complexType" →
      schema.namesDiffer definition = true) : schema.NamesUnique := by
  intro definition howns hname model hmodel
  have hdiffer := h definition howns hname
  simp only [Schema.namesDiffer, hmodel] at hdiffer
  split at hdiffer
  · cases hdiffer
  · rename_i names hnames
    have hlisted := namesListed_of_namesOfAll
      (fun particle _ own hown => namesListed_of_elementNames hown) hnames
    exact hlisted.unique (of_decide_eq_true hdiffer)

end SchemaForms
