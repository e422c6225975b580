import SchemaForms.Proofs.References
import SchemaForms.Proofs.Steps

/-!
# Content models

The words over element names that a particle stands for, and the instances that
are valid: the names of the children of an element form a word of the content
model of its type, and each child is valid for the declaration of its name in
this content model.
-/

namespace SchemaForms

deriving instance DecidableEq for Particle
deriving instance DecidableEq for ContentType

/-! ## Numbers of occurrences -/

structure Bounds.Admits (bounds : Bounds) (count : Nat) : Prop where
  min : bounds.min ≤ count
  max : bounds.max.allows count = true

instance (bounds : Bounds) (count : Nat) : Decidable (bounds.Admits count) :=
  decidable_of_iff (bounds.min ≤ count ∧ bounds.max.allows count = true)
    ⟨fun h => ⟨h.1, h.2⟩, fun h => ⟨h.min, h.max⟩⟩

namespace MaxOccurs

theorem allows_of_le {limit : MaxOccurs} {count more : Nat} (hle : count ≤ more)
    (h : limit.allows more = true) : limit.allows count = true := by
  cases limit with
  | unbounded => rfl
  | count limit =>
      rw [allows, decide_eq_true_eq] at h ⊢
      exact Nat.le_trans hle h

theorem allows_max {limit : MaxOccurs} {first second : Nat}
    (hfirst : limit.allows first = true) (hsecond : limit.allows second = true) :
    limit.allows (Nat.max first second) = true := by
  rcases Nat.le_total first second with h | h
  · rwa [show Nat.max first second = second from Nat.max_eq_right h]
  · rwa [show Nat.max first second = first from Nat.max_eq_left h]

theorem allows_one {limit : MaxOccurs} (h : limit ≠ .count 0) : limit.allows 1 = true := by
  cases limit with
  | unbounded => rfl
  | count limit =>
      rw [allows, decide_eq_true_eq]
      exact Nat.one_le_iff_ne_zero.mpr fun hzero => h (congrArg _ hzero)

theorem le_cap {limit : MaxOccurs} {count total : Nat} (hle : count ≤ total)
    (h : limit.allows count = true) : count ≤ limit.cap total := by
  cases limit with
  | unbounded => exact hle
  | count limit =>
      rw [allows, decide_eq_true_eq] at h
      exact Nat.le_min.mpr ⟨hle, h⟩

theorem cap_le (limit : MaxOccurs) (total : Nat) : limit.cap total ≤ total := by
  cases limit with
  | unbounded => exact Nat.le_refl _
  | count limit => exact Nat.min_le_left _ _

theorem cap_eq {limit : MaxOccurs} {count total : Nat} (hle : count ≤ total)
    (h : limit.allows count = true)
    (hend : total = count ∨ limit.allows (count + 1) = false) : limit.cap total = count := by
  cases limit with
  | unbounded =>
      rcases hend with rfl | hend
      · rfl
      · cases hend
  | count limit =>
      simp only [allows, decide_eq_true_eq, decide_eq_false_iff_not] at h hend
      rw [cap]
      omega

end MaxOccurs

theorem surplusError_eq_none {tag : String} {max : MaxOccurs} {occurrence : Nat} :
    surplusError tag max occurrence = none ↔ max.allows occurrence = true := by
  cases max with
  | unbounded => simp [surplusError, MaxOccurs.allows]
  | count max => simp [surplusError, MaxOccurs.allows]

theorem Bounds.admits_required {bounds : Bounds} (h : bounds.max ≠ .count 0) :
    bounds.Admits (requiredCount bounds) :=
  ⟨Nat.le_max_left _ _, MaxOccurs.allows_max bounds.allows_min (MaxOccurs.allows_one h)⟩

theorem Bounds.le_one_of_not_repeats {bounds : Bounds} (h : bounds.repeats = false) {count : Nat}
    (hallows : bounds.max.allows count = true) : count ≤ 1 := by
  unfold Bounds.repeats at h
  split at h
  · cases h
  · rename_i max hmax
    rw [hmax, MaxOccurs.allows, decide_eq_true_eq] at hallows
    exact Nat.le_trans hallows (Nat.le_of_not_lt (of_decide_eq_false h))

theorem allows_required {bounds : Bounds} (hmax : bounds.max ≠ .count 0) {count : Nat}
    (h : count ≤ requiredCount bounds) : bounds.max.allows count = true :=
  MaxOccurs.allows_of_le h (Bounds.admits_required hmax).max

theorem allows_takingLimit {context : Context} {bounds : Bounds} {count : Nat}
    (h : bounds.max.allows count = true) : (takingLimit context bounds).allows count = true := by
  unfold takingLimit
  split
  · exact h
  · rfl

theorem admits_copiesWithoutInstance (context : Context) (declaration : Declaration)
    (bounds : Bounds) (atLeast : Nat) :
    bounds.Admits (copiesWithoutInstance context declaration bounds (bounds.max.cap atLeast)) := by
  have hinitial : bounds.Admits (initialCount bounds context.settings.placeholder) := by
    unfold initialCount
    split
    · rename_i htemplate
      simp only [Bool.and_eq_true, decide_eq_true_eq] at htemplate
      exact ⟨by omega, by rw [htemplate.1.2]; rfl⟩
    · exact ⟨Nat.le_refl _, bounds.allows_min⟩
  have hcount : bounds.Admits (max (initialCount bounds context.settings.placeholder)
      (bounds.max.cap atLeast)) :=
    ⟨Nat.le_trans hinitial.min (Nat.le_max_left _ _),
      MaxOccurs.allows_max hinitial.max (MaxOccurs.allows_cap _ _)⟩
  unfold copiesWithoutInstance
  cases declaration.content with
  | simple => exact hcount
  | complex definition =>
      simp only
      split
      · rename_i hinside
        simp only [Bool.and_eq_true, decide_eq_true_eq] at hinside
        exact ⟨by omega, hinside.1 ▸ bounds.allows_min⟩
      · exact hcount

/-! ## Words -/

mutual
/-- The word is in the language of the particle. -/
inductive Particle.Word (schema : Schema) : Particle → List String → Prop
  | element {node : Xml.Element} {bounds : Bounds} {name : String} {count : Nat} :
      declaredName schema node = .ok name → bounds.Admits count →
      Particle.Word schema (.element node bounds) (List.replicate count name)
  | group {compositor : Compositor} {node : Xml.Element} {bounds : Bounds}
      {members : List Particle} {words : List (List String)} :
      Particle.members schema node = .ok members → bounds.Admits words.length →
      (∀ word ∈ words, InstantiationWord schema compositor members word) →
      Particle.Word schema (.group compositor node bounds) words.flatten
  | attributeUse {node : Xml.Element} : Particle.Word schema (.attributeUse node) []

inductive SequenceWord (schema : Schema) : List Particle → List String → Prop
  | nil : SequenceWord schema [] []
  | cons {particle : Particle} {rest : List Particle} {first others : List String} :
      Particle.Word schema particle first → SequenceWord schema rest others →
      SequenceWord schema (particle :: rest) (first ++ others)

/-- The word is in the language of one instantiation of a group with these members. -/
inductive InstantiationWord (schema : Schema) : Compositor → List Particle → List String → Prop
  | sequence {members : List Particle} {word : List String} :
      SequenceWord schema members word → InstantiationWord schema .sequence members word
  | alternative {members : List Particle} {member : Particle} {word : List String} :
      member ∈ members → Particle.Word schema member word →
      InstantiationWord schema .choice members word
  | noAlternative : InstantiationWord schema .choice [] []
end

def contentModel (schema : Schema) (definition : Xml.Element) :
    Except SchemaFault (List Particle) :=
  Particle.membersOf schema (definition.elements.filter fun item => modelItems.contains item.name)

inductive SequenceRun (level : Level) (context : Context) (path : String) :
    List Particle → BuildState → List Form → BuildState → Prop
  | nil {state : BuildState} : SequenceRun level context path [] state [] state
  | attributes {model : List Particle} {state after : BuildState} {made others : List Form} :
      (∀ form ∈ made, form.IsAttribute) →
      SequenceRun level context path model state others after →
      SequenceRun level context path model state (made ++ others) after
  | cons {particle : Particle} {rest : List Particle} {state middle after : BuildState}
      {made others : List Form} :
      level.particle context 0 particle path state = .ok (made, middle) →
      SequenceRun level context path rest middle others after →
      SequenceRun level context path (particle :: rest) state (made ++ others) after

theorem buildSequence_eq_ok {level : Level} {context : Context} {path : String}
    {members : List Particle} {state after : BuildState} {forms : List Form}
    (hrun : buildSequence level context members path state = .ok (forms, after)) :
    SequenceRun level context path members state forms after := by
  rw [buildSequence] at hrun
  induction members generalizing state forms with
  | nil =>
      obtain ⟨rfl, rfl⟩ := Build.nothing_eq_ok.mp hrun
      exact .nil
  | cons member rest ih =>
      obtain ⟨made, middle, others, hmade, hothers, rfl⟩ := Build.andThen_eq_ok.mp hrun
      exact .cons hmade (ih hothers)

theorem buildItems_eq_ok {level : Level} (hattributes : level.AttributesOnly)
    {context : Context} {definition : Xml.Element} {path : String}
    {occurrence : Option Xml.Element} {state after : BuildState} {forms : List Form}
    (hrun : buildItems level context definition path occurrence state = .ok (forms, after)) :
    ∃ model, contentModel context.schema definition = .ok model ∧
      SequenceRun level context path model state forms after := by
  rw [buildItems] at hrun
  rw [contentModel]
  generalize definition.elements = items at hrun ⊢
  induction items generalizing state forms with
  | nil =>
      obtain ⟨rfl, rfl⟩ := Build.nothing_eq_ok.mp hrun
      exact ⟨[], rfl, .nil⟩
  | cons item rest ih =>
      obtain ⟨made, middle, others, hitem, hothers, rfl⟩ := Build.andThen_eq_ok.mp hrun
      obtain ⟨model, hmodel, hrest⟩ := ih hothers
      rcases buildItem_eq_ok hattributes hitem with
        ⟨hname, particle, hparticle, hbuild⟩ | ⟨hname, rfl, hmade⟩
      · refine ⟨particle :: model, ?_, .cons hbuild hrest⟩
        rw [List.filter_cons_of_pos (by simpa using hname), Particle.membersOf, hparticle, hmodel]
        rfl
      · refine ⟨model, ?_, .attributes hmade hrest⟩
        rw [List.filter_cons_of_neg (by simpa using hname)]
        exact hmodel

/-! ## Elements of a content model -/

inductive Particle.ElementAt (schema : Schema) : Particle → List Nat → Xml.Element → Prop
  | element {node : Xml.Element} {bounds : Bounds} :
      Particle.ElementAt schema (.element node bounds) [] node
  | member {compositor : Compositor} {node target : Xml.Element} {bounds : Bounds}
      {members : List Particle} {member : Particle} {index : Nat} {path : List Nat} :
      Particle.members schema node = .ok members → members[index]? = some member →
      Particle.ElementAt schema member path target →
      Particle.ElementAt schema (.group compositor node bounds) (index :: path) target

def ModelElementAt (schema : Schema) (model : List Particle) (path : List Nat)
    (target : Xml.Element) : Prop :=
  ∃ index rest particle, path = index :: rest ∧ model[index]? = some particle ∧
    particle.ElementAt schema rest target

section

variable {schema : Schema}

def Particle.Names (schema : Schema) (particle : Particle) (name : String) : Prop :=
  ∃ path node, particle.ElementAt schema path node ∧ declaredName schema node = .ok name

theorem Particle.Names.of_member {compositor : Compositor} {node : Xml.Element} {bounds : Bounds}
    {members : List Particle} (hmembers : Particle.members schema node = .ok members)
    {member : Particle} (hmember : member ∈ members) {name : String}
    (h : member.Names schema name) :
    (Particle.group compositor node bounds).Names schema name := by
  obtain ⟨path, target, hat, hname⟩ := h
  obtain ⟨index, hindex⟩ := List.mem_iff_getElem?.mp hmember
  exact ⟨index :: path, target, .member hmembers hindex hat, hname⟩

theorem Particle.Word.names {particle : Particle} {word : List String}
    (h : particle.Word schema word) : ∀ name ∈ word, particle.Names schema name := by
  refine @Particle.Word.rec schema
    (fun particle word _ => ∀ name ∈ word, particle.Names schema name)
    (fun particles word _ => ∀ name ∈ word, ∃ particle ∈ particles, particle.Names schema name)
    (fun _ members word _ => ∀ name ∈ word, ∃ member ∈ members, member.Names schema name)
    ?element ?group ?attributeUse ?nil ?cons ?sequence ?alternative ?noAlternative
    particle word h
  case element =>
    intro node bounds name count hname _ other hin
    rw [List.eq_of_mem_replicate hin]
    exact ⟨[], node, .element, hname⟩
  case group =>
    intro compositor node bounds members words hmembers _ _ ih name hin
    obtain ⟨word, hword, hin⟩ := List.mem_flatten.mp hin
    obtain ⟨member, hmember, hnames⟩ := ih word hword name hin
    exact .of_member hmembers hmember hnames
  case attributeUse => simp
  case nil => simp
  case cons =>
    intro particle rest first others _ _ hfirst hothers name hin
    rcases List.mem_append.mp hin with hin | hin
    · exact ⟨particle, List.mem_cons_self, hfirst name hin⟩
    · obtain ⟨other, hother, hnames⟩ := hothers name hin
      exact ⟨other, List.mem_cons_of_mem _ hother, hnames⟩
  case sequence => exact fun _ ih => ih
  case alternative =>
    intro members member word hmember _ ih name hin
    exact ⟨member, hmember, ih name hin⟩
  case noAlternative => simp

theorem SequenceWord.names {particles : List Particle} {word : List String}
    (h : SequenceWord schema particles word) :
    ∀ name ∈ word, ∃ particle ∈ particles, particle.Names schema name := by
  induction particles generalizing word with
  | nil =>
      cases h
      simp
  | cons particle rest ih =>
      cases h with
      | cons hfirst hrest =>
          intro name hin
          rcases List.mem_append.mp hin with hin | hin
          · exact ⟨particle, List.mem_cons_self, hfirst.names name hin⟩
          · obtain ⟨other, hother, hnames⟩ := ih hrest name hin
            exact ⟨other, List.mem_cons_of_mem _ hother, hnames⟩

theorem InstantiationWord.names {compositor : Compositor} {members : List Particle}
    {word : List String} (h : InstantiationWord schema compositor members word) :
    ∀ name ∈ word, ∃ member ∈ members, member.Names schema name := by
  cases h with
  | sequence hword => exact hword.names
  | alternative hmember hword => exact fun name hin => ⟨_, hmember, hword.names name hin⟩
  | noAlternative => simp

theorem Particle.ElementAt.eq {particle : Particle} {path : List Nat}
    {first second : Xml.Element} (hfirst : particle.ElementAt schema path first)
    (hsecond : particle.ElementAt schema path second) : first = second := by
  induction hfirst with
  | element =>
      cases hsecond
      rfl
  | member hmembers hindex _ ih =>
      cases hsecond with
      | member hothers hother hat =>
          cases hmembers.symm.trans hothers
          cases hindex.symm.trans hother
          exact ih hat

theorem Particle.names_element {node : Xml.Element} {bounds : Bounds} {name : String} :
    (Particle.element node bounds).Names schema name ↔ declaredName schema node = .ok name := by
  constructor
  · rintro ⟨path, target, hat, hname⟩
    cases hat
    exact hname
  · exact fun hname => ⟨[], node, .element, hname⟩

theorem Particle.names_group {compositor : Compositor} {node : Xml.Element} {bounds : Bounds}
    {members : List Particle} (hmembers : Particle.members schema node = .ok members)
    {name : String} :
    (Particle.group compositor node bounds).Names schema name ↔
      ∃ member ∈ members, member.Names schema name := by
  constructor
  · rintro ⟨path, target, hat, hname⟩
    cases hat with
    | member hothers hindex hat =>
        cases hmembers.symm.trans hothers
        exact ⟨_, List.mem_of_getElem? hindex, _, target, hat, hname⟩
  · rintro ⟨member, hmember, hnames⟩
    exact .of_member hmembers hmember hnames

theorem Particle.not_names_attributeUse {node : Xml.Element} {name : String} :
    ¬(Particle.attributeUse node).Names schema name := by
  rintro ⟨path, target, hat, -⟩
  cases hat

/-! ## First names are all names -/

theorem mem_collectAll {collect : Particle → List String → Except SchemaFault (List String)}
    {name : String} {particles : List Particle} {tags names : List String}
    (hcollect : ∀ particle ∈ particles, ∀ before after, collect particle before = .ok after →
      (name ∈ after ↔ name ∈ before ∨ particle.Names schema name))
    (h : collectAll collect particles tags = .ok names) :
    name ∈ names ↔ name ∈ tags ∨ ∃ particle ∈ particles, particle.Names schema name := by
  induction particles generalizing tags with
  | nil =>
      cases h
      simp
  | cons particle rest ih =>
      obtain ⟨middle, hfirst, h⟩ := bind_eq_ok.mp h
      rw [ih (fun other hother => hcollect other (List.mem_cons_of_mem _ hother)) h,
        hcollect particle List.mem_cons_self _ _ hfirst, or_assoc, List.exists_mem_cons_iff]

theorem mem_insert_declaredName {node : Xml.Element} {bounds : Bounds} {tags names : List String}
    (h : (do return Text.insertText (← declaredName schema node) tags) = Except.ok names)
    {name : String} :
    name ∈ names ↔ name ∈ tags ∨ (Particle.element node bounds).Names schema name := by
  obtain ⟨own, hown, h⟩ := bind_eq_ok.mp h
  cases h
  rw [Text.mem_insertText, Particle.names_element, hown, Except.ok.injEq, eq_comm, or_comm]

theorem mem_collectFirstNames {fuel : Nat} {visiting : List Nat} {particle : Particle}
    {tags names : List String}
    (h : collectFirstNames schema fuel visiting particle tags = .ok names) {name : String} :
    name ∈ names ↔ name ∈ tags ∨ particle.Names schema name := by
  induction fuel generalizing visiting particle tags names with
  | zero =>
      cases particle with
      | element node bounds => exact mem_insert_declaredName h
      | group compositor node bounds => cases h
      | attributeUse node =>
          cases h
          simp [Particle.not_names_attributeUse]
  | succ fuel ih =>
      cases particle with
      | element node bounds => exact mem_insert_declaredName h
      | group compositor node bounds =>
          obtain ⟨left, members, hleft, -, hmembers, hall⟩ := collectFirstNames_group_eq_ok h
          cases hleft
          rw [mem_collectAll (fun member _ before after hcollect => ih hcollect) hall,
            Particle.names_group hmembers]
      | attributeUse node =>
          cases h
          simp [Particle.not_names_attributeUse]

/-- The first names of a particle are the names of all its elements. -/
theorem mem_firstNames {particle : Particle} {names : List String}
    (h : firstNames schema particle = .ok names) {name : String} :
    name ∈ names ↔ particle.Names schema name := by
  simpa using mem_collectFirstNames h

end

/-! ## Valid instances -/

/-- The instance element is structurally valid for the declaration of an element. Each
of its children has a declaration of its name in the content model. -/
inductive ValidFor (schema : Schema) : Xml.Element → Xml.Element → Prop
  | simpleType {declaration occurrence : Xml.Element} :
      Declaration.contentType schema declaration = .ok .simple → occurrence.elements = [] →
      ValidFor schema declaration occurrence
  | simpleContent {declaration occurrence definition : Xml.Element} :
      Declaration.contentType schema declaration = .ok (.complex definition) →
      hasSimpleContent definition = true → occurrence.elements = [] →
      ValidFor schema declaration occurrence
  | complexContent {declaration occurrence definition : Xml.Element} {model : List Particle}
      (declarations : Xml.Element → Xml.Element) :
      Declaration.contentType schema declaration = .ok (.complex definition) →
      hasSimpleContent definition = false → contentModel schema definition = .ok model →
      SequenceWord schema model (occurrence.elements.map Xml.Element.name) →
      (∀ child ∈ occurrence.elements, ∃ path node, ModelElementAt schema model path node ∧
        declaredName schema node = .ok child.name ∧
        Schema.followReference schema.element node = .ok (declarations child)) →
      (∀ child ∈ occurrence.elements, ValidFor schema (declarations child) child) →
      ValidFor schema declaration occurrence

/-- The document is structurally valid for the global element. -/
structure Xml.Document.Valid (document : Xml.Document) (schema : Schema) (root : Xml.Element) :
    Prop where
  name : declaredName schema root = .ok document.root.name
  single : document.others = []
  root : ∃ declaration, Schema.followReference schema.element root = .ok declaration ∧
    ValidFor schema declaration document.root

end SchemaForms
