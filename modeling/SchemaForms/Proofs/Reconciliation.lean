import Mathlib.Data.List.Infix
import SchemaForms.Proofs.Advance
import SchemaForms.Proofs.UniqueNames

/-!
# Valid instances reconcile without messages

The instance is taken greedily, so a particle may take elements that a valid split
leaves to a later repetition of it. It never leaves any: if what is ahead is a last
part of a word of the particle and of the rest, then after the particle it is a last
part of the rest. Hence repetitions never exceed a maximum that a valid split keeps,
and a content is taken to its end.
-/

namespace SchemaForms

/-! ## Parts of an instance -/

theorem suffix_append_cases {α : Type} {ahead part rest : List α} (h : ahead <:+ part ++ rest) :
    ahead <:+ rest ∨
      ∃ first others, ahead = first :: others ++ rest ∧ first :: others <:+ part := by
  obtain ⟨passed, hpassed⟩ := h
  rcases List.append_eq_append_iff.mp hpassed with ⟨left, rfl, rfl⟩ | ⟨skipped, -, rfl⟩
  · cases left with
    | nil => exact .inl List.suffix_rfl
    | cons first others => exact .inr ⟨first, others, rfl, List.suffix_append _ _⟩
  · exact .inl (List.suffix_append _ _)

def PartOf (language : List String → Prop) (part : List Xml.Element) : Prop :=
  part = [] ∨ language (part.map Xml.Element.name)

def Fits (schema : Schema) (model : List Particle) (child : Xml.Element) : Prop :=
  ∀ particle ∈ model, ∀ path node declaration, particle.ElementAt schema path node →
    declaredName schema node = .ok child.name →
    Schema.followReference schema.element node = .ok declaration →
    ValidFor schema declaration child

/-- The run takes the instance at least as far as any split does, and without a message
if the instance is valid. Names of the particles occur behind the part only inside of a
repeatable group. -/
def Reconciles (schema : Schema) (language : List String → Prop) (model : List Particle)
    (repeated : Bool) (state : BuildState) (forms : List Form) (after : BuildState) : Prop :=
  ∀ part rest, PartOf language part → state.ahead <:+ part ++ rest →
    (repeated = true ∨ ∀ element ∈ rest, ¬Named schema model element.name) →
    after.ahead <:+ rest ∧
      ((∀ child ∈ state.ahead, Fits schema model child) → ∀ form ∈ forms, form.Unremarked)

def Silent (state : BuildState) (forms : List Form) (after : BuildState) : Prop :=
  state.ahead = [] → after.ahead = [] ∧ ∀ form ∈ forms, form.Unremarked

theorem silent_additive : Build.Additive Silent where
  nothing := fun _ hstate => ⟨hstate, by simp⟩
  append := by
    intro state middle after before rest hbefore hrest hstate
    obtain ⟨hmiddle, hfirst⟩ := hbefore hstate
    obtain ⟨hafter, hsecond⟩ := hrest hmiddle
    exact ⟨hafter, List.forall_mem_append.mpr ⟨hfirst, hsecond⟩⟩

theorem Reconciles.silent {schema : Schema} {language : List String → Prop}
    {model : List Particle} {repeated : Bool} {state after : BuildState} {forms : List Form}
    (h : Reconciles schema language model repeated state forms after) :
    Silent state forms after := by
  intro hstate
  obtain ⟨hafter, hforms⟩ := h [] [] (.inl rfl) (by simp [hstate]) (.inr (by simp))
  exact ⟨List.suffix_nil.mp hafter, hforms (by simp [hstate])⟩

structure Level.Reconciles (level : Level) (schema : Schema) : Prop where
  advancing : level.Advancing
  attributes : level.AttributesOnly
  particle : ∀ context atLeast particle path, context.schema = schema →
    PlainModel schema [particle] →
    (level.particle context atLeast particle path).Ensures
      (SchemaForms.Reconciles schema (particle.Word schema) [particle] context.repeated)

section

variable {schema : Schema}

theorem PartOf.names {model : List Particle} {language : List String → Prop}
    (hlanguage : ∀ word, language word → ∀ name ∈ word, Named schema model name)
    {part : List Xml.Element} (h : PartOf language part) :
    ∀ element ∈ part, Named schema model element.name := by
  rcases h with rfl | h
  · simp
  · exact fun element helement => hlanguage _ h _ (List.mem_map_of_mem helement)

theorem Fits.mono {model some : List Particle} {child : Xml.Element} (h : Fits schema model child)
    (hsub : some ⊆ model) : Fits schema some child :=
  fun particle hparticle => h particle (hsub hparticle)

theorem unnamed_mono {model some : List Particle} {repeated : Bool} {rest : List Xml.Element}
    (h : repeated = true ∨ ∀ element ∈ rest, ¬Named schema model element.name)
    (hsub : some ⊆ model) :
    repeated = true ∨ ∀ element ∈ rest, ¬Named schema some element.name :=
  h.imp_right fun h element helement hnamed => h element helement (hnamed.mono hsub)

theorem Fits.members {compositor : Compositor} {node : Xml.Element} {bounds : Bounds}
    {child : Xml.Element} (h : Fits schema [.group compositor node bounds] child)
    {members : List Particle} (hmembers : Particle.members schema node = .ok members) :
    Fits schema members child := by
  intro member hmember path target declaration hat
  obtain ⟨index, hindex⟩ := List.mem_iff_getElem?.mp hmember
  exact h _ (List.mem_singleton_self _) (index :: path) target declaration
    (.member hmembers hindex hat)

/-! ## Elements -/

namespace Cursor

variable {cursor : Cursor} {name : String} {limit : MaxOccurs}

theorem allows_run : limit.allows (cursor.run name limit).length = true :=
  MaxOccurs.allows_of_le (List.length_take_le _ _) (MaxOccurs.allows_cap _ _)

theorem length_run_le_countP :
    (cursor.run name limit).length ≤ cursor.ahead.countP (·.name == name) := by
  have hall : ∀ element ∈ cursor.run name limit, (element.name == name) = true :=
    fun element helement => by simpa using (Cursor.mem_run helement).2
  rw [← List.countP_eq_length.mpr hall]
  exact List.Sublist.countP_le
    ((List.take_sublist _ _).trans (List.takeWhile_sublist _))

theorem le_length_run {part rest : List Xml.Element} (hahead : cursor.ahead = part ++ rest)
    (hpart : ∀ element ∈ part, element.name = name) (hallows : limit.allows part.length = true) :
    part.length ≤ (cursor.run name limit).length := by
  have hnamed : cursor.ahead.takeWhile (·.name == name) =
      part ++ rest.takeWhile (·.name == name) := by
    rw [hahead, List.takeWhile_append_of_pos fun element helement => by
      simpa using hpart element helement]
  have hlength : part.length ≤ (cursor.ahead.takeWhile (·.name == name)).length := by
    rw [hnamed, List.length_append]
    exact Nat.le_add_right _ _
  rw [run, List.length_take]
  exact Nat.le_min.mpr ⟨MaxOccurs.le_cap hlength hallows, hlength⟩

theorem takeRun_suffix {part rest : List Xml.Element} (hahead : cursor.ahead <:+ part ++ rest)
    (hpart : ∀ element ∈ part, element.name = name) (hallows : limit.allows part.length = true) :
    (cursor.takeRun name limit).2.ahead <:+ rest := by
  rcases suffix_append_cases hahead with hpast | ⟨first, others, hsplit, hleft⟩
  · exact (cursor.ahead_takeRun_suffix name limit).trans hpast
  · have hlength := le_length_run hsplit (fun element helement => hpart element
      (hleft.subset helement)) (MaxOccurs.allows_of_le hleft.length_le hallows)
    simp only [takeRun]
    rw [hsplit, List.drop_append, List.drop_eq_nil_of_le hlength, List.nil_append]
    exact List.drop_suffix _ _

theorem length_run_le {part rest : List Xml.Element} (hahead : cursor.ahead <:+ part ++ rest)
    (hrest : ∀ element ∈ rest, element.name ≠ name) :
    (cursor.run name limit).length ≤ part.length := by
  have hnone : rest.countP (·.name == name) = 0 :=
    List.countP_eq_zero.mpr fun element helement => by simpa using hrest element helement
  calc (cursor.run name limit).length
      ≤ cursor.ahead.countP (·.name == name) := length_run_le_countP
    _ ≤ (part ++ rest).countP (·.name == name) := hahead.sublist.countP_le
    _ = part.countP (·.name == name) := by rw [List.countP_append, hnone, Nat.add_zero]
    _ ≤ part.length := List.countP_le_length

end Cursor

theorem PartOf.element {node : Xml.Element} {bounds : Bounds} {name : String}
    (hname : declaredName schema node = .ok name) {part : List Xml.Element}
    (h : PartOf ((Particle.element node bounds).Word schema) part) :
    (∀ element ∈ part, element.name = name) ∧ bounds.max.allows part.length = true := by
  rcases h with rfl | h
  · exact ⟨by simp, MaxOccurs.allows_of_le (Nat.zero_le _) bounds.allows_min⟩
  · generalize hword : part.map Xml.Element.name = word at h
    cases h with
    | element hother hadmits =>
        cases hname.symm.trans hother
        have hlength := congrArg List.length hword
        rw [List.length_map, List.length_replicate] at hlength
        refine ⟨fun element helement => ?_, hlength ▸ hadmits.max⟩
        exact List.eq_of_mem_replicate (hword ▸ List.mem_map_of_mem helement)

theorem ValidFor.children {declaration occurrence definition : Xml.Element}
    {model : List Particle} (h : ValidFor schema declaration occurrence)
    (htype : Declaration.contentType schema declaration = .ok (.complex definition))
    (hmodel : contentModel schema definition = .ok model) (hunique : UniqueNames schema model) :
    PartOf (SequenceWord schema model) occurrence.elements ∧
      (∀ child ∈ occurrence.elements, Fits schema model child) ∧
      (hasSimpleContent definition = true → occurrence.elements = []) := by
  cases h with
  | simpleType hsimple hnone => cases htype.symm.trans hsimple
  | simpleContent hcomplex hsimple hnone =>
      exact ⟨.inl hnone, by simp [hnone], fun _ => hnone⟩
  | complexContent declarations hcomplex hsimple hother hword hdeclared hvalid =>
      cases htype.symm.trans hcomplex
      cases hmodel.symm.trans hother
      refine ⟨.inr hword, fun child hchild => ?_, fun hcontent => ?_⟩
      · intro particle hparticle path node declaration hat hname hreference
        obtain ⟨others, target, htarget, htargetName, htargetReference⟩ := hdeclared child hchild
        obtain ⟨index, hindex⟩ := List.mem_iff_getElem?.mp hparticle
        have hpath : index :: path = others :=
          hunique _ _ _ _ _ ⟨index, path, particle, rfl, hindex, hat⟩ hname htarget htargetName
        obtain ⟨_, _, found, rfl, hfound, hin⟩ := htarget
        obtain ⟨rfl, rfl⟩ := List.cons.inj hpath
        cases hindex.symm.trans hfound
        cases hat.eq hin
        cases hreference.symm.trans htargetReference
        exact hvalid child hchild
      · rw [hsimple] at hcontent
        cases hcontent

theorem contentValue_eq_none {definition occurrence : Xml.Element} {after : BuildState}
    (hsimple : hasSimpleContent definition = true → occurrence.elements = [])
    (hahead : after.ahead = []) : (contentValue definition after (some occurrence)).2 = none := by
  simp only [contentValue, hahead]
  split
  · rename_i hcontent
    simp [simpleText, hsimple hcontent]
  · rfl

/-! ## Sequences -/

theorem PartOf.cons {particle : Particle} {model : List Particle} {part : List Xml.Element}
    (h : PartOf (SequenceWord schema (particle :: model)) part) :
    ∃ first others, part = first ++ others ∧ PartOf (particle.Word schema) first ∧
      PartOf (SequenceWord schema model) others := by
  rcases h with rfl | h
  · exact ⟨[], [], rfl, .inl rfl, .inl rfl⟩
  · generalize hword : part.map Xml.Element.name = word at h
    cases h with
    | cons hfirst hothers =>
        obtain ⟨first, others, rfl, rfl, rfl⟩ := List.map_eq_append_iff.mp hword
        exact ⟨first, others, rfl, .inr hfirst, .inr hothers⟩

theorem SequenceRun.reconciles {level : Level} (hlevel : level.Reconciles schema)
    {context : Context} (hcontext : context.schema = schema) {path : String}
    {model : List Particle} (hmodel : PlainModel schema model) {state after : BuildState}
    {forms : List Form} (hrun : SequenceRun level context path model state forms after) :
    SchemaForms.Reconciles schema (SequenceWord schema model) model context.repeated state forms
      after := by
  induction hrun with
  | nil =>
      intro part rest hpart hahead _
      have hnone : part = [] := by
        rcases hpart with hnone | hword
        · exact hnone
        · generalize hnames : part.map Xml.Element.name = names at hword
          cases hword
          exact List.map_eq_nil_iff.mp hnames
      rw [hnone, List.nil_append] at hahead
      exact ⟨hahead, by simp⟩
  | attributes hmade _ ih =>
      intro part rest hpart hahead hrest
      obtain ⟨hafter, hforms⟩ := ih hmodel part rest hpart hahead hrest
      refine ⟨hafter, fun hfits form hform => ?_⟩
      rcases List.mem_append.mp hform with hform | hform
      · exact (hmade form hform).unremarked
      · exact hforms hfits form hform
  | @cons particle others state middle after made forms hmade hothers ih =>
      intro part rest hpart hahead hrest
      obtain ⟨-, -, hdisjoint⟩ := uniqueNames_cons.mp hmodel.unique
      have hhead : [particle] ⊆ particle :: others := by simp
      obtain ⟨first, second, rfl, hfirst, hsecond⟩ := hpart.cons
      rw [List.append_assoc] at hahead
      have hsecondNames : ∀ element ∈ second, Named schema others element.name :=
        hsecond.names fun word hword => hword.names
      obtain ⟨hmiddle, hmadeForms⟩ := hlevel.particle _ _ particle _ hcontext
        (hmodel.of_mem List.mem_cons_self) _ _ _ hmade first (second ++ rest) hfirst hahead (by
          refine (unnamed_mono hrest hhead).imp_right fun hrest element helement hnamed => ?_
          rcases List.mem_append.mp helement with helement | helement
          · exact hdisjoint _ (named_singleton.mp hnamed) (hsecondNames element helement)
          · exact hrest element helement hnamed)
      obtain ⟨hafter, hothersForms⟩ := ih hmodel.tail second rest hsecond hmiddle
        (unnamed_mono hrest (List.subset_cons_self _ _))
      refine ⟨hafter, fun hfits form hform => ?_⟩
      rcases List.mem_append.mp hform with hform | hform
      · exact hmadeForms (fun child hchild => (hfits child hchild).mono hhead) form hform
      · have hadvances := hlevel.advancing _ _ _ _ _ _ _ hmade
        exact hothersForms (fun child hchild => (hfits child (hadvances.ahead.subset hchild)).mono
          (List.subset_cons_self _ _)) form hform

/-! ## Occurrences -/

section

variable {deeper : Option Level} {context : Context} {path : String}
  (hschema : schema.Grounded) (hunique : schema.NamesUnique) (hcontext : context.schema = schema)
  (hdeeper : ∀ level ∈ deeper, level.Reconciles schema)
include hschema hunique hcontext hdeeper

theorem elementContent_reconciles {declaration : Declaration}
    (howns : schema.Owns declaration.element)
    (htype : Declaration.contentType schema declaration.element = .ok declaration.content)
    {occurrence : Option Xml.Element}
    (hvalid : ∀ element ∈ occurrence, ValidFor schema declaration.element element)
    {content : ComplexContent}
    (hcontent : elementContent deeper context declaration path occurrence = .ok content) :
    content.mismatch = none ∧ ∀ child ∈ content.children, child.Unremarked := by
  rcases elementContent_eq_ok.mp hcontent with ⟨hsimple, rfl⟩ |
    ⟨definition, level, children, after, hcomplex, hlevel, -, hitems, rfl⟩
  · rw [hsimple] at htype
    cases occurrence with
    | none => exact ⟨rfl, by simp [simpleContent]⟩
    | some element =>
        have hnone : element.elements = [] := by
          cases hvalid element rfl with
          | simpleType _ hnone => exact hnone
          | simpleContent hcomplex => cases htype.symm.trans hcomplex
          | complexContent _ hcomplex => cases htype.symm.trans hcomplex
        simp [simpleContent, simpleText, hnone]
  · rw [hcomplex] at htype
    obtain ⟨howns, hname⟩ := Declaration.contentType_eq_ok hschema howns htype
    have hlevel := hdeeper level hlevel
    have hinner : (context.insideType definition).schema = schema := hcontext
    obtain ⟨model, hmodel, hrun⟩ := buildItems_eq_ok hlevel.attributes hitems
    rw [hinner] at hmodel
    have hplain := PlainModel.of_definition hschema hunique howns hname hmodel
    have hreconciles := hrun.reconciles hlevel hinner hplain
    cases occurrence with
    | none =>
        exact ⟨rfl, (hreconciles.silent rfl).2⟩
    | some element =>
        obtain ⟨hpart, hfits, hsimple⟩ := (hvalid element rfl).children htype hmodel hplain.unique
        obtain ⟨hafter, hforms⟩ := hreconciles element.elements [] hpart
          (by rw [List.append_nil]; exact List.suffix_rfl) (.inr (by simp))
        exact ⟨contentValue_eq_none hsimple (List.suffix_nil.mp hafter), hforms hfits⟩

theorem CompiledFrom.unremarked {declaration : Declaration}
    (howns : schema.Owns declaration.element)
    (htype : Declaration.contentType schema declaration.element = .ok declaration.content)
    {bounds : Bounds} {occurrence : Option Xml.Element}
    (hvalid : ∀ element ∈ occurrence, ValidFor schema declaration.element element) {form : Form}
    (h : CompiledFrom deeper context declaration bounds none occurrence form) :
    form.Unremarked := by
  obtain ⟨place, content, hcontent, rfl⟩ := h
  obtain ⟨hmismatch, hchildren⟩ :=
    elementContent_reconciles hschema hunique hcontext hdeeper howns htype hvalid hcontent
  exact remarksIn_elementForm.mpr ⟨by simp [hmismatch], hchildren⟩

theorem buildElement_reconciles {node : Xml.Element} (howns : schema.Owns node)
    (bounds : Bounds) (atLeast : Nat) :
    (buildElement deeper context node bounds atLeast path).Ensures
      (Reconciles schema ((Particle.element node bounds).Word schema)
        [.element node bounds] context.repeated) := by
  intro state forms after hrun part rest hpart hahead hrest
  have hadvances := buildElement_advancing _ _ _ _ _ _ hrun
  obtain ⟨declaration, hdeclaration, hrun⟩ := buildElement_eq_ok.mp hrun
  rw [hcontext] at hdeclaration
  obtain ⟨hreference, hname, htype, -⟩ := Declaration.ofParticle_eq_ok hdeclaration
  have hdeclared : declaredName schema node = .ok declaration.name :=
    bind_eq_ok.mpr ⟨_, hreference, hname⟩
  have hunremarked : ∀ occurrence form,
      (∀ element ∈ occurrence, ValidFor schema declaration.element element) →
      CompiledFrom deeper context declaration bounds none occurrence form → form.Unremarked :=
    fun occurrence form hvalid hfrom => hfrom.unremarked hschema hunique hcontext hdeeper
      (Declaration.owns_of_ofParticle hschema howns hdeclaration) htype hvalid
  obtain ⟨hnames, hallows⟩ := hpart.element hdeclared
  cases hcursor : state.cursor with
  | none =>
      obtain ⟨-, hafter, hall⟩ := buildDeclared_eq_ok_of_none hcursor hrun
      exact ⟨by simp [BuildState.ahead, hafter],
        fun _ form hform => hunremarked none form (by simp) (hall form hform)⟩
  | some cursor =>
      obtain ⟨made, copies, rfl, hmade, -, hcopies, hafter⟩ :=
        buildDeclared_eq_ok_of_some hcursor hrun
      have hstate : state.ahead = cursor.ahead := by simp only [BuildState.ahead, hcursor]
      rw [hstate] at hahead ⊢
      have htaken : bounds.max.allows
          (cursor.run declaration.name (takingLimit context bounds)).length = true := by
        rcases hrest with hrepeated | hrest
        · have hlimit : takingLimit context bounds = bounds.max := by simp [takingLimit, hrepeated]
          rw [hlimit]
          exact Cursor.allows_run
        · refine MaxOccurs.allows_of_le (Cursor.length_run_le hahead fun element helement hsame =>
            hrest element helement ⟨_, List.mem_singleton_self _, ?_⟩) hallows
          exact Particle.names_element.mpr (hsame ▸ hdeclared)
      refine ⟨?_, fun hfits form hform => ?_⟩
      · simp only [BuildState.ahead, hafter]
        exact Cursor.takeRun_suffix hahead hnames (allows_takingLimit hallows)
      · rcases List.mem_append.mp hform with hform | hform
        · obtain ⟨⟨occurrence, index⟩, hin, hfrom⟩ := exists_of_forall₂ hmade hform
          have hindex := List.snd_lt_of_mem_zipIdx hin
          rw [surplusError_eq_none.mpr (MaxOccurs.allows_of_le hindex htaken)] at hfrom
          obtain ⟨hoccurrence, hsame⟩ := Cursor.mem_run (List.fst_mem_of_mem_zipIdx hin)
          refine hunremarked (some occurrence) form (fun element helement => ?_) hfrom
          cases helement
          exact hfits occurrence hoccurrence _ (List.mem_singleton_self _) [] node
            declaration.element .element (hsame ▸ hdeclared) hreference
        · exact hunremarked none form (by simp) (hcopies form hform)

end

/-! ## Choices -/

section

variable {level : Level} {context : Context} {path : String}
  (hlevel : level.Reconciles schema) (hcontext : context.schema = schema)
include hlevel hcontext

theorem alternatives_reconcile {matched selected : Option Nat} {members : List Particle}
    (hmodel : ∀ member ∈ members, PlainModel schema [member]) {start : Nat}
    {state after : BuildState} {forms : List Form}
    (hrun : Build.all ((members.zipIdx start).map fun numbered =>
      buildAlternative level context path matched selected numbered.1 numbered.2) state =
        .ok (forms, after))
    (part : List Xml.Element) {rest : List Xml.Element} (hahead : state.ahead <:+ part ++ rest)
    (hpart : ∀ index member, matched = some (start + index) → members[index]? = some member →
      PartOf (member.Word schema) part)
    (hrest : context.repeated = true ∨ ∀ element ∈ rest, ¬Named schema members element.name) :
    after.ahead <:+ state.ahead ∧
      (∀ index < members.length, matched = some (start + index) → after.ahead <:+ rest) ∧
      ((∀ child ∈ state.ahead, Fits schema members child) →
        ∀ form ∈ forms, form.Unremarked) := by
  induction members generalizing start state forms part with
  | nil =>
      obtain ⟨rfl, rfl⟩ := Build.nothing_eq_ok.mp hrun
      exact ⟨List.suffix_rfl, by simp, by simp⟩
  | cons member others ih =>
      obtain ⟨made, middle, more, hmade, hothers, rfl⟩ := Build.andThen_eq_ok.mp hrun
      have hmember := hmodel member List.mem_cons_self
      have hlater : ∀ other ∈ others, PlainModel schema [other] :=
        fun other hother => hmodel other (List.mem_cons_of_mem _ hother)
      have hhead : [member] ⊆ member :: others := by simp
      have htail : others ⊆ member :: others := List.subset_cons_self _ _
      obtain ⟨single, rfl, ⟨hmatched, hsingle⟩ | ⟨hmatched, last, hlast, rfl⟩⟩ :=
        buildAlternative_eq_ok.mp hmade
      · have hadvances := hlevel.advancing _ _ _ _ _ _ _ hsingle
        obtain ⟨hmiddle, hforms⟩ := hlevel.particle _ _ _ _ hcontext hmember _ _ _ hsingle part rest
          (hpart 0 member hmatched rfl) hahead (unnamed_mono hrest hhead)
        obtain ⟨hafter, -, hmore⟩ := ih hlater hothers [] hmiddle
          (fun _ _ _ _ => .inl rfl) (unnamed_mono hrest htail)
        refine ⟨hafter.trans hadvances.ahead, fun _ _ _ => hafter.trans hmiddle,
          fun hfits form hform => ?_⟩
        rcases List.mem_append.mp hform with hform | hform
        · obtain ⟨original, horiginal, rfl⟩ := List.mem_map.mp hform
          exact (Form.remarksIn_select _ _).mpr
            (hforms (fun child hchild => (hfits child hchild).mono hhead) original horiginal)
        · exact hmore (fun child hchild =>
            (hfits child (hadvances.ahead.subset hchild)).mono htail) form hform
      · obtain ⟨-, hforms⟩ := (hlevel.particle _ _ _ _ hcontext hmember _ _ _ hlast).silent rfl
        obtain ⟨hafter, htaken, hmore⟩ := ih hlater hothers part hahead
          (fun index other hindex hother => hpart (index + 1) other
            (by rw [hindex, Nat.add_assoc, Nat.add_comm 1]) hother) (unnamed_mono hrest htail)
        refine ⟨hafter, fun index hlt hindex => ?_, fun hfits form hform => ?_⟩
        · cases index with
          | zero => exact (hmatched hindex).elim
          | succ index =>
              rw [List.length_cons] at hlt
              exact htaken index (by omega) (by rw [hindex, Nat.add_assoc, Nat.add_comm 1])
        · rcases List.mem_append.mp hform with hform | hform
          · obtain ⟨original, horiginal, rfl⟩ := List.mem_map.mp hform
            exact (Form.remarksIn_select _ _).mpr (hforms original horiginal)
          · exact hmore (fun child hchild => (hfits child hchild).mono htail) form hform

theorem buildChoice_reconciles {members : List Particle} (hmodel : PlainModel schema members) :
    (buildChoice level context members path).Ensures
      (SchemaForms.Reconciles schema (InstantiationWord schema .choice members) members
        context.repeated) := by
  intro state forms after hrun part rest hpart hahead hrest
  obtain ⟨matched, hmatched, hall⟩ := Build.ofFault_eq_ok.mp hrun
  rw [hcontext] at hmatched
  have hmembers : ∀ member ∈ members, PlainModel schema [member] :=
    fun member hmember => hmodel.of_mem hmember
  rcases suffix_append_cases hahead with hpast | ⟨first, others, hsplit, hleft⟩
  · obtain ⟨hafter, -, hforms⟩ := alternatives_reconcile hlevel hcontext hmembers hall
      [] hpast (fun _ _ _ _ => .inl rfl) hrest
    exact ⟨hafter.trans hpast, hforms⟩
  · have hfirst : first ∈ part := hleft.subset List.mem_cons_self
    rcases hpart with rfl | hword
    · cases hfirst
    · generalize hnames : part.map Xml.Element.name = names at hword
      cases hword with
      | noAlternative =>
          rw [List.map_eq_nil_iff.mp hnames] at hfirst
          cases hfirst
      | @alternative _ member _ hmember hword =>
          have hnamed : member.Names schema first.name :=
            hword.names _ (hnames ▸ List.mem_map_of_mem hfirst)
          have hnext : state.next? = some first := by
            rw [BuildState.next?_eq_head?, hsplit]
            rfl
          rw [hnext] at hmatched
          obtain ⟨position, hposition⟩ := List.mem_iff_getElem?.mp hmember
          have hindex := hmodel.unique.alternativeFor_eq hposition hnamed hmatched
          obtain ⟨-, htaken, hforms⟩ := alternatives_reconcile hlevel hcontext hmembers hall part
            hahead
            (fun index other hother hfound => by
              rw [hindex, Nat.zero_add, Option.some.injEq] at hother
              subst hother
              cases hposition.symm.trans hfound
              exact .inr (hnames ▸ hword)) hrest
          refine ⟨htaken position ?_ (by rw [hindex, Nat.zero_add]), hforms⟩
          exact (List.getElem?_eq_some_iff.mp hposition).1

theorem buildMembers_reconciles {members : List Particle} (hmodel : PlainModel schema members)
    (compositor : Compositor) :
    (buildMembers level context compositor members path).Ensures
      (SchemaForms.Reconciles schema (InstantiationWord schema compositor members) members
        context.repeated) := by
  cases compositor with
  | sequence =>
      intro state forms after hrun part rest hpart
      refine (buildSequence_eq_ok hrun).reconciles hlevel hcontext hmodel part rest
        (hpart.imp_right fun hword => ?_)
      cases hword with
      | sequence hword => exact hword
  | choice => exact buildChoice_reconciles hlevel hcontext hmodel

theorem oneInstantiation_reconciles {members : List Particle}
    (hmodel : PlainModel schema members) (compositor : Compositor) (node : Xml.Element)
    (bounds : Bounds) :
    (oneInstantiation level context compositor members node bounds path).Ensures
      (SchemaForms.Reconciles schema (InstantiationWord schema compositor members) members
        (context.repeated || bounds.repeats)) := by
  intro state forms after hrun part rest hpart hahead hrest
  obtain ⟨children, last, hbuild, rfl, rfl⟩ := Build.grouped_eq_ok.mp hrun
  have hinner : (context.insideGroup node bounds).schema = schema := hcontext
  obtain ⟨hafter, hforms⟩ := buildMembers_reconciles hlevel hinner hmodel compositor _ _ _ hbuild
    part rest hpart hahead hrest
  refine ⟨hafter, fun hfits form hform => ?_⟩
  rw [List.mem_singleton.mp hform]
  exact remarksIn_groupForm.mpr (hforms hfits)

end

/-! ## Repetitions -/

/-- Of the parts that are left, those that the run is past are dropped. -/
theorem exists_current_part {α : Type} {ahead rest : List α} {parts : List (List α)}
    (h : ahead <:+ parts.flatten ++ rest) :
    ahead <:+ rest ∨ ∃ part left, part :: left <:+ parts ∧
      (∃ first others, ahead = first :: others ++ (left.flatten ++ rest) ∧
        first :: others <:+ part) := by
  induction parts with
  | nil => exact .inl h
  | cons part left ih =>
      rw [List.flatten_cons, List.append_assoc] at h
      rcases suffix_append_cases h with hpast | hcurrent
      · refine (ih hpast).imp_right ?_
        rintro ⟨found, others, hparts, hahead⟩
        exact ⟨found, others, hparts.trans (List.suffix_cons _ _), hahead⟩
      · exact .inr ⟨part, left, List.suffix_rfl, hcurrent⟩

theorem exists_parts_of_map_eq_flatten {α β : Type} {change : α → β} {list : List α}
    {words : List (List β)} (h : list.map change = words.flatten) :
    ∃ parts : List (List α), list = parts.flatten ∧ words = parts.map (List.map change) := by
  induction words generalizing list with
  | nil => exact ⟨[], List.map_eq_nil_iff.mp h, rfl⟩
  | cons word words ih =>
      obtain ⟨first, others, rfl, rfl, hothers⟩ := List.map_eq_append_iff.mp h
      obtain ⟨parts, rfl, rfl⟩ := ih hothers
      exact ⟨first :: parts, rfl, rfl⟩

section

variable {language : List String → Prop} {members : List Particle} {repeated : Bool}
  {bounds : Bounds} {names : List String} {parts : List (List Xml.Element)}
  {rest : List Xml.Element}

theorem suffix_of_endsAfter (hnames : ∀ name, name ∈ names ↔ Named schema members name)
    (hlanguage : ∀ word, language word → ∀ name ∈ word, Named schema members name)
    (hparts : ∀ part ∈ parts, PartOf language part) {state : BuildState}
    (hahead : state.ahead <:+ parts.flatten ++ rest) {count : Nat}
    (hcount : bounds.max.allows (count + parts.length) = true)
    (hends : endsAfter repeated names bounds count state.next? = true) : state.ahead <:+ rest := by
  rcases exists_current_part hahead with hpast | ⟨part, left, hsub, first, others, hsplit, hleft⟩
  · exact hpast
  · have hpart : part ∈ parts := hsub.subset List.mem_cons_self
    have hfirst : first.name ∈ names := by
      rw [hnames]
      exact (hparts part hpart).names hlanguage first (hleft.subset List.mem_cons_self)
    have hallows : bounds.max.allows (count + 1) = true := by
      have hlength := hsub.length_le
      rw [List.length_cons] at hlength
      exact MaxOccurs.allows_of_le (by omega) hcount
    have hnext : state.next? = some first := by
      rw [BuildState.next?_eq_head?, hsplit]
      rfl
    simp [endsAfter, hnext, hfirst, hallows] at hends

/-- Where a group goes on, the next instantiation is allowed, and begins in front of a
part, or past all of them. -/
theorem exists_next_part (hmax : bounds.max ≠ .count 0)
    (hnames : ∀ name, name ∈ names ↔ Named schema members name)
    (hparts : ∀ part ∈ parts, PartOf language part) {state : BuildState}
    (hahead : state.ahead <:+ parts.flatten ++ rest) {count : Nat}
    (hcount : bounds.max.allows (count + parts.length) = true)
    (hrest : repeated = true ∨ ∀ element ∈ rest, ¬Named schema members element.name)
    (hends : endsAfter repeated names bounds count state.next? = false) :
    ∃ part left, PartOf language part ∧ (∀ other ∈ left, PartOf language other) ∧
      bounds.max.allows (count + 1 + left.length) = true ∧
      state.ahead <:+ part ++ (left.flatten ++ rest) ∧
      (left = [] ∨ (left.flatten ++ rest).length < state.ahead.length) := by
  rcases exists_current_part hahead with hpast | ⟨part, left, hsub, first, others, hsplit, hleft⟩
  · refine ⟨[], [], .inl rfl, by simp, ?_, hpast, .inl rfl⟩
    rcases Nat.lt_or_ge count (requiredCount bounds) with hrequired | hrequired
    · exact allows_required hmax hrequired
    · simp only [endsAfter, hrequired, decide_true, Bool.true_and, Bool.or_eq_false_iff,
        Bool.not_eq_false', Option.any_eq_true, Bool.and_eq_false_iff] at hends
      obtain ⟨⟨element, hnext, hbegins⟩, hlimit⟩ := hends
      have hin : element ∈ rest := by
        rw [BuildState.next?_eq_head?] at hnext
        exact hpast.subset (List.mem_of_head? hnext)
      have hnamed : Named schema members element.name := (hnames _).mp (by simpa using hbegins)
      rcases hrest with hrepeated | hrest
      · simpa [hrepeated] using hlimit
      · exact (hrest element hin hnamed).elim
  · have hlength := hsub.length_le
    rw [List.length_cons] at hlength
    refine ⟨part, left, hparts part (hsub.subset List.mem_cons_self),
      fun other hother => hparts other (hsub.subset (List.mem_cons_of_mem _ hother)),
      MaxOccurs.allows_of_le (by omega) hcount, ?_, .inr ?_⟩
    · obtain ⟨passed, rfl⟩ := hleft
      exact ⟨passed, by rw [hsplit, List.append_assoc]⟩
    · simp only [hsplit, List.length_append, List.length_cons]
      omega

theorem repeatOver_reconciles {one : Build} (hadvances : one.Advancing)
    (hone : one.Ensures (Reconciles schema language members (repeated || bounds.repeats)))
    (hlanguage : ∀ word, language word → ∀ name ∈ word, Named schema members name)
    (hnames : ∀ name, name ∈ names ↔ Named schema members name)
    (hmax : bounds.max ≠ .count 0)
    (hrest : repeated = true ∨ ∀ element ∈ rest, ¬Named schema members element.name)
    {tag : String} {fuel count : Nat} {state after : BuildState} {forms : List Form}
    (hrun : repeatOver repeated names bounds tag one fuel count state = .ok (forms, after))
    (hfuel : requiredCount bounds - count + state.ahead.length ≤ fuel)
    (hparts : ∀ part ∈ parts, PartOf language part)
    (hcount : bounds.max.allows (count + parts.length) = true)
    (hahead : state.ahead <:+ parts.flatten ++ rest) :
    after.ahead <:+ rest ∧
      ((∀ child ∈ state.ahead, Fits schema members child) →
        ∀ form ∈ forms, form.Unremarked) := by
  -- Every instantiation goes past one part at least, so `parts` gets shorter with the fuel.
  induction fuel generalizing count state forms parts with
  | zero =>
      obtain ⟨rfl, rfl⟩ := Build.nothing_eq_ok.mp hrun
      have hnone : after.ahead = [] := List.length_eq_zero_iff.mp (by omega)
      exact ⟨hnone ▸ List.nil_suffix, by simp⟩
  | succ fuel ih =>
      simp only [repeatOver] at hrun
      split at hrun
      · rename_i hends
        cases hrun
        exact ⟨suffix_of_endsAfter hnames hlanguage hparts hahead hcount hends, by simp⟩
      rename_i hends
      rw [Bool.not_eq_true] at hends
      obtain ⟨part, left, hpart, hleft, hallows, hcurrent, hshort⟩ :=
        exists_next_part hmax hnames hparts hahead hcount hrest hends
      obtain ⟨before, middle, others, hbefore, hothers, rfl⟩ := Build.andThen_eq_ok.mp hrun
      obtain ⟨made, hmade, rfl⟩ := Build.mapForms_eq_ok.mp hbefore
      have hnosurplus : surplusError tag bounds.max (count + 1) = none :=
        surplusError_eq_none.mpr (MaxOccurs.allows_of_le (Nat.le_add_right _ _) hallows)
      have hinner : (repeated || bounds.repeats) = true ∨
          ∀ element ∈ left.flatten ++ rest, ¬Named schema members element.name := by
        rcases hrest with hrepeated | hrest
        · exact .inl (by rw [hrepeated, Bool.true_or])
        · cases hrepeats : bounds.repeats with
          | true => exact .inl (Bool.or_true _)
          | false =>
              have hle := Bounds.le_one_of_not_repeats hrepeats hallows
              have hnone : left = [] := List.length_eq_zero_iff.mp (by omega)
              exact .inr (by simpa [hnone] using hrest)
      obtain ⟨hmiddle, hmadeForms⟩ := hone _ _ _ hmade part _ hpart hcurrent hinner
      have hstep := hadvances _ _ _ hmade
      have hfirst : (∀ child ∈ state.ahead, Fits schema members child) →
          ∀ form ∈ made.map (remarkWith (surplusError tag bounds.max (count + 1))),
            form.Unremarked := by
        intro hfits form hform
        rw [hnosurplus] at hform
        obtain ⟨original, horiginal, rfl⟩ := List.mem_map.mp hform
        exact hmadeForms hfits original horiginal
      split at hothers
      · rename_i hlast
        cases hothers
        simp only [Bool.and_eq_true, decide_eq_true_eq] at hlast
        refine ⟨?_, by simpa using hfirst⟩
        -- It took nothing. That cannot be where a part was left to go past.
        rcases hshort with rfl | hshort
        · exact hmiddle
        · exact absurd hmiddle.length_le (by omega)
      · rename_i hgoes
        simp only [Bool.and_eq_true, decide_eq_true_eq, not_and] at hgoes
        have hlength := hstep.ahead.length_le
        obtain ⟨hafter, hothersForms⟩ := ih hothers (by omega) hleft hallows hmiddle
        refine ⟨hafter, fun hfits form hform => ?_⟩
        rcases List.mem_append.mp hform with hform | hform
        · exact hfirst hfits form hform
        · exact hothersForms (fun child hchild => hfits child (hstep.ahead.subset hchild))
            form hform

end

theorem PartOf.group {compositor : Compositor} {node : Xml.Element} {bounds : Bounds}
    {members : List Particle} (hmembers : Particle.members schema node = .ok members)
    {part : List Xml.Element}
    (h : PartOf ((Particle.group compositor node bounds).Word schema) part) :
    ∃ parts : List (List Xml.Element), part = parts.flatten ∧
      (∀ one ∈ parts, PartOf (InstantiationWord schema compositor members) one) ∧
      bounds.max.allows parts.length = true := by
  rcases h with rfl | h
  · exact ⟨[], rfl, by simp, MaxOccurs.allows_of_le (Nat.zero_le _) bounds.allows_min⟩
  · generalize hword : part.map Xml.Element.name = word at h
    cases h with
    | group hothers hadmits hwords =>
        cases hmembers.symm.trans hothers
        obtain ⟨parts, rfl, rfl⟩ := exists_parts_of_map_eq_flatten hword
        refine ⟨parts, rfl, fun one hone => .inr (hwords _ (List.mem_map_of_mem hone)), ?_⟩
        simpa using hadmits.max

section

variable {deeper : Option Level} {context : Context} {path : String}
  (hschema : schema.Grounded) (hcontext : context.schema = schema)
  (hdeeper : ∀ level ∈ deeper, level.Reconciles schema)
include hschema hcontext hdeeper

theorem buildGroup_reconciles {compositor : Compositor} {node : Xml.Element} {bounds : Bounds}
    (hmodel : PlainModel schema [.group compositor node bounds]) :
    (buildGroup deeper context compositor node bounds path).Ensures
      (Reconciles schema ((Particle.group compositor node bounds).Word schema)
        [.group compositor node bounds] context.repeated) := by
  intro state forms after hrun part rest hpart hahead hrest
  obtain ⟨level, members, hlevel, -, hmembers, hrun⟩ := buildGroup_eq_ok.mp hrun
  rw [hcontext] at hmembers
  have hlevel := hdeeper level hlevel
  have hplain := hmodel.members hschema hmembers
  obtain ⟨parts, rfl, hparts, hcount⟩ := hpart.group hmembers
  have hadvances : (oneInstantiation level context compositor members node bounds path).Advancing :=
    oneInstantiation_advancing hlevel.advancing compositor members node bounds
  have hone : (oneInstantiation level context compositor members node bounds path).Ensures
      (Reconciles schema (InstantiationWord schema compositor members) members
        (context.repeated || bounds.repeats)) :=
    oneInstantiation_reconciles hlevel hcontext hplain compositor node bounds
  have hnamed : ∀ name, Named schema [.group compositor node bounds] name ↔
      Named schema members name := fun name =>
    named_singleton.trans (Particle.names_group hmembers)
  have hfits : ∀ child, Fits schema [.group compositor node bounds] child →
      Fits schema members child := fun child hchild => hchild.members hmembers
  simp only [hnamed] at hrest
  simp only [instantiate] at hrun
  split at hrun
  · rename_i hmax
    cases hrun
    rw [hmax, MaxOccurs.allows, decide_eq_true_eq] at hcount
    rw [List.length_eq_zero_iff.mp (Nat.le_zero.mp hcount)] at hahead
    exact ⟨hahead, by simp⟩
  rename_i hmax
  split at hrun
  · rename_i hcursor
    have hsilent := Build.Ensures.all silent_additive (fun build hbuild => by
      rw [List.eq_of_mem_replicate hbuild]
      exact fun _ _ _ hmade => (hone _ _ _ hmade).silent) _ _ _ hrun
    obtain ⟨hafter, hforms⟩ := hsilent (by simp only [BuildState.ahead, hcursor])
    exact ⟨hafter ▸ List.nil_suffix, fun _ => hforms⟩
  · rename_i cursor hcursor
    obtain ⟨names, hfirst, hrepeat⟩ := Build.ofFault_eq_ok.mp hrun
    have hnames : ∀ name, name ∈ names ↔ Named schema members name := by
      intro name
      rw [← hnamed, named_singleton]
      exact mem_firstNames (hcontext ▸ hfirst)
    have hstate : state.ahead = cursor.ahead := by simp only [BuildState.ahead, hcursor]
    obtain ⟨hafter, hforms⟩ := repeatOver_reconciles hadvances hone
      (fun word hword => hword.names) hnames hmax hrest hrepeat
      (by rw [Nat.sub_zero, hstate]) hparts (by rwa [Nat.zero_add]) hahead
    exact ⟨hafter, fun hchildren => hforms fun child hchild => hfits child (hchildren child hchild)⟩

end

/-! ## Particles and forms -/

theorem buildParticle_reconciles {deeper : Option Level} (hschema : schema.Grounded)
    (hunique : schema.NamesUnique) (hdeeper : ∀ level ∈ deeper, level.Reconciles schema) :
    Level.Reconciles ⟨buildParticle deeper, buildAttributeEntry deeper⟩ schema where
  advancing := fun _ atLeast particle _ =>
    buildParticle_advancing (fun level hlevel => (hdeeper level hlevel).advancing) atLeast particle
  attributes :=
    buildAttributeEntry_attributesOnly fun level hlevel => (hdeeper level hlevel).attributes
  particle := by
    intro context atLeast particle path hcontext hmodel
    cases particle with
    | element node bounds =>
        exact buildElement_reconciles hschema hunique hcontext hdeeper
          (hmodel.ofSchema _ (List.mem_singleton_self _)).1 bounds atLeast
    | group compositor node bounds =>
        exact buildGroup_reconciles hschema hcontext hdeeper hmodel
    | attributeUse node =>
        intro state forms after hrun part rest hpart hahead _
        obtain ⟨rfl, hattributes⟩ := buildAttribute_attributesOnly _ _ _ _ _ _ _ hrun
        have hnone : part = [] := by
          rcases hpart with hnone | hword
          · exact hnone
          · generalize hnames : part.map Xml.Element.name = names at hword
            cases hword
            exact List.map_eq_nil_iff.mp hnames
        rw [hnone, List.nil_append] at hahead
        exact ⟨hahead, fun _ form hform => (hattributes form hform).unremarked⟩

theorem levelBelow_reconciles (hschema : schema.Grounded) (hunique : schema.NamesUnique)
    (depth : Nat) : ∀ level ∈ levelBelow depth, level.Reconciles schema :=
  level_induction (fun _ hdeeper => buildParticle_reconciles hschema hunique hdeeper) depth

end

/-- A valid instance leaves no message in the form, if no content model has a name twice. -/
theorem compileForm_unremarked_of_valid {source : Xml.Document} {schema : Schema}
    (hschema : Schema.ofDocument source = .ok schema) (hunique : schema.NamesUnique)
    {settings : Settings} {name : Option String} {element : Xml.Element}
    (hglobal : schema.selectGlobal name = .ok element) {document : Xml.Document}
    (hvalid : document.Valid schema element) {forms : RootForms}
    (hforms : compileForm schema settings name (some document) = .ok forms) :
    ∀ form ∈ forms.root :: forms.surplus, form.Unremarked := by
  have hgrounded := Schema.grounded_of_ofDocument hschema
  obtain ⟨other, root, after, hother, hbuild, hremarked⟩ := compileForm_eq_ok hforms
  cases hglobal.symm.trans hother
  obtain ⟨declaration, hreference, hroot⟩ := hvalid.root
  have hlevels := levelBelow_reconciles hgrounded hunique settings.maxDepth
  have howns := (Schema.selectGlobal_eq_ok hgrounded hglobal).1
  have hone : Bounds.single.Admits 1 := ⟨Nat.le_refl _, rfl⟩
  have hword : PartOf ((Particle.element element .single).Word schema) [document.root] :=
    .inr (.element hvalid.name hone)
  have hahead : (BuildState.start ((some document).map Xml.Document.holder)).ahead =
      [document.root] := by
    rw [← hvalid.single]
    exact document.holder_elements
  obtain ⟨hafter, hmade⟩ := buildElement_reconciles hgrounded hunique rfl hlevels howns
    .single 1 _ _ _ hbuild [document.root] [] hword
    (by rw [List.append_nil, hahead]) (.inr (by simp))
  have hfits : Fits schema [.element element .single] document.root := by
    intro particle hparticle path node target hat _ htarget
    rw [List.mem_singleton.mp hparticle] at hat
    cases hat
    cases hreference.symm.trans htarget
    exact hroot
  have hunremarked := hmade (by rw [hahead]; simpa using hfits)
  rw [List.forall_mem_cons] at hunremarked ⊢
  refine ⟨?_, hunremarked.2⟩
  rw [hremarked, rootError, List.suffix_nil.mp hafter]
  exact hunremarked.1

def albumDocument : Xml.Document :=
  .ofRoots (.plain "schema" [] [
    .plain "element" [("name", "album")] [
      .plain "complexType" [] [
        .plain "sequence" [] [
          .plain "sequence" [("maxOccurs", "3")] [
            .plain "element" [("name", "track"), ("maxOccurs", "2")] [],
            .plain "choice" [("minOccurs", "0")] [
              .plain "element" [("name", "note")] [],
              .plain "element" [("name", "mark")] []]],
          .plain "element" [("name", "cover"), ("minOccurs", "0")] []]]]]) []

def shortAlbum : Xml.Document :=
  .ofRoots (.plain "album" [] [
    .plain "track" [] [], .plain "track" [] [], .plain "mark" [] [], .plain "track" [] [],
    .plain "cover" [] []]) []

theorem albums_namesUnique : (Schema.given albumDocument).NamesUnique :=
  Schema.namesUnique_of_namesDiffer (by decide +kernel)

def albumDeclaration (child : Xml.Element) : Xml.Element :=
  albumDocument.node (if child.name = "track" then 5 else if child.name = "mark" then 8 else 9)

theorem shortAlbum_valid :
    shortAlbum.Valid (Schema.given albumDocument) (albumDocument.node 1) := by
  have hremarks : Particle.members (Schema.given albumDocument) (albumDocument.node 6) =
      .ok [.element (albumDocument.node 7) .single, .element (albumDocument.node 8) .single] := by
    decide +kernel
  have hside : Particle.members (Schema.given albumDocument) (albumDocument.node 4) =
      .ok [.element (albumDocument.node 5) ⟨1, .count 2, rfl⟩,
        .group .choice (albumDocument.node 6) ⟨0, .count 1, rfl⟩] := by decide +kernel
  have halbum : Particle.members (Schema.given albumDocument) (albumDocument.node 3) =
      .ok [.group .sequence (albumDocument.node 4) ⟨1, .count 3, rfl⟩,
        .element (albumDocument.node 9) ⟨0, .count 1, rfl⟩] := by decide +kernel
  have htrack : Particle.Word (Schema.given albumDocument)
      (.element (albumDocument.node 5) ⟨1, .count 2, rfl⟩) (List.replicate 1 "track") :=
    .element (by decide +kernel) (by decide)
  have hmark : Particle.Word (Schema.given albumDocument)
      (.element (albumDocument.node 8) .single) (List.replicate 1 "mark") :=
    .element (by decide +kernel) (by decide)
  have hcover : Particle.Word (Schema.given albumDocument)
      (.element (albumDocument.node 9) ⟨0, .count 1, rfl⟩) (List.replicate 1 "cover") :=
    .element (by decide +kernel) (by decide)
  have hnoRemark : Particle.Word (Schema.given albumDocument)
      (.group .choice (albumDocument.node 6) ⟨0, .count 1, rfl⟩)
      (List.flatten ([] : List (List String))) :=
    .group hremarks (by decide) (by simp)
  have hremark : Particle.Word (Schema.given albumDocument)
      (.group .choice (albumDocument.node 6) ⟨0, .count 1, rfl⟩) (List.flatten [["mark"]]) :=
    .group hremarks (by decide)
      (by simpa using .alternative (List.mem_cons_of_mem _ List.mem_cons_self) hmark)
  have hplain : InstantiationWord (Schema.given albumDocument) .sequence _ ["track"] :=
    .sequence (.cons htrack (.cons hnoRemark .nil))
  have hremarked : InstantiationWord (Schema.given albumDocument) .sequence _ ["track", "mark"] :=
    .sequence (.cons htrack (.cons hremark .nil))
  have hsides : Particle.Word (Schema.given albumDocument)
      (.group .sequence (albumDocument.node 4) ⟨1, .count 3, rfl⟩)
      (List.flatten [["track"], ["track", "mark"], ["track"]]) :=
    .group hside (by decide) (by simpa using ⟨hplain, hremarked, hplain⟩)
  have hwhole : Particle.Word (Schema.given albumDocument)
      (.group .sequence (albumDocument.node 3) .single)
      (List.flatten [["track", "track", "mark", "track", "cover"]]) :=
    .group halbum (by decide) (by simpa using .sequence (.cons hsides (.cons hcover .nil)))
  have hmodel : contentModel (Schema.given albumDocument) (albumDocument.node 2) =
      .ok [.group .sequence (albumDocument.node 3) .single] := by decide +kernel
  have htype : Declaration.contentType (Schema.given albumDocument) (albumDocument.node 1) =
      .ok (.complex (albumDocument.node 2)) := by decide +kernel
  have hchildren : shortAlbum.root.elements =
      [shortAlbum.node 1, shortAlbum.node 2, shortAlbum.node 3, shortAlbum.node 4,
        shortAlbum.node 5] := by decide +kernel
  have htrackAt : ModelElementAt (Schema.given albumDocument)
      [.group .sequence (albumDocument.node 3) .single] [0, 0, 0] (albumDocument.node 5) :=
    ⟨0, _, _, rfl, rfl, .member halbum rfl (.member hside rfl .element)⟩
  have hmarkAt : ModelElementAt (Schema.given albumDocument)
      [.group .sequence (albumDocument.node 3) .single] [0, 0, 1, 1] (albumDocument.node 8) :=
    ⟨0, _, _, rfl, rfl, .member halbum rfl (.member hside rfl (.member hremarks rfl .element))⟩
  have hcoverAt : ModelElementAt (Schema.given albumDocument)
      [.group .sequence (albumDocument.node 3) .single] [0, 1] (albumDocument.node 9) :=
    ⟨0, _, _, rfl, rfl, .member halbum rfl .element⟩
  refine ⟨by decide +kernel, rfl, _, by decide +kernel, .complexContent albumDeclaration htype
    (by decide +kernel) hmodel (.cons hwhole .nil) ?_ ?_⟩ <;> rw [hchildren] <;>
    simp only [List.forall_mem_cons, List.not_mem_nil, false_imp_iff, implies_true, and_true]
  · exact ⟨⟨_, _, htrackAt, by decide +kernel, by decide +kernel⟩,
      ⟨_, _, htrackAt, by decide +kernel, by decide +kernel⟩,
      ⟨_, _, hmarkAt, by decide +kernel, by decide +kernel⟩,
      ⟨_, _, htrackAt, by decide +kernel, by decide +kernel⟩,
      ⟨_, _, hcoverAt, by decide +kernel, by decide +kernel⟩⟩
  · exact ⟨.simpleType (by decide +kernel) (by decide +kernel),
      .simpleType (by decide +kernel) (by decide +kernel),
      .simpleType (by decide +kernel) (by decide +kernel),
      .simpleType (by decide +kernel) (by decide +kernel),
      .simpleType (by decide +kernel) (by decide +kernel)⟩

theorem shortAlbum_unremarked :
    (Schema.given albumDocument).NamesUnique ∧
      shortAlbum.Valid (Schema.given albumDocument) (albumDocument.node 1) ∧
      ∃ forms, compileForm (Schema.given albumDocument) .default none (some shortAlbum) =
          .ok forms ∧
        ∀ form ∈ forms.root :: forms.surplus, form.Unremarked := by
  have hcompiles : (compileForm (Schema.given albumDocument) .default none
      (some shortAlbum)).toOption.any (fun _ => true) = true := by decide +kernel
  obtain ⟨forms, hforms, -⟩ := exists_of_checked hcompiles
  exact ⟨albums_namesUnique, shortAlbum_valid, forms, hforms,
    compileForm_unremarked_of_valid (Schema.ofDocument_eq_given (by decide +kernel))
      albums_namesUnique (by decide +kernel) shortAlbum_valid hforms⟩

end SchemaForms
