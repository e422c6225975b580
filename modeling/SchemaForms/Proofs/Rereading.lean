import SchemaForms.Proofs.Occurrences
import SchemaForms.Proofs.Progress
import SchemaForms.Proofs.RereadGroups

/-!
# Rereading elements

What is written for the nodes of an element particle is taken by it again, and the content of
each node is reopened: its attributes, its text and the items of its type.
-/

namespace SchemaForms

/-! ## Attributes -/

def AttributesFit (occurrence : Xml.Element) (forms : List Form) : Prop :=
  ∀ form ∈ forms, form.label.kind = .attributeUse →
    occurrence.attribute? form.label.tag = form.label.value

structure RereadsAttributes (schema : Schema) (entries : List Xml.Element)
    (build : Option Xml.Element → Build) (state : BuildState) (forms : List Form) : Prop where
  names : AttributeNames schema entries (forms.map (·.label.tag))
  again : ∀ occurrence cursor, AttributesFit occurrence forms →
    build (some occurrence) (state.over cursor) = .ok (forms, state.over cursor)

structure Level.Rereads (level : Level) (schema : Schema) : Prop where
  advancing : level.Advancing
  attributes : level.AttributesOnly
  leaves : level.LeavesAbsent
  finds : level.Finds schema
  kind : ∀ context atLeast particle path, (∀ node, particle ≠ .attributeUse node) →
    (level.particle context atLeast particle path).Ensures
      (Build.Each fun form => form.label.kind ≠ .attributeUse)
  particle : ∀ context atLeast particle path, context.schema = schema →
    ModelReopens schema context.repeated [particle] →
    ∃ closed, SchemaForms.Rereads Form.surfaceAll (particle.Names schema) context.repeated
      (atLeast = 0) closed (level.particle context atLeast particle path)
  entry : ∀ context entry path occurrence state forms after, context.schema = schema →
    level.attributeEntry context entry path occurrence state = .ok (forms, after) →
    RereadsAttributes schema [entry] (level.attributeEntry context entry path) state forms

section

variable {schema : Schema} {level : Level} {context : Context} {path : String}
  {given : Option Xml.Element} {state after : BuildState} {forms : List Form}
  (hlevel : level.Rereads schema) (hcontext : context.schema = schema)
include hlevel hcontext

theorem attributeEntries_reread {entries : List Xml.Element}
    (hrun : Build.all (entries.map fun entry => level.attributeEntry context entry path given)
      state = .ok (forms, after)) :
    RereadsAttributes schema entries (fun occurrence =>
      .all (entries.map fun entry => level.attributeEntry context entry path occurrence)) state
      forms := by
  induction entries generalizing forms with
  | nil =>
      obtain ⟨rfl, rfl⟩ := Build.nothing_eq_ok.mp hrun
      exact ⟨.nil, fun _ _ _ => rfl⟩
  | cons entry rest ih =>
      obtain ⟨made, middle, others, hmade, hothers, rfl⟩ := Build.andThen_eq_ok.mp hrun
      obtain ⟨rfl, -⟩ := hlevel.attributes _ _ _ _ _ _ _ hmade
      have hfirst := hlevel.entry _ _ _ _ _ _ _ hcontext hmade
      have hrest := ih hothers
      refine ⟨?_, fun occurrence cursor hfit => ?_⟩
      · rw [List.map_append]
        exact hfirst.names.append hrest.names
      · have hmadeFit := hfirst.again occurrence cursor
          fun form hform => hfit form (List.mem_append_left _ hform)
        have hothersFit := hrest.again occurrence cursor
          fun form hform => hfit form (List.mem_append_right _ hform)
        exact Build.andThen_eq_ok.mpr ⟨made, _, others, hmadeFit, hothersFit, rfl⟩

theorem buildItem_rereads {item : Xml.Element} (hmodel : item.name ∉ modelItems)
    (hrun : buildItem level context item path given state = .ok (forms, after)) :
    RereadsAttributes schema (attributeEntries item) (buildItem level context item path) state
      forms := by
  by_cases hattribute : item.name = "attribute" ∨ item.name = "attributeGroup"
  · have hentries : attributeEntries item = [item] := by
      rcases hattribute with hname | hname <;> simp [attributeEntries, hname]
    have hbuild : buildItem level context item path = level.attributeEntry context item path :=
      funext fun occurrence => buildItem_of_attribute hattribute path occurrence
    rw [hbuild] at hrun ⊢
    rw [hentries]
    exact hlevel.entry _ _ _ _ _ _ _ hcontext hrun
  by_cases hsimple : item.name = "simpleContent"
  · have hbuild : buildItem level context item path = fun occurrence =>
        .all ((item.elements.flatMap (·.elements)).map fun entry =>
          level.attributeEntry context entry path occurrence) := by
      funext occurrence
      rw [buildItem_of_simpleContent hsimple, buildSimpleContent, List.map_flatMap]
    rw [hbuild] at hrun ⊢
    rw [attributeEntries, if_pos hsimple]
    exact attributeEntries_reread hlevel hcontext hrun
  by_cases hignored : item.name = "annotation" ∨ item.name = "anyAttribute"
  · have hbuild : buildItem level context item path = fun _ => .nothing :=
      funext fun occurrence => buildItem_of_ignored hignored path occurrence
    rw [hbuild] at hrun ⊢
    obtain ⟨rfl, -⟩ := Build.nothing_eq_ok.mp hrun
    rw [attributeEntries, if_neg hsimple]
    rw [not_or] at hattribute
    exact ⟨.other hattribute.1 hattribute.2 .nil, fun _ _ _ => rfl⟩
  · have hunsupported : item.name ∉ supportedItems := by
      simp [mem_supportedItems, hmodel, hattribute, hsimple, hignored]
    rw [buildItem_of_unsupported hunsupported] at hrun
    cases hrun

end

/-! ## Items of types -/

theorem named_cons {schema : Schema} {particle : Particle} {rest : List Particle} {name : String} :
    particle.Names schema name ∨ Named schema rest name ↔
      Named schema (particle :: rest) name := by
  rw [Named, Named, List.exists_mem_cons_iff]

section

variable {schema : Schema} {level : Level} {context : Context} {path : String}
  {given : Option Xml.Element} {state after : BuildState} {forms : List Form}
  (hlevel : level.Rereads schema) (hcontext : context.schema = schema)
include hlevel hcontext

theorem buildItems_named {items : List Xml.Element} {model : List Particle}
    (hmodel : Particle.membersOf schema
      (items.filter fun item => modelItems.contains item.name) = .ok model)
    (hreopens : ModelReopens schema context.repeated model)
    (hrun : Build.all (items.map fun item => buildItem level context item path given) state =
      .ok (forms, after)) :
    ∀ form ∈ Form.surfaceAll forms, Named schema model form.label.tag := by
  induction items generalizing model state forms with
  | nil =>
      obtain ⟨rfl, -⟩ := Build.nothing_eq_ok.mp hrun
      intro form hform
      cases hform
  | cons item rest ih =>
      obtain ⟨made, middle, others, hmade, hothers, rfl⟩ := Build.andThen_eq_ok.mp hrun
      rw [Form.surfaceAll_append, List.forall_mem_append]
      by_cases hname : item.name ∈ modelItems
      · rw [List.filter_cons_of_pos (by simpa using hname)] at hmodel
        obtain ⟨particle, particles, hfound, hparticles, rfl⟩ :=
          Particle.membersOf_cons_eq_ok hname hmodel
        obtain ⟨closed, hparticle⟩ := hlevel.particle context 0 particle path hcontext
          (hreopens.of_mem List.mem_cons_self)
        rw [← hcontext] at hfound
        have hbuilt : level.particle context 0 particle path state = .ok (made, middle) :=
          buildItem_of_particle hname hfound path given ▸ hmade
        refine ⟨fun form hform => named_cons.mp (.inl (hparticle.named _ _ _ hbuilt form hform)),
          fun form hform => named_cons.mp (.inr ?_)⟩
        exact ih hparticles hreopens.tail hothers form hform
      · rw [List.filter_cons_of_neg (by simpa using hname)] at hmodel
        refine ⟨fun form hform => ?_, ih hmodel hreopens hothers⟩
        rcases buildItem_eq_ok hlevel.attributes hmade with ⟨hin, -⟩ | ⟨-, -, hattributes⟩
        · exact (hname hin).elim
        · rw [Form.surfaceAll_of_attributeUses fun form hform => (hattributes form hform).kind]
            at hform
          cases hform

theorem buildItems_reopens {occurrence : Xml.Element} {items : List Xml.Element}
    {model : List Particle}
    (hmodel : Particle.membersOf schema
      (items.filter fun item => modelItems.contains item.name) = .ok model)
    (hreopens : ModelReopens schema context.repeated model)
    (hrun : Build.all (items.map fun item => buildItem level context item path given) state =
      .ok (forms, after))
    {cursor : Cursor} {written rest : List Xml.Element} (hahead : cursor.ahead = written ++ rest)
    (hwritten : List.Forall₂ Form.WrittenAs (Form.surfaceAll forms) written)
    (hrest : ∀ next ∈ rest.head?, ¬Named schema model next.name)
    (hfit : AttributesFit occurrence forms) :
    (Build.all (items.map fun item => buildItem level context item path (some occurrence))).Reopens
      state forms after cursor rest := by
  induction items generalizing model state forms cursor written with
  | nil =>
      obtain ⟨rfl, rfl⟩ := Build.nothing_eq_ok.mp hrun
      cases hwritten
      rw [List.nil_append] at hahead
      subst hahead
      exact ⟨[], rfl, .nil⟩
  | cons item items ih =>
      obtain ⟨made, middle, others, hmade, hothers, rfl⟩ := Build.andThen_eq_ok.mp hrun
      rw [Form.surfaceAll_append] at hwritten
      obtain ⟨part, left, rfl, hpart, hleft⟩ := exists_append_of_forall₂ hwritten
      rw [List.append_assoc] at hahead
      have hfitMade : AttributesFit occurrence made :=
        fun form hform => hfit form (List.mem_append_left _ hform)
      have hfitOthers : AttributesFit occurrence others :=
        fun form hform => hfit form (List.mem_append_right _ hform)
      by_cases hname : item.name ∈ modelItems
      · rw [List.filter_cons_of_pos (by simpa using hname)] at hmodel
        obtain ⟨particle, particles, hfound, hparticles, rfl⟩ :=
          Particle.membersOf_cons_eq_ok hname hmodel
        obtain ⟨closed, hparticle⟩ := hlevel.particle context 0 particle path hcontext
          (hreopens.of_mem List.mem_cons_self)
        obtain ⟨-, -, hdisjoint⟩ := uniqueNames_cons.mp hreopens.plain.unique
        have hnamed := buildItems_named hlevel hcontext hparticles hreopens.tail hothers
        rw [← hcontext] at hfound
        have hbuilt : level.particle context 0 particle path state = .ok (made, middle) :=
          buildItem_of_particle hname hfound path given ▸ hmade
        have hfirst := hparticle.rereads _ _ _ hbuilt cursor part (left ++ rest) hahead hpart
          (fun next hnext hbegins => by
            cases left with
            | nil => exact (hrest next hnext (named_cons.mp (.inl hbegins))).elim
            | cons head tail =>
                obtain ⟨form, hform, htag⟩ := exists_head_of_writtenAs hleft hnext
                exact (hdisjoint _ hbegins
                  (htag ▸ hnamed form (List.mem_of_mem_head? hform))).elim) (.inl rfl)
        rw [List.map_cons, buildItem_of_particle hname hfound]
        exact hfirst.andThen (ih hparticles hreopens.tail hothers rfl hleft
          (fun next hnext hbegins => hrest next hnext (named_cons.mp (.inr hbegins))) hfitOthers)
      · rw [List.filter_cons_of_neg (by simpa using hname)] at hmodel
        rcases buildItem_eq_ok hlevel.attributes hmade with ⟨hin, -⟩ | ⟨-, rfl, hattributes⟩
        · exact (hname hin).elim
        rw [Form.surfaceAll_of_attributeUses fun form hform => (hattributes form hform).kind]
          at hpart
        cases hpart
        rw [List.nil_append] at hahead
        have hfirst : (buildItem level context item path (some occurrence)).Reopens middle made
            middle cursor cursor.ahead :=
          ⟨made, (buildItem_rereads hlevel hcontext hname hmade).again _ _ hfitMade,
            Form.reopenedAs_self made⟩
        exact hfirst.andThen (ih hmodel hreopens hothers hahead hleft hrest hfitOthers)

theorem buildItems_attributeNames {items : List Xml.Element} {model : List Particle}
    (hmodel : Particle.membersOf schema
      (items.filter fun item => modelItems.contains item.name) = .ok model)
    (huses : ∀ particle ∈ model, ∀ node, particle ≠ .attributeUse node)
    (hrun : Build.all (items.map fun item => buildItem level context item path given) state =
      .ok (forms, after)) :
    AttributeNames schema (items.flatMap attributeEntries)
      ((forms.filter fun form => form.label.kind == .attributeUse).map (·.label.tag)) := by
  induction items generalizing model state forms with
  | nil =>
      obtain ⟨rfl, -⟩ := Build.nothing_eq_ok.mp hrun
      exact .nil
  | cons item rest ih =>
      obtain ⟨made, middle, others, hmade, hothers, rfl⟩ := Build.andThen_eq_ok.mp hrun
      rw [List.flatMap_cons, List.filter_append, List.map_append]
      by_cases hname : item.name ∈ modelItems
      · rw [List.filter_cons_of_pos (by simpa using hname)] at hmodel
        obtain ⟨particle, particles, hfound, hparticles, rfl⟩ :=
          Particle.membersOf_cons_eq_ok hname hmodel
        rw [← hcontext] at hfound
        have hparticle : level.particle context 0 particle path state = .ok (made, middle) :=
          buildItem_of_particle hname hfound path given ▸ hmade
        have hkind :=
          hlevel.kind _ _ _ _ (huses particle List.mem_cons_self) _ _ _ hparticle
        have hnone : made.filter (fun form => form.label.kind == .attributeUse) = [] :=
          List.filter_eq_nil_iff.mpr fun form hform => by simpa using hkind form hform
        rw [hnone]
        refine AttributeNames.append ?_ (ih hparticles (fun other hother =>
          huses other (List.mem_cons_of_mem _ hother)) hothers)
        simp only [modelItems, List.mem_cons, List.not_mem_nil, or_false] at hname
        rw [attributeEntries, if_neg (by rintro hsimple; simp [hsimple] at hname)]
        exact .other (by rintro hother; simp [hother] at hname)
          (by rintro hother; simp [hother] at hname) .nil
      · rw [List.filter_cons_of_neg (by simpa using hname)] at hmodel
        rcases buildItem_eq_ok hlevel.attributes hmade with ⟨hin, -⟩ | ⟨-, -, hattributes⟩
        · exact (hname hin).elim
        · have hall : made.filter (fun form => form.label.kind == .attributeUse) = made :=
            List.filter_eq_self.mpr fun form hform => by simp [(hattributes form hform).kind]
          rw [hall]
          exact (buildItem_rereads hlevel hcontext hname hmade).names.append
            (ih hmodel huses hothers)

end

theorem Form.WrittenAs.attributesFit {form : Form} {element : Xml.Element}
    (h : form.WrittenAs element)
    (hnodup : ((form.children.filter fun child => child.label.kind == .attributeUse).map
      (·.label.tag)).Nodup) : AttributesFit element form.children := by
  cases h with
  | intro _ hattributes _ _ =>
      have hmem : ∀ name value, element.attribute? name = some value ↔
          ∃ child ∈ form.children, child.label.kind = .attributeUse ∧ child.label.tag = name ∧
            child.label.value = some value := by
        intro name value
        rw [hattributes, Form.writtenAttributes, List.mem_filterMap]
        refine exists_congr fun child => and_congr_right fun _ => ?_
        by_cases hkind : child.label.kind = .attributeUse
        · simp [Form.writtenAttribute?, hkind, and_comm]
        · simp [Form.writtenAttribute?, hkind]
      intro child hchild hkind
      cases hvalue : child.label.value with
      | some value => exact (hmem _ _).mpr ⟨child, hchild, hkind, rfl, hvalue⟩
      | none =>
          rw [Option.eq_none_iff_forall_ne_some]
          intro value hfound
          obtain ⟨other, hother, hotherKind, htag, hotherValue⟩ := (hmem _ _).mp hfound
          have hsame : other = child := List.inj_on_of_nodup_map hnodup
            (List.mem_filter.mpr ⟨hother, by simpa using hotherKind⟩)
            (List.mem_filter.mpr ⟨hchild, by simpa using hkind⟩) htag
          rw [hsame, hvalue] at hotherValue
          cases hotherValue

/-! ## Occurrences -/

theorem simpleText_of_written {occurrence : Xml.Element} {value : Option String}
    (hnone : occurrence.elements = []) (htext : occurrence.text = value.getD "")
    (hvalue : ∀ text, value = some text → Text.isBlank text = false) :
    simpleText occurrence = .ok value := by
  cases value with
  | none =>
      rw [Option.getD_none] at htext
      simp [simpleText, hnone, htext]
  | some text =>
      rw [Option.getD_some] at htext
      simp [simpleText, hnone, htext, hvalue text rfl]

theorem notBlank_of_simpleText {occurrence : Xml.Element} {text : String}
    (h : simpleText occurrence = .ok (some text)) : Text.isBlank text = false := by
  unfold simpleText at h
  split at h
  · split at h
    · cases h
    · rename_i hblank
      cases h
      exact Bool.eq_false_iff.mpr hblank
  · cases h

theorem notBlank_of_simpleContent {declaration : Declaration} {given : Option Xml.Element}
    (hdeclared : ∀ text, declaration.value = some text → Text.isBlank text = false)
    {text : String} (hvalue : (simpleContent declaration given).value = some text) :
    Text.isBlank text = false := by
  cases given with
  | none => exact hdeclared text hvalue
  | some occurrence =>
      simp only [simpleContent] at hvalue
      split at hvalue
      · rename_i hread
        exact notBlank_of_simpleText (hread.trans (congrArg Except.ok hvalue))
      · cases hvalue

theorem notBlank_of_contentValue {definition : Xml.Element} {after : BuildState}
    {given : Option Xml.Element} {text : String}
    (hvalue : (contentValue definition after given).1 = some text) : Text.isBlank text = false := by
  cases given with
  | none => cases hvalue
  | some occurrence =>
      simp only [contentValue] at hvalue
      split at hvalue
      · split at hvalue
        · rename_i hread
          exact notBlank_of_simpleText (hread.trans (congrArg Except.ok hvalue))
        · cases hvalue
      · split at hvalue <;> cases hvalue

theorem contentValue_of_complex {definition : Xml.Element} {after : BuildState}
    {given : Option Xml.Element} (hcomplex : hasSimpleContent definition = false) :
    (contentValue definition after given).1 = none := by
  cases given with
  | none => rfl
  | some occurrence =>
      simp only [contentValue, hcomplex, Bool.false_eq_true, if_false]
      split <;> rfl

theorem contentValue_of_written {definition occurrence : Xml.Element} {after : BuildState}
    {value : Option String}
    (hsimple : hasSimpleContent definition = true → simpleText occurrence = .ok value)
    (hcomplex : hasSimpleContent definition = false → value = none ∧ after.ahead = []) :
    contentValue definition after (some occurrence) = (value, none) := by
  cases hcontent : hasSimpleContent definition with
  | true => simp only [contentValue, hcontent, if_true, hsimple hcontent]
  | false =>
      obtain ⟨rfl, hahead⟩ := hcomplex hcontent
      simp only [contentValue, hcontent, Bool.false_eq_true, if_false, hahead]

theorem Form.writtenAs_of_remarkWith {error : Option Mismatch} {form : Form}
    {element : Xml.Element} (h : (remarkWith error form).WrittenAs element) :
    form.WrittenAs element := by
  cases error with
  | none => exact h
  | some error =>
      have hremarked : (form.mapOptions (·.remark error.message)).WrittenAs element := h
      exact hremarked.of_mapOptions

theorem simpleContent_reopens {declaration : Declaration} {given : Option Xml.Element}
    (hdeclared : ∀ text, declaration.value = some text → Text.isBlank text = false)
    {bounds : Bounds} {place : String} {occurrence : Xml.Element}
    (hwritten : (elementForm declaration bounds place given
      (simpleContent declaration given)).WrittenAs occurrence) :
    (simpleContent declaration given).ReopenedAs (simpleContent declaration (some occurrence)) := by
  have hnode := Form.writtenAs_of_remarkWith hwritten
  have hempty : (simpleContent declaration given).children = [] := by
    cases given with
    | none => rfl
    | some element =>
        simp only [simpleContent]
        split <;> rfl
  rw [hempty] at hnode
  cases hnode with
  | intro _ _ htext helements =>
      have hnone : occurrence.elements = [] := List.forall₂_nil_left_iff.mp helements
      have hread : simpleText occurrence = .ok (simpleContent declaration given).value :=
        simpleText_of_written hnone (htext rfl) fun _ => notBlank_of_simpleContent hdeclared
      have hagain : simpleContent declaration (some occurrence) =
          ⟨(simpleContent declaration given).value, [], none⟩ := by
        simp only [simpleContent, hread]
      rw [hagain]
      refine ⟨rfl, ?_, rfl⟩
      rw [hempty]
      exact .nil

section

variable {schema : Schema} (hgrounded : schema.Grounded) (hschema : schema.Reopenable)
  {context : Context} (hcontext : context.schema = schema)
include hgrounded hschema hcontext

theorem complexContent_reopens {level : Level} (hlevel : level.Rereads schema)
    {definition : Xml.Element} (howns : schema.Owns definition)
    (hname : definition.name = "complexType") {path : String} {given : Option Xml.Element}
    {children : List Form} {after : BuildState}
    (hitems : buildItems level (context.insideType definition) definition path given
      (.start given) = .ok (children, after))
    {declaration : Declaration} {bounds : Bounds} {place : String} {occurrence : Xml.Element}
    (hwritten : (elementForm declaration bounds place given
      ⟨(contentValue definition after given).1, children,
        (contentValue definition after given).2⟩).WrittenAs occurrence) :
    ∃ reopened, buildItems level (context.insideType definition) definition path
        (some occurrence) (.start (some occurrence)) =
          .ok (reopened, after.over ⟨occurrence, []⟩) ∧
      contentValue definition (after.over ⟨occurrence, []⟩) (some occurrence) =
        ((contentValue definition after given).1, none) ∧
      List.Forall₂ Form.ReopenedAs children reopened := by
  have hnode := Form.writtenAs_of_remarkWith hwritten
  have hinner : (context.insideType definition).schema = schema := hcontext
  obtain ⟨model, hmodel, -⟩ := buildItems_eq_ok hlevel.attributes hitems
  rw [hinner] at hmodel
  have hreopens : ModelReopens schema (context.insideType definition).repeated model :=
    .of_definition hgrounded hschema howns hname hmodel
  have hnames := buildItems_attributeNames hlevel hinner hmodel
    (fun particle hparticle node hsame =>
      hschema.noAttributeUse node (hsame ▸ hreopens.uses particle hparticle)) hitems
  have hfit := hnode.attributesFit (hschema.attributesDiffer _ howns hname _ hnames)
  have hnamed := buildItems_named hlevel hinner hmodel hreopens hitems
  cases hnode with
  | intro _ _ htext helements =>
      obtain ⟨reopened, hreopened, hforms⟩ := buildItems_reopens hlevel hinner hmodel hreopens
        hitems (List.append_nil (Cursor.ofParent occurrence).ahead).symm helements (by simp) hfit
      refine ⟨reopened, hreopened, ?_, hforms⟩
      refine contentValue_of_written (fun hsimple => ?_)
        fun hcomplex => ⟨contentValue_of_complex hcomplex, rfl⟩
      have hnoItems : definition.elements.filter (fun item => modelItems.contains item.name) =
          [] := List.filter_eq_nil_iff.mpr fun item hitem => by
        simpa using hschema.simple _ howns hname hsimple item hitem
      rw [contentModel, hnoItems] at hmodel
      cases hmodel
      have hnoContent : Form.surfaceAll children = [] :=
        List.eq_nil_iff_forall_not_mem.mpr fun form hform => by
          obtain ⟨_, hmember, -⟩ := hnamed form hform
          cases hmember
      have hnoElements :
          List.Forall₂ Form.WrittenAs (Form.surfaceAll children) occurrence.elements := helements
      rw [hnoContent] at hnoElements
      exact simpleText_of_written (List.forall₂_nil_left_iff.mp hnoElements) (htext hnoContent)
        fun _ => notBlank_of_contentValue

end

section

variable {schema : Schema} {deeper : Option Level} {context : Context}
  {declaration : Declaration} (hgrounded : schema.Grounded) (hschema : schema.Reopenable)
  (hcontext : context.schema = schema) (hdeeper : ∀ level ∈ deeper, level.Rereads schema)
  (howns : schema.Owns declaration.element) (hname : declaration.element.name = "element")
  (htype : Declaration.contentType schema declaration.element = .ok declaration.content)
  (hvalue : declaration.value = constrainedValue declaration.element)
include hgrounded hschema hcontext hdeeper howns hname htype hvalue

theorem elementContent_reopens {path place : String} {bounds : Bounds}
    {given : Option Xml.Element} {content : ComplexContent}
    (hcontent : elementContent deeper context declaration path given = .ok content)
    {occurrence : Xml.Element}
    (hwritten : (elementForm declaration bounds place given content).WrittenAs occurrence) :
    ∃ again, elementContent deeper context declaration path (some occurrence) = .ok again ∧
      content.ReopenedAs again := by
  rcases elementContent_eq_ok.mp hcontent with ⟨hsimple, rfl⟩ |
    ⟨definition, level, children, after, hcomplex, hlevel, -, hitems, rfl⟩
  · rw [hsimple] at htype
    refine ⟨_, elementContent_eq_ok.mpr (.inl ⟨hsimple, rfl⟩),
      simpleContent_reopens (fun text htext => ?_) hwritten⟩
    exact hschema.leafValues _ howns hname htype text (hvalue ▸ htext)
  · rw [hcomplex] at htype
    obtain ⟨howns, hname⟩ := Declaration.contentType_eq_ok hgrounded howns htype
    obtain ⟨reopened, hreopened, hread, hforms⟩ := complexContent_reopens hgrounded hschema
      hcontext (hdeeper level hlevel) howns hname hitems hwritten
    refine ⟨_, elementContent_eq_ok.mpr (.inr ⟨definition, level, reopened, _, hcomplex, hlevel,
      .inl rfl, hreopened, rfl⟩), ?_⟩
    rw [hread]
    exact ⟨rfl, hforms, rfl⟩

theorem buildTaken_reopens {bounds : Bounds} {path : String} {forms : List Form}
    {written : List Xml.Element} (hwritten : List.Forall₂ Form.WrittenAs forms written)
    {start : Nat} {state : BuildState}
    (hforms : ∀ index form, forms[index]? = some form → ∃ given,
      CompiledAt deeper context declaration bounds path (state.nextPlace declaration.name + index)
        (surplusError declaration.name bounds.max (start + index + 1)) given form) :
    ∃ reopened, Build.all ((written.zipIdx start).map fun numbered =>
        (buildOccurrence deeper context declaration bounds path (some numbered.1)).mapForms
          (remarkWith (surplusError declaration.name bounds.max (numbered.2 + 1)))) state =
        .ok (reopened,
          { state with
            steps := List.replicate written.length declaration.name ++ state.steps }) ∧
      List.Forall₂ Form.ReopenedAs forms reopened := by
  induction hwritten generalizing start state with
  | nil => exact ⟨[], rfl, .nil⟩
  | @cons form occurrence rest others hfirst _ ih =>
      obtain ⟨given, content, hcontent, rfl⟩ := hforms 0 _ rfl
      rw [Nat.add_zero] at hcontent hfirst
      obtain ⟨again, hagain, hsame⟩ := elementContent_reopens hgrounded hschema hcontext hdeeper
        howns hname htype hvalue hcontent (Form.writtenAs_of_remarkWith hfirst)
      obtain ⟨reopened, hreopened, hothers⟩ :=
        @ih (start + 1) (state.givePlace declaration.name) fun index form hform => by
          rw [BuildState.nextPlace_givePlace, Nat.add_assoc, Nat.add_comm 1, Nat.add_assoc start,
            Nat.add_comm 1 index]
          exact hforms (index + 1) form hform
      have hplaces : List.replicate (others.length + 1) declaration.name ++ state.steps =
          List.replicate others.length declaration.name ++
            (state.givePlace declaration.name).steps := by
        rw [List.replicate_succ', List.append_assoc]
        rfl
      refine ⟨_, ?_, .cons ((hsame.elementForm declaration bounds _ given
        (some occurrence)).remarkWith _) hothers⟩
      rw [List.length_cons, hplaces]
      exact Build.andThen_eq_ok.mpr ⟨[_], _, reopened, Build.mapForms_eq_ok.mpr
        ⟨[_], buildOccurrence_eq_ok.mpr ⟨again, hagain, rfl, rfl⟩, rfl⟩, hreopened, rfl⟩

end

/-! ## Elements -/

/-- A run takes what is written, if its name does not follow, or the limit is reached. -/
theorem Cursor.takeRun_eq {cursor : Cursor} {name : String} {limit : MaxOccurs}
    {written rest : List Xml.Element} (hahead : cursor.ahead = written ++ rest)
    (hwritten : ∀ element ∈ written, element.name = name)
    (hallows : limit.allows written.length = true)
    (hrest : ∀ next ∈ rest.head?, next.name = name → limit.allows (written.length + 1) = false) :
    cursor.takeRun name limit = (written, { cursor with ahead := rest }) := by
  have hnamed : cursor.ahead.takeWhile (·.name == name) =
      written ++ rest.takeWhile (·.name == name) := by
    rw [hahead, List.takeWhile_append_of_pos fun element helement => by
      simpa using hwritten element helement]
  have hcap : limit.cap (cursor.ahead.takeWhile (·.name == name)).length = written.length := by
    rw [hnamed, List.length_append]
    refine MaxOccurs.cap_eq (Nat.le_add_right _ _) hallows ?_
    cases rest with
    | nil => exact .inl rfl
    | cons next others =>
        by_cases hsame : next.name = name
        · exact .inr (hrest next rfl hsame)
        · refine .inl ?_
          rw [List.takeWhile_cons_of_neg (by simpa using hsame)]
          rfl
  have hrun : cursor.run name limit = written := by
    rw [Cursor.run, hcap, hnamed, List.take_left]
  rw [Cursor.takeRun, hrun, hahead, List.drop_left]

theorem MaxOccurs.cap_eq_self {limit : MaxOccurs} {total : Nat}
    (h : limit.allows (limit.cap total + 1) = true) : limit.cap total = total := by
  cases limit with
  | unbounded => rfl
  | count limit =>
      rw [allows, decide_eq_true_eq, cap] at h
      rw [cap]
      omega

theorem Cursor.takeRun_stops {cursor : Cursor} {name : String} {limit : MaxOccurs}
    {next : Xml.Element} (hnext : next ∈ (cursor.takeRun name limit).2.next?)
    (hname : next.name = name) : limit.allows ((cursor.run name limit).length + 1) = false := by
  rw [Bool.eq_false_iff]
  intro hallows
  have hlength : (cursor.run name limit).length =
      limit.cap (cursor.ahead.takeWhile (·.name == name)).length := by
    rw [Cursor.run, List.length_take, Nat.min_eq_left (MaxOccurs.cap_le _ _)]
  have hwhole := hlength.trans (MaxOccurs.cap_eq_self (hlength ▸ hallows))
  have hleft : (cursor.takeRun name limit).2.ahead = cursor.ahead.dropWhile (·.name == name) :=
    calc (cursor.takeRun name limit).2.ahead
        = cursor.ahead.drop (cursor.ahead.takeWhile (·.name == name)).length := by
          rw [← hwhole]
          rfl
      _ = (cursor.ahead.takeWhile (·.name == name) ++
            cursor.ahead.dropWhile (·.name == name)).drop
              (cursor.ahead.takeWhile (·.name == name)).length := by
          rw [List.takeWhile_append_dropWhile]
      _ = cursor.ahead.dropWhile (·.name == name) := List.drop_left
  have hother := List.head?_dropWhile_not (fun element : Xml.Element => element.name == name)
    cursor.ahead
  rw [Cursor.next?, hleft] at hnext
  rw [Option.mem_def.mp hnext] at hother
  simp [hname] at hother

theorem le_copiesWithoutInstance {context : Context} {declaration : Declaration}
    {bounds : Bounds} {atLeast : Nat}
    (h : atLeast = 0 ∨ copiesWithoutInstance context declaration bounds atLeast ≠ 0) :
    max bounds.min atLeast ≤ copiesWithoutInstance context declaration bounds atLeast := by
  have hinitial : bounds.min ≤ initialCount bounds context.settings.placeholder := by
    unfold initialCount
    split
    · rename_i htemplate
      simp only [Bool.and_eq_true, decide_eq_true_eq] at htemplate
      omega
    · exact Nat.le_refl _
  unfold copiesWithoutInstance at h ⊢
  cases hcontent : declaration.content with
  | simple =>
      simp only
      omega
  | complex definition =>
      simp only [hcontent] at h ⊢
      split
      · rename_i hinside
        simp only [hinside, if_true, ne_eq, not_true_eq_false, or_false] at h
        simp only [Bool.and_eq_true, decide_eq_true_eq] at hinside
        omega
      · omega

theorem copiesWithoutInstance_eq_zero {context : Context} {declaration : Declaration}
    {bounds : Bounds} {atLeast : Nat} (hfixed : bounds.Fixed)
    (hnone : max bounds.min atLeast = 0) :
    copiesWithoutInstance context declaration bounds atLeast = 0 := by
  have hinitial : initialCount bounds context.settings.placeholder = 0 := by
    unfold initialCount
    split
    · rename_i htemplate
      simp only [Bool.and_eq_true, decide_eq_true_eq] at htemplate
      rcases hfixed with hrepeats | hcount
      · rw [Bounds.repeats, htemplate.1.2] at hrepeats
        cases hrepeats
      · rw [htemplate.1.2] at hcount
        cases hcount
    · omega
  unfold copiesWithoutInstance
  cases declaration.content with
  | simple => simp only [hinitial]; omega
  | complex definition =>
      simp only [hinitial]
      split <;> omega

def GivesPlaces (name : String) (state : BuildState) (forms : List Form)
    (after : BuildState) : Prop :=
  after.steps = List.replicate forms.length name ++ state.steps

theorem givesPlaces_additive (name : String) : Build.Additive (GivesPlaces name) where
  nothing := fun _ => rfl
  append := by
    intro state middle after before rest hbefore hrest
    rw [GivesPlaces, hrest, hbefore, List.length_append, Nat.add_comm, List.replicate_add,
      List.append_assoc]

section

variable {deeper : Option Level} {context : Context} {declaration : Declaration}
  {bounds : Bounds} {path : String} {atLeast : Nat}

theorem buildOccurrence_givesPlaces (occurrence : Option Xml.Element) :
    (buildOccurrence deeper context declaration bounds path occurrence).Ensures
      (GivesPlaces declaration.name) := by
  intro state forms after hrun
  obtain ⟨content, -, rfl, rfl⟩ := buildOccurrence_eq_ok.mp hrun
  rfl

theorem buildDeclared_givesPlaces :
    (buildDeclared deeper context declaration bounds atLeast path).Ensures
      (GivesPlaces declaration.name) := by
  have hcopies : ∀ count, (buildCopies deeper context declaration bounds path count).Ensures
      (GivesPlaces declaration.name) := fun count =>
    .all (givesPlaces_additive _) fun build hbuild => by
      obtain ⟨-, rfl⟩ := List.mem_replicate.mp hbuild
      exact buildOccurrence_givesPlaces none
  have htaken : ∀ taken, (buildTaken deeper context declaration bounds path taken).Ensures
      (GivesPlaces declaration.name) := fun taken =>
    .all (givesPlaces_additive _) fun build hbuild => by
      obtain ⟨⟨occurrence, index⟩, -, rfl⟩ := List.mem_map.mp hbuild
      intro state forms after hrun
      obtain ⟨made, hmade, rfl⟩ := Build.mapForms_eq_ok.mp hrun
      have hplaces := buildOccurrence_givesPlaces _ _ _ _ hmade
      rwa [GivesPlaces, List.length_map]
  intro state forms after hrun
  cases hcursor : state.cursor with
  | none =>
      rw [buildDeclared, hcursor] at hrun
      exact hcopies _ _ _ _ hrun
  | some cursor =>
      simp only [buildDeclared, hcursor, Cursor.takeRun] at hrun
      have hplaces := Build.Ensures.andThen (givesPlaces_additive _) (htaken _) (hcopies _) _ _ _
        hrun
      exact hplaces

theorem buildDeclared_compiledAt :
    (buildDeclared deeper context declaration bounds (bounds.max.cap atLeast) path).Ensures
      fun state forms _ => ∀ index form, forms[index]? = some form → ∃ given,
        CompiledAt deeper context declaration bounds path
          (state.nextPlace declaration.name + index)
          (surplusError declaration.name bounds.max (index + 1)) given form := by
  intro state forms after hrun index form hform
  cases hcursor : state.cursor with
  | none =>
      have hadmits := admits_copiesWithoutInstance context declaration bounds atLeast
      rw [← (buildDeclared_eq_ok_of_none hcursor hrun).1] at hadmits
      have hindex := (List.getElem?_eq_some_iff.mp hform).1
      rw [surplusError_eq_none.mpr (MaxOccurs.allows_of_le hindex hadmits.max)]
      exact ⟨none, (buildDeclared_occursWithout hcursor hrun).compiled index form hform⟩
  | some cursor => exact ⟨_, (buildDeclared_occursOver hcursor hrun).compiled index form hform⟩

end

def ClosedElement (build : Build) (repeated : Bool) (state : BuildState) (_ : String) : Prop :=
  repeated = true ∧ ∃ forms after, build state = .ok (forms, after) ∧ forms ≠ []

section

variable {deeper : Option Level} {context : Context} {declaration : Declaration}
  {node : Xml.Element} {bounds : Bounds} {path : String} {atLeast : Nat}
  (hdeclaration : Declaration.ofParticle context.schema context.settings node = .ok declaration)
include hdeclaration

theorem buildElement_declared {state after : BuildState} {forms : List Form}
    (hrun : buildElement deeper context node bounds atLeast path state = .ok (forms, after)) :
    buildDeclared deeper context declaration bounds (bounds.max.cap atLeast) path state =
      .ok (forms, after) := by
  obtain ⟨other, hother, hbuild⟩ := buildElement_eq_ok.mp hrun
  cases hdeclaration.symm.trans hother
  exact hbuild

theorem Particle.names_iff_eq {name : String} :
    (Particle.element node bounds).Names context.schema name ↔ name = declaration.name := by
  have hdeclared := names_element.mp (names_declaration hdeclaration bounds)
  rw [names_element, hdeclared, Except.ok.injEq, eq_comm]

theorem buildElement_shown :
    (buildElement deeper context node bounds atLeast path).Ensures fun _ forms _ =>
      Form.surfaceAll forms = forms ∧ ∀ form ∈ forms, form.label.tag = declaration.name := by
  intro state forms after hrun
  have hall := compiledFrom_of_buildDeclared (buildElement_declared hdeclaration hrun)
  refine ⟨Form.surfaceAll_of_elements fun form hform => ?_, fun form hform => ?_⟩ <;>
    obtain ⟨error, occurrence, hfrom⟩ := hall form hform
  · exact hfrom.shown.1
  · exact hfrom.shown.2

theorem buildElement_takes (hmax : bounds.max ≠ .count 0) :
    (buildElement deeper context node bounds atLeast path).Ensures fun state forms after =>
      ¬state.Lacks ((Particle.element node bounds).Names context.schema) →
        Form.surfaceAll forms ≠ [] ∧ after.ahead.length < state.ahead.length := by
  intro state forms after hrun htakes
  obtain ⟨element, hnext, hname⟩ := BuildState.not_lacks.mp htakes
  have htaken := buildElement_takesAt hname hmax atLeast _ _ _ hrun ⟨element, hnext, rfl⟩
  refine ⟨?_, htaken⟩
  rw [(buildElement_shown hdeclaration _ _ _ hrun).1]
  rintro rfl
  obtain ⟨cursor, hcursor, -⟩ := Option.bind_eq_some_iff.mp hnext
  have hover := buildDeclared_occursOver hcursor (buildElement_declared hdeclaration hrun)
  have hlength := hover.length
  rw [List.length_nil] at hlength
  simp only [BuildState.ahead, hover.advanced, hcursor, List.length_drop] at htaken
  omega

theorem buildElement_stops (hmax : bounds.max ≠ .count 0) :
    (buildElement deeper context node bounds atLeast path).Ensures fun state _ after =>
      ∀ next ∈ after.next?, (Particle.element node bounds).Names context.schema next.name →
        ClosedElement (buildElement deeper context node bounds atLeast path) context.repeated state
          next.name := by
  intro state forms after hrun next hnext hname
  have hbuild := buildElement_declared hdeclaration hrun
  cases hcursor : state.cursor with
  | none =>
      rw [BuildState.next?, (buildDeclared_occursWithout hcursor hbuild).advanced] at hnext
      cases hnext
  | some cursor =>
      obtain ⟨made, copies, hforms, hmade, -, -, hafter⟩ :=
        buildDeclared_eq_ok_of_some hcursor hbuild
      rw [BuildState.next?, hafter] at hnext
      have hfull := Cursor.takeRun_stops hnext ((Particle.names_iff_eq hdeclaration).mp hname)
      cases hrepeated : context.repeated with
      | false =>
          simp [takingLimit, hrepeated, MaxOccurs.allows] at hfull
      | true =>
          refine ⟨rfl, forms, after, hrun, ?_⟩
          rw [takingLimit, hrepeated, if_pos rfl] at hfull hmade
          rintro rfl
          obtain ⟨rfl, -⟩ := List.append_eq_nil_iff.mp hforms.symm
          have hnone := hmade.length_eq
          rw [List.length_zipIdx, List.length_nil] at hnone
          rw [hnone, Nat.zero_add, MaxOccurs.allows_one hmax] at hfull
          cases hfull

theorem buildElement_continued (hfixed : context.repeated = true → bounds.Fixed) :
    (buildElement deeper context node bounds atLeast path).Ensures fun state _ _ =>
      (buildElement deeper context node bounds atLeast path).Ensures fun other others _ =>
        Continues ((Particle.element node bounds).Names context.schema) context.repeated
          (atLeast = 0)
          (ClosedElement (buildElement deeper context node bounds atLeast path) context.repeated)
          state other →
        ∀ head ∈ (Form.surfaceAll others).head?,
          ClosedElement (buildElement deeper context node bounds atLeast path) context.repeated
            state head.label.tag := by
  rintro state forms after hrun other others last hother
    (⟨next, -, -, hclosed⟩ | ⟨hrepeated, hlacks, hfree⟩) head hhead
  · exact hclosed
  refine ⟨hrepeated, forms, after, hrun, ?_⟩
  rintro rfl
  have hbuild := buildElement_declared hdeclaration hrun
  have hagain := buildElement_declared hdeclaration hother
  have hcopies : copiesWithoutInstance context declaration bounds (bounds.max.cap atLeast) = 0 := by
    cases hcursor : state.cursor with
    | none => exact (buildDeclared_eq_ok_of_none hcursor hbuild).1.symm
    | some cursor =>
        have hlength := (buildDeclared_occursOver hcursor hbuild).length
        rw [List.length_nil] at hlength
        exact copiesWithoutInstance_eq_zero (hfixed hrepeated) (by omega)
  have hnone : others = [] := by
    rw [← List.length_eq_zero_iff]
    cases hcursor : other.cursor with
    | none => rw [(buildDeclared_eq_ok_of_none hcursor hagain).1, hcopies]
    | some cursor =>
        obtain rfl := hfree.resolve_right (by simp [hcursor])
        have hcap : bounds.max.cap 0 = 0 := Nat.le_zero.mp (MaxOccurs.cap_le _ _)
        have hle := @le_copiesWithoutInstance context declaration bounds _ (.inl hcap)
        obtain ⟨made, copies, rfl, hmade, hlength, -⟩ := buildDeclared_eq_ok_of_some hcursor hagain
        have htaken : cursor.run declaration.name (takingLimit context bounds) = [] :=
          congrArg Prod.fst (Declaration.takeRun_of_lacks hdeclaration hlacks hcursor _)
        have hmadeLength := hmade.length_eq
        rw [htaken, List.zipIdx_nil, List.length_nil] at hmadeLength
        rw [htaken, List.length_nil] at hlength
        rw [List.length_append]
        omega
  rw [hnone] at hhead
  cases hhead

theorem buildElement_enough :
    (buildElement deeper context node bounds atLeast path).Ensures fun _ forms _ =>
      (atLeast = 0 ∨ forms ≠ []) → max bounds.min (bounds.max.cap atLeast) ≤ forms.length := by
  intro state forms after hrun hfree
  have hbuild := buildElement_declared hdeclaration hrun
  cases hcursor : state.cursor with
  | none =>
      have hlength := (buildDeclared_eq_ok_of_none hcursor hbuild).1
      rw [hlength]
      refine le_copiesWithoutInstance (hfree.imp ?_ fun hsome => ?_)
      · rintro rfl
        exact Nat.le_zero.mp (MaxOccurs.cap_le _ _)
      · rwa [← hlength, ne_eq, List.length_eq_zero_iff]
  | some cursor =>
      have hlength := (buildDeclared_occursOver hcursor hbuild).length
      omega

theorem buildElement_allows (hrepeated : context.repeated = true) :
    (buildElement deeper context node bounds atLeast path).Ensures fun _ forms _ =>
      bounds.max.allows forms.length = true := by
  intro state forms after hrun
  have hbuild := buildElement_declared hdeclaration hrun
  cases hcursor : state.cursor with
  | none =>
      rw [(buildDeclared_eq_ok_of_none hcursor hbuild).1]
      exact (admits_copiesWithoutInstance context declaration bounds atLeast).max
  | some cursor =>
      rw [(buildDeclared_occursOver hcursor hbuild).length, ← cursor.run_takingLimit, takingLimit,
        if_pos hrepeated]
      exact MaxOccurs.allows_max Cursor.allows_run (allows_requiredCopies bounds atLeast)

end

section

variable {schema : Schema} {deeper : Option Level} {context : Context}
  (hgrounded : schema.Grounded) (hschema : schema.Reopenable)
  (hcontext : context.schema = schema) (hdeeper : ∀ level ∈ deeper, level.Rereads schema)
include hgrounded hschema hcontext hdeeper

theorem buildElement_over {node : Xml.Element} (hnode : schema.Owns node ∧ node.name = "element")
    {bounds : Bounds} {atLeast : Nat} {path : String} {declaration : Declaration}
    (hdeclaration : Declaration.ofParticle context.schema context.settings node = .ok declaration)
    {state : BuildState} {forms : List Form}
    (hforms : ∀ index form, forms[index]? = some form → ∃ given,
      CompiledAt deeper context declaration bounds path (state.nextPlace declaration.name + index)
        (surplusError declaration.name bounds.max (index + 1)) given form)
    {cursor : Cursor} {written rest : List Xml.Element}
    (hwritten : List.Forall₂ Form.WrittenAs forms written)
    (htaken : cursor.takeRun declaration.name (takingLimit context bounds) =
      (written, { cursor with ahead := rest }))
    (henough : max bounds.min (bounds.max.cap atLeast) ≤ written.length) :
    ∃ reopened, buildElement deeper context node bounds atLeast path (state.over cursor) =
        .ok (reopened, ⟨List.replicate written.length declaration.name ++ state.steps,
          some { cursor with ahead := rest }⟩) ∧
      List.Forall₂ Form.ReopenedAs forms reopened := by
  subst hcontext
  obtain ⟨-, -, htype, -, -, hvalue, -⟩ := Declaration.ofParticle_eq_ok hdeclaration
  have hmissing : max bounds.min (bounds.max.cap atLeast) - written.length = 0 := by omega
  have hcompiled : ∀ index form, forms[index]? = some form → ∃ given,
      CompiledAt deeper context declaration bounds path
        ((state.over { cursor with ahead := rest }).nextPlace declaration.name + index)
        (surplusError declaration.name bounds.max (0 + index + 1)) given form := by
    intro index form hform
    have hplaced := hforms index form hform
    rw [Nat.zero_add]
    exact hplaced
  obtain ⟨reopened, hreopened, hsame⟩ := buildTaken_reopens hgrounded hschema rfl hdeeper
    (Declaration.owns_of_ofParticle hgrounded hnode.1 hdeclaration)
    (Declaration.name_of_ofParticle hgrounded hnode.2 hdeclaration) htype hvalue hwritten hcompiled
  refine ⟨reopened, buildElement_eq_ok.mpr ⟨declaration, hdeclaration, ?_⟩, hsame⟩
  simp only [buildDeclared, BuildState.over, htaken, hmissing]
  exact Build.andThen_eq_ok.mpr ⟨reopened, _, [], hreopened, rfl, (List.append_nil _).symm⟩

theorem buildElement_reopens {node : Xml.Element}
    (hnode : schema.Owns node ∧ node.name = "element") {bounds : Bounds}
    (hfixed : context.repeated = true → bounds.Fixed) {atLeast : Nat} {path : String}
    {declaration : Declaration}
    (hdeclaration : Declaration.ofParticle context.schema context.settings node = .ok declaration)
    {state after : BuildState} {forms : List Form}
    (hrun : buildElement deeper context node bounds atLeast path state = .ok (forms, after))
    {cursor : Cursor} {written rest : List Xml.Element} (hahead : cursor.ahead = written ++ rest)
    (hwritten : List.Forall₂ Form.WrittenAs forms written)
    (hrest : ∀ next ∈ rest.head?, next.name = declaration.name →
      context.repeated = true ∧ forms ≠ [])
    (hfree : atLeast = 0 ∨ forms ≠ []) :
    (buildElement deeper context node bounds atLeast path).Reopens state forms after cursor
      rest := by
  subst hcontext
  have hbuild := buildElement_declared hdeclaration hrun
  obtain ⟨-, htags⟩ := buildElement_shown hdeclaration _ _ _ hrun
  have hlength : written.length = forms.length := hwritten.length_eq.symm
  have henough := buildElement_enough hdeclaration _ _ _ hrun hfree
  have hnames : ∀ element ∈ written, element.name = declaration.name := by
    intro element helement
    have hin := Form.names_of_writtenAs hwritten ▸ List.mem_map_of_mem helement
    obtain ⟨form, hform, htag⟩ := List.mem_map.mp hin
    exact htag.symm.trans (htags form hform)
  have htaken : cursor.takeRun declaration.name (takingLimit context bounds) =
      (written, { cursor with ahead := rest }) := by
    -- More of the name follows in a repeatable group only, and there the run is full.
    refine Cursor.takeRun_eq hahead hnames ?_ fun next hnext hsame => ?_
    · cases hrepeated : context.repeated with
      | false => simp [takingLimit, hrepeated, MaxOccurs.allows]
      | true =>
          rw [takingLimit, if_pos hrepeated, hlength]
          exact buildElement_allows hdeclaration hrepeated _ _ _ hrun
    · obtain ⟨hrepeated, hsome⟩ := hrest next hnext hsame
      have hadmits : bounds.Admits forms.length :=
        ⟨(Nat.le_max_left _ _).trans henough, buildElement_allows hdeclaration hrepeated _ _ _ hrun⟩
      rw [takingLimit, if_pos hrepeated, hlength]
      exact (hfixed hrepeated).not_allows hadmits (by simpa using hsome)
  obtain ⟨reopened, hreopened, hforms⟩ := buildElement_over hgrounded hschema rfl hdeeper hnode
    hdeclaration (buildDeclared_compiledAt _ _ _ hbuild) hwritten htaken (hlength ▸ henough)
  have hplaces : after.steps = List.replicate forms.length declaration.name ++ state.steps :=
    buildDeclared_givesPlaces _ _ _ hbuild
  refine ⟨reopened, ?_, hforms⟩
  rw [hreopened, hlength, ← hplaces]
  rfl

theorem buildElement_rereads {node : Xml.Element}
    (hnode : schema.Owns node ∧ node.name = "element") {bounds : Bounds}
    (hmax : bounds.max ≠ .count 0) (hfixed : context.repeated = true → bounds.Fixed)
    (atLeast : Nat) (path : String) :
    ∃ closed, Rereads Form.surfaceAll ((Particle.element node bounds).Names schema)
      context.repeated (atLeast = 0) closed
      (buildElement deeper context node bounds atLeast path) := by
  cases hdeclaration : Declaration.ofParticle context.schema context.settings node with
  | error fault =>
      refine ⟨_, .of_fails fun state result hrun => ?_⟩
      obtain ⟨declaration, hfound, -⟩ := buildElement_eq_ok.mp hrun
      rw [hdeclaration] at hfound
      cases hfound
  | ok declaration =>
      have hnames := fun name => @Particle.names_iff_eq context declaration node bounds hdeclaration
        name
      refine ⟨ClosedElement (buildElement deeper context node bounds atLeast path)
        context.repeated, ?_⟩
      rw [← hcontext]
      constructor
      case advancing => exact buildElement_advancing node bounds atLeast
      case leaves => exact buildElement_leavesAbsent node bounds atLeast
      case named =>
        intro state forms after hrun form hform
        obtain ⟨hshown, htags⟩ := buildElement_shown hdeclaration _ _ _ hrun
        exact (hnames _).mpr (htags form (hshown ▸ hform))
      case takes => exact buildElement_takes hdeclaration hmax
      case shows =>
        rintro state forms after hrun name ⟨-, others, last, hother, hsome⟩
        cases hrun.symm.trans hother
        rwa [(buildElement_shown hdeclaration _ _ _ hrun).1]
      case stops => exact buildElement_stops hdeclaration hmax
      case continued => exact buildElement_continued hdeclaration hfixed
      case rereads =>
        intro state forms after hrun cursor written rest hahead hwritten hrest hfree
        rw [(buildElement_shown hdeclaration _ _ _ hrun).1] at hwritten hfree
        refine buildElement_reopens hgrounded hschema hcontext hdeeper hnode hfixed hdeclaration
          hrun hahead hwritten (fun next hnext hsame => ?_) hfree
        obtain ⟨hrepeated, others, last, hother, hsome⟩ :=
          hrest next hnext ((hnames _).mpr hsame)
        cases hrun.symm.trans hother
        exact ⟨hrepeated, hsome⟩

end

end SchemaForms
