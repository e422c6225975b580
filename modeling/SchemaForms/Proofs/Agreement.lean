import SchemaForms.Proofs.Dictionaries
import SchemaForms.Proofs.Erasures
import SchemaForms.Proofs.Lockstep

/-!
# Compilations that agree

Two compilations go side by side over instances with the same erasure. They agree but for the
options under some keys if they end in the same error, or make forms that differ only in
these options and in their sources. Builds that are composed of builds that agree agree.
-/

namespace SchemaForms

/-! ## Options -/

structure Options.AgreeBut (keys : List String) (options other : Options) : Prop where
  ordered : options.Ordered
  otherOrdered : other.Ordered
  same : ∀ key, key ∉ keys → options.get? key = other.get? key

namespace Options.AgreeBut

variable {keys : List String} {options other : Options}

theorem refl (keys : List String) (h : options.Ordered) : options.AgreeBut keys options :=
  ⟨h, h, fun _ _ => rfl⟩

theorem insert (h : options.AgreeBut keys other) {key : String} {value also : Scalar}
    (hkey : key ∈ keys ∨ value = also) :
    Options.AgreeBut keys (options.insert key value) (other.insert key also) := by
  refine ⟨h.ordered.insert key value, h.otherOrdered.insert key also, fun found hfound => ?_⟩
  by_cases hsame : found = key
  · subst hsame
    rw [Text.Dictionary.get?_insert_self, Text.Dictionary.get?_insert_self,
      hkey.resolve_left hfound]
  · rw [Text.Dictionary.get?_insert_of_ne _ hsame, Text.Dictionary.get?_insert_of_ne _ hsame]
    exact h.same found hfound

theorem withOption (h : options.AgreeBut keys other) {key : String} {value also : Option String}
    (hkey : key ∈ keys ∨ value = also) :
    (withOption options key value).AgreeBut keys (SchemaForms.withOption other key also) := by
  have hget : ∀ (base : Options) (text : Option String) (found : String), found ≠ key →
      (SchemaForms.withOption base key text).get? found = base.get? found := by
    intro base text found hfound
    cases text with
    | none => rfl
    | some text => exact Text.Dictionary.get?_insert_of_ne _ hfound _
  have hordered : ∀ (base : Options) (text : Option String), base.Ordered →
      (SchemaForms.withOption base key text).Ordered := by
    intro base text hbase
    cases text with
    | none => exact hbase
    | some text => exact hbase.insert key _
  refine ⟨hordered _ _ h.ordered, hordered _ _ h.otherOrdered, fun found hfound => ?_⟩
  by_cases hsame : found = key
  · obtain rfl := hkey.resolve_left (hsame ▸ hfound)
    cases value with
    | none => exact h.same found hfound
    | some text => exact (h.insert (.inr rfl)).same found hfound
  · rw [hget _ _ _ hsame, hget _ _ _ hsame]
    exact h.same found hfound

theorem remark (h : options.AgreeBut keys other) (hkeys : OptionKey.mismatch ∉ keys)
    (message : String) : (options.remark message).AgreeBut keys (other.remark message) := by
  have hmessage : options.mismatch? = other.mismatch? :=
    congrArg (Option.bind · Scalar.str?) (h.same _ hkeys)
  rw [Options.remark, Options.remark, hmessage]
  split
  · exact h
  · exact h.insert (.inr rfl)

theorem eraseAll_eq (h : options.AgreeBut keys other) :
    options.eraseAll keys = other.eraseAll keys := by
  refine (h.ordered.eraseAll keys).ext (h.otherOrdered.eraseAll keys) fun key => ?_
  by_cases hkey : key ∈ keys
  · exact (Entries.lookup_filter_of_mem hkey _).trans
      (Entries.lookup_filter_of_mem hkey _).symm
  · exact (Entries.lookup_filter_of_notMem hkey _).trans
      ((h.same key hkey).trans (Entries.lookup_filter_of_notMem hkey _).symm)

end Options.AgreeBut

/-! ## Forms -/

structure FormLabel.AgreesBut (keys : List String) (label other : FormLabel) : Prop where
  kind : label.kind = other.kind
  tag : label.tag = other.tag
  value : label.value = other.value
  options : label.options.AgreeBut keys other.options
  path : label.path = other.path
  space : label.space = other.space
  origin : label.origin = other.origin

namespace Form

inductive AgreesBut (keys : List String) : Form → Form → Prop
  | node {label other : FormLabel} {children others : List Form} :
      label.AgreesBut keys other → List.Forall₂ (AgreesBut keys) children others →
      AgreesBut keys (.node label children) (.node other others)

mutual
def without (keys : List String) : Form → Form
  | .node label children =>
      .node { label with options := label.options.eraseAll keys, source := none }
        (withoutAll keys children)

def withoutAll (keys : List String) : List Form → List Form
  | [] => []
  | form :: rest => without keys form :: withoutAll keys rest
end

mutual
theorem without_nil (form : Form) : form.without [] = form.unsourced := by
  cases form with
  | node label children =>
      rw [without, unsourced, Text.Dictionary.eraseAll_nil, withoutAll_nil children]

theorem withoutAll_nil (forms : List Form) : withoutAll [] forms = unsourcedAll forms := by
  cases forms with
  | nil => rfl
  | cons form rest => rw [withoutAll, unsourcedAll, without_nil form, withoutAll_nil rest]
end

variable {keys : List String} {form other : Form}

mutual
theorem AgreesBut.without_eq {form other : Form} (h : form.AgreesBut keys other) :
    form.without keys = other.without keys := by
  cases h with
  | @node label also children others hlabel hchildren =>
      rw [without, without, hlabel.kind, hlabel.tag, hlabel.value, hlabel.options.eraseAll_eq,
        hlabel.path, hlabel.space, hlabel.origin, withoutAll_eq hchildren]

theorem withoutAll_eq {forms others : List Form}
    (h : List.Forall₂ (AgreesBut keys) forms others) :
    withoutAll keys forms = withoutAll keys others := by
  cases h with
  | nil => rfl
  | cons hform hrest => rw [withoutAll, withoutAll, hform.without_eq, withoutAll_eq hrest]
end

theorem withoutAll_eq_map (keys : List String) (forms : List Form) :
    withoutAll keys forms = forms.map (without keys) := by
  induction forms with
  | nil => rfl
  | cons form rest ih => rw [withoutAll, ih, List.map_cons]

theorem AgreesBut.mapOptions (h : form.AgreesBut keys other) {change alter : Options → Options}
    (hchange : ∀ options others : Options, options.AgreeBut keys others →
      (change options).AgreeBut keys (alter others)) :
    (form.mapOptions change).AgreesBut keys (other.mapOptions alter) := by
  cases h with
  | node hlabel hchildren =>
      exact .node { hlabel with options := hchange _ _ hlabel.options } hchildren

theorem AgreesBut.remarkWith (h : form.AgreesBut keys other)
    (hkeys : OptionKey.mismatch ∉ keys) (error : Option Mismatch) :
    (remarkWith error form).AgreesBut keys (SchemaForms.remarkWith error other) := by
  cases error with
  | none => exact h
  | some error => exact h.mapOptions fun _ _ hsame => hsame.remark hkeys error.message

theorem AgreesBut.tag_eq (h : form.AgreesBut keys other) : form.label.tag = other.label.tag := by
  cases h with
  | node hlabel _ => exact hlabel.tag

end Form

/-! ## Outcomes -/

inductive OutcomesAgree {α β : Type} (keys : List String) (related : α → β → Prop) :
    Except Failure α → Except Failure β → Prop
  | failed {error : Diagnostic} {finished others : List Form} :
      List.Forall₂ (Form.AgreesBut keys) finished others →
      OutcomesAgree keys related (.error ⟨error, finished⟩) (.error ⟨error, others⟩)
  | done {result other} : related result other → OutcomesAgree keys related (.ok result) (.ok other)

namespace OutcomesAgree

variable {α β γ δ : Type} {keys : List String} {related : α → β → Prop} {also : γ → δ → Prop}
  {outcome : Except Failure α} {other : Except Failure β}

theorem cases (h : OutcomesAgree keys related outcome other) :
    (∃ error finished others, outcome = .error ⟨error, finished⟩ ∧
      other = .error ⟨error, others⟩ ∧
        List.Forall₂ (Form.AgreesBut keys) finished others) ∨
      ∃ result found, outcome = .ok result ∧ other = .ok found ∧ related result found := by
  cases h with
  | failed hforms => exact .inl ⟨_, _, _, rfl, rfl, hforms⟩
  | done hrelated => exact .inr ⟨_, _, rfl, rfl, hrelated⟩

theorem fault (error : Diagnostic) :
    OutcomesAgree keys related (.error ⟨error, []⟩) (.error ⟨error, []⟩) := .failed .nil

theorem map (h : OutcomesAgree keys related outcome other) {change : α → γ} {alter : β → δ}
    (hchange : ∀ result found, related result found → also (change result) (alter found)) :
    OutcomesAgree keys also (outcome.map change) (other.map alter) := by
  cases h with
  | failed hforms => exact .failed hforms
  | done hrelated => exact .done (hchange _ _ hrelated)

end OutcomesAgree

/-! ## Builds -/

structure MadeAlike (keys : List String) (made other : List Form × BuildState) : Prop where
  forms : List.Forall₂ (Form.AgreesBut keys) made.1 other.1
  states : made.2.SameErasure other.2

/-- From states with the same erasure the builds end in outcomes that agree. -/
def Build.AgreesBut (keys : List String) (build other : Build) : Prop :=
  ∀ state second, state.SameErasure second →
    OutcomesAgree keys (MadeAlike keys) (build state) (other second)

namespace Build.AgreesBut

variable {keys : List String} {build other first second : Build}

theorem nothing (keys : List String) : Build.nothing.AgreesBut keys .nothing :=
  fun _ _ hsame => .done ⟨.nil, hsame⟩

theorem fail (keys : List String) (error : Diagnostic) :
    (Build.fail error).AgreesBut keys (.fail error) :=
  fun _ _ _ => .fault error

theorem emit {form also : Form} (h : form.AgreesBut keys also) :
    (Build.emit form).AgreesBut keys (.emit also) :=
  fun _ _ hsame => .done ⟨.cons h .nil, hsame⟩

theorem ofFault {α : Type} {outcome : Except SchemaFault α} {next following : α → Build}
    (h : ∀ value, outcome = .ok value → (next value).AgreesBut keys (following value)) :
    (Build.ofFault outcome next).AgreesBut keys (.ofFault outcome following) := by
  cases outcome with
  | error fault => exact fail keys _
  | ok value => exact h value rfl

theorem andThen (hfirst : first.AgreesBut keys build) (hsecond : second.AgreesBut keys other) :
    (first.andThen second).AgreesBut keys (build.andThen other) := by
  intro state start hsame
  rcases (hfirst _ _ hsame).cases with ⟨error, finished, others, hrun, hother, hforms⟩ |
    ⟨⟨forms, after⟩, ⟨others, later⟩, hrun, hother, hmade⟩
  · simp only [Build.andThen, hrun, hother]
    exact .failed hforms
  rcases (hsecond _ _ hmade.states).cases with
    ⟨error, finished, left, hlast, hfinal, hrest⟩ |
    ⟨⟨more, last⟩, ⟨left, final⟩, hlast, hfinal, hrest⟩ <;>
    simp only [Build.andThen, hrun, hother, hlast, hfinal]
  · exact .failed (List.rel_append hmade.forms hrest)
  · exact .done ⟨List.rel_append hmade.forms hrest.forms, hrest.states⟩

theorem all {builds others : List Build} (h : List.Forall₂ (AgreesBut keys) builds others) :
    (Build.all builds).AgreesBut keys (Build.all others) := by
  induction h with
  | nil => exact nothing keys
  | cons hfirst _ ih => exact hfirst.andThen ih

theorem all_map {α : Type} {parts : List α} {make also : α → Build}
    (h : ∀ part ∈ parts, (make part).AgreesBut keys (also part)) :
    (Build.all (parts.map make)).AgreesBut keys (Build.all (parts.map also)) := by
  refine all ?_
  rw [List.forall₂_map_left_iff, List.forall₂_map_right_iff, List.forall₂_same]
  exact h

theorem replicate (h : build.AgreesBut keys other) (count : Nat) :
    (Build.all (List.replicate count build)).AgreesBut keys
      (Build.all (List.replicate count other)) := by
  induction count with
  | zero => exact nothing keys
  | succ count ih => exact h.andThen ih

theorem mapForms (h : build.AgreesBut keys other) {change alter : Form → Form}
    (hchange : ∀ form also : Form, form.AgreesBut keys also →
      (change form).AgreesBut keys (alter also)) :
    (build.mapForms change).AgreesBut keys (other.mapForms alter) := by
  intro state start hsame
  rcases (h _ _ hsame).cases with ⟨error, finished, others, hrun, hother, hforms⟩ |
    ⟨⟨forms, after⟩, ⟨others, later⟩, hrun, hother, hmade⟩ <;>
    simp only [Build.mapForms, hrun, hother]
  · exact .failed hforms
  · refine .done ⟨?_, hmade.states⟩
    rw [List.forall₂_map_left_iff, List.forall₂_map_right_iff]
    exact hmade.forms.imp hchange

theorem withoutInstance (h : build.AgreesBut keys other) :
    build.withoutInstance.AgreesBut keys other.withoutInstance := by
  intro state start hsame
  have hfree : BuildState.SameErasure { state with cursor := none }
      { start with cursor := none } := ⟨hsame.steps, rfl, rfl⟩
  rcases (h _ _ hfree).cases with ⟨error, finished, others, hrun, hother, hforms⟩ |
    ⟨⟨forms, after⟩, ⟨others, later⟩, hrun, hother, hmade⟩ <;>
    simp only [Build.withoutInstance, hrun, hother]
  · exact .failed hforms
  · exact .done ⟨hmade.forms, hmade.states.steps, hsame.parents, hsame.ahead⟩

theorem grouped (h : build.AgreesBut keys other) (compositor : Compositor) (node : Xml.Element)
    (bounds : Bounds) (path : String) :
    (build.grouped compositor node bounds path).AgreesBut keys
      (other.grouped compositor node bounds path) := by
  intro state start hsame
  rcases (h _ _ hsame).cases with ⟨error, finished, others, hrun, hother, hforms⟩ |
    ⟨⟨children, after⟩, ⟨others, later⟩, hrun, hother, hmade⟩ <;>
    simp only [Build.grouped, hrun, hother]
  · exact .failed hforms
  · have hoptions : (boundsOptions bounds).AgreeBut keys (boundsOptions bounds) :=
      .refl keys ((Text.Dictionary.ordered_empty.insert _ _).insert _ _)
    rw [hmade.states.nextPlace_eq]
    exact .done ⟨.cons (.node ⟨rfl, rfl, rfl, hoptions, rfl, rfl, rfl⟩ hmade.forms) .nil,
      hmade.states.givePlace _⟩

section

variable (h : build.AgreesBut keys other) (hkeys : OptionKey.mismatch ∉ keys)
include h hkeys

theorem remarked (error : Option Mismatch) :
    (build.mapForms (remarkWith error)).AgreesBut keys (other.mapForms (remarkWith error)) :=
  h.mapForms fun _ _ hsame => hsame.remarkWith hkeys error

theorem repeatOver (repeated : Bool) (names : List String) (bounds : Bounds) (tag : String)
    (fuel count : Nat) :
    (SchemaForms.repeatOver repeated names bounds tag build fuel count).AgreesBut keys
      (SchemaForms.repeatOver repeated names bounds tag other fuel count) := by
  induction fuel generalizing count with
  | zero => exact nothing keys
  | succ fuel ih =>
      intro state start hsame
      simp only [SchemaForms.repeatOver, hsame.length_eq,
        endsAfter_congr hsame.map_next?_eq repeated names bounds count]
      split
      · exact .done ⟨.nil, hsame⟩
      · -- Both repetitions take equally many elements, so both end or both go on.
        refine (h.remarked hkeys _).andThen (fun after later hafter => ?_) _ _ hsame
        simp only [hafter.length_eq]
        split
        · exact .done ⟨.nil, hafter⟩
        · exact ih _ _ _ hafter

theorem instantiate {context also : Context} (hschema : context.schema = also.schema)
    (hrepeated : context.repeated = also.repeated) (group : Particle) (compositor : Compositor)
    (bounds : Bounds) :
    (SchemaForms.instantiate context group compositor bounds build).AgreesBut keys
      (SchemaForms.instantiate also group compositor bounds other) := by
  intro state start hsame
  simp only [SchemaForms.instantiate, hschema, hrepeated]
  split
  · exact .done ⟨.nil, hsame⟩
  rcases hsame.cursors with ⟨hcursor, hstart⟩ | ⟨cursor, found, hcursor, hstart, hahead⟩
  · simp only [hcursor, hstart]
    exact h.replicate _ _ _ hsame
  · have hlength : cursor.ahead.length = found.ahead.length := by
      simpa using congrArg List.length hahead
    simp only [hcursor, hstart, hlength]
    exact ofFault (fun names _ => h.repeatOver hkeys _ names bounds _ _ _) _ _ hsame

end

end Build.AgreesBut

end SchemaForms
