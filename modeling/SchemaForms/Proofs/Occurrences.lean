import SchemaForms.Proofs.Instantiations
import SchemaForms.Proofs.Retention

/-!
# Occurrences of elements

Over an instance an element particle takes the elements of its name that come next. Outside
of repeatable groups it takes all of them, and inside as many as its maximum allows. They are
compiled one after the other, and copies without an instance follow until there are as many
nodes as are required. The nodes past the maximum carry a message, and no other node carries
one about its number.
-/

namespace SchemaForms

def CompiledAt (deeper : Option Level) (context : Context) (declaration : Declaration)
    (bounds : Bounds) (path : String) (place : Nat) (error : Option Mismatch)
    (occurrence : Option Xml.Element) (form : Form) : Prop :=
  ∃ content, elementContent deeper context declaration (placePath path declaration.name place)
      occurrence = .ok content ∧
    form = remarkWith error (elementForm declaration bounds
      (placePath path declaration.name place) occurrence content)

def takenFrom (context : Context) (bounds : Bounds) (named : List Xml.Element) :
    List Xml.Element :=
  if context.repeated then named.take (bounds.max.cap named.length) else named

/-- An element particle was compiled over a cursor, from which the elements `taken` were taken.
There are as many nodes, or as many as the minimum or the place of the particle requires. The
first of them are compiled from the elements in their order, and the others without an
instance. -/
structure OccursOver (deeper : Option Level) (context : Context) (declaration : Declaration)
    (bounds : Bounds) (required : Nat) (path : String) (cursor : Cursor)
    (taken : List Xml.Element) (state : BuildState) (forms : List Form) (after : BuildState) :
    Prop where
  length : forms.length = max taken.length (max bounds.min required)
  compiled : ∀ index form, forms[index]? = some form →
    CompiledAt deeper context declaration bounds path
      (state.nextPlace declaration.name + index)
      (surplusError declaration.name bounds.max (index + 1)) taken[index]? form
  advanced : after.cursor = some { cursor with ahead := cursor.ahead.drop taken.length }
  remarked : ∀ index form, forms[index]? = some form → ∀ limit, bounds.max = .count limit →
    limit < index + 1 → form.label.options.mismatch?.isSome = true
  notSurplus : ∀ index form, forms[index]? = some form → bounds.max.allows (index + 1) = true →
    ∀ tag occurrence limit,
      form.label.options.mismatch? ≠ some (Mismatch.surplus tag occurrence limit).message

/-- An element particle was compiled without an instance: to no node if it is optional and its
type is in progress, and else to its initial number of nodes, or to as many as its place
requires. -/
structure OccursWithout (deeper : Option Level) (context : Context) (declaration : Declaration)
    (bounds : Bounds) (required : Nat) (path : String) (state : BuildState) (forms : List Form)
    (after : BuildState) : Prop where
  inProgress : bounds.min = 0 → ∀ definition, declaration.content = .complex definition →
    context.encloses definition = true → forms = []
  length : (bounds.min = 0 → ∀ definition, declaration.content = .complex definition →
      context.encloses definition = false) →
    forms.length = max (if bounds.min = 0 ∧ bounds.max = .unbounded ∧
      context.settings.placeholder = .template then 1 else bounds.min) required
  compiled : ∀ index form, forms[index]? = some form →
    CompiledAt deeper context declaration bounds path
      (state.nextPlace declaration.name + index) none none form
  advanced : after.cursor = none

/-! ## Places -/

@[simp] theorem BuildState.nextPlace_givePlace (state : BuildState) (name : String) :
    (state.givePlace name).nextPlace name = state.nextPlace name + 1 := by
  simp [nextPlace, givePlace]

section

variable {deeper : Option Level} {context : Context} {declaration : Declaration}
  {bounds : Bounds} {path : String} {state after : BuildState} {forms : List Form}

theorem buildCopies_compiledAt {count : Nat}
    (hrun : buildCopies deeper context declaration bounds path count state =
      .ok (forms, after)) :
    ∀ index form, forms[index]? = some form →
      CompiledAt deeper context declaration bounds path
        (state.nextPlace declaration.name + index) none none form := by
  induction count generalizing state forms with
  | zero =>
      obtain ⟨rfl, -⟩ := Build.nothing_eq_ok.mp hrun
      simp
  | succ count ih =>
      obtain ⟨before, middle, rest, hbefore, hrest, rfl⟩ := Build.andThen_eq_ok.mp hrun
      obtain ⟨content, hcontent, rfl, rfl⟩ := buildOccurrence_eq_ok.mp hbefore
      intro index form hform
      cases index with
      | zero =>
          cases hform
          exact ⟨content, hcontent, rfl⟩
      | succ index =>
          have hplaced := ih hrest index form hform
          rwa [BuildState.nextPlace_givePlace, Nat.add_assoc, Nat.add_comm 1] at hplaced

theorem buildTaken_compiledAt {taken : List Xml.Element}
    (hrun : buildTaken deeper context declaration bounds path taken state =
      .ok (forms, after)) :
    after.nextPlace declaration.name = state.nextPlace declaration.name + taken.length ∧
      ∀ index form, forms[index]? = some form → ∃ occurrence, taken[index]? = some occurrence ∧
        CompiledAt deeper context declaration bounds path
          (state.nextPlace declaration.name + index)
          (surplusError declaration.name bounds.max (index + 1)) (some occurrence) form := by
  suffices hfrom : ∀ start, Build.all ((taken.zipIdx start).map fun numbered =>
      (buildOccurrence deeper context declaration bounds path (some numbered.1)).mapForms
        (remarkWith (surplusError declaration.name bounds.max (numbered.2 + 1)))) state =
          .ok (forms, after) →
      after.nextPlace declaration.name = state.nextPlace declaration.name + taken.length ∧
        ∀ index form, forms[index]? = some form → ∃ occurrence, taken[index]? = some occurrence ∧
          CompiledAt deeper context declaration bounds path
            (state.nextPlace declaration.name + index)
            (surplusError declaration.name bounds.max (start + index + 1)) (some occurrence)
            form by
    simpa using hfrom 0 hrun
  clear hrun
  intro start hrun
  induction taken generalizing start state forms with
  | nil =>
      obtain ⟨rfl, rfl⟩ := Build.nothing_eq_ok.mp hrun
      simp
  | cons occurrence rest ih =>
      obtain ⟨before, middle, others, hbefore, hothers, rfl⟩ := Build.andThen_eq_ok.mp hrun
      obtain ⟨made, hmade, rfl⟩ := Build.mapForms_eq_ok.mp hbefore
      obtain ⟨content, hcontent, rfl, rfl⟩ := buildOccurrence_eq_ok.mp hmade
      obtain ⟨hafter, hall⟩ := ih (start + 1) hothers
      rw [BuildState.nextPlace_givePlace] at hafter hall
      refine ⟨by rw [hafter, List.length_cons]; omega, fun index form hform => ?_⟩
      cases index with
      | zero =>
          cases hform
          exact ⟨occurrence, rfl, content, hcontent, rfl⟩
      | succ index =>
          obtain ⟨found, hfound, hcompiled⟩ := hall index form hform
          refine ⟨found, hfound, ?_⟩
          rwa [Nat.add_assoc, Nat.add_comm 1, Nat.add_assoc start, Nat.add_comm 1 index]
            at hcompiled

/-! ## Messages -/

theorem mismatch?_elementForm_ne_surplus {place : String} {occurrence : Option Xml.Element}
    {content : ComplexContent}
    (hcontent : elementContent deeper context declaration place occurrence = .ok content)
    (tag : String) (number limit : Nat) :
    (elementForm declaration bounds place occurrence content).label.options.mismatch? ≠
      some (Mismatch.surplus tag number limit).message := by
  rw [elementForm, mismatch?_remarkWith (by simp [Form.label]), Ne, Option.map_eq_some_iff]
  rintro ⟨error, herror, hmessage⟩
  obtain ⟨tag, number, limit, rfl⟩ := Mismatch.eq_surplus_of_message_eq hmessage
  exact mismatch_ne_surplus hcontent herror

theorem isSome_mismatch?_remarkWith (error : Mismatch) (form : Form) :
    (remarkWith (some error) form).label.options.mismatch?.isSome = true := by
  obtain ⟨label, children⟩ := form
  exact congrArg Option.isSome (mismatch?_remark label.options error.message)

theorem CompiledAt.remarked {place index limit : Nat} {occurrence : Option Xml.Element}
    {form : Form}
    (h : CompiledAt deeper context declaration bounds path place
      (surplusError declaration.name bounds.max index) occurrence form)
    (hmax : bounds.max = .count limit) (hlimit : limit < index) :
    form.label.options.mismatch?.isSome = true := by
  obtain ⟨content, -, rfl⟩ := h
  rw [hmax, surplusError, if_pos hlimit]
  exact isSome_mismatch?_remarkWith _ _

theorem CompiledAt.notSurplus {place index : Nat} {occurrence : Option Xml.Element}
    {form : Form}
    (h : CompiledAt deeper context declaration bounds path place
      (surplusError declaration.name bounds.max index) occurrence form)
    (hallows : bounds.max.allows index = true) (tag : String) (number limit : Nat) :
    form.label.options.mismatch? ≠ some (Mismatch.surplus tag number limit).message := by
  obtain ⟨content, hcontent, rfl⟩ := h
  rw [surplusError_eq_none.mpr hallows]
  exact mismatch?_elementForm_ne_surplus hcontent tag number limit

/-! ## Elements -/

theorem Cursor.run_takingLimit (cursor : Cursor) (name : String) (context : Context)
    (bounds : Bounds) :
    cursor.run name (takingLimit context bounds) =
      takenFrom context bounds (cursor.ahead.takeWhile (·.name == name)) := by
  rw [Cursor.run, takingLimit, takenFrom]
  cases context.repeated with
  | false => exact List.take_length
  | true => rfl

/-- What the minimum and the place of a particle require is allowed by the maximum. -/
theorem allows_requiredCopies (bounds : Bounds) (atLeast : Nat) :
    bounds.max.allows (max bounds.min (bounds.max.cap atLeast)) = true :=
  MaxOccurs.allows_max bounds.allows_min (bounds.max.allows_cap atLeast)

theorem buildDeclared_occursOver {atLeast : Nat} {cursor : Cursor}
    (hcursor : state.cursor = some cursor)
    (hrun : buildDeclared deeper context declaration bounds (bounds.max.cap atLeast) path state =
      .ok (forms, after)) :
    OccursOver deeper context declaration bounds (bounds.max.cap atLeast) path cursor
      (takenFrom context bounds (cursor.ahead.takeWhile (·.name == declaration.name))) state
      forms after := by
  rw [← cursor.run_takingLimit]
  generalize htaken : cursor.run declaration.name (takingLimit context bounds) = taken
  simp only [buildDeclared, hcursor, Cursor.takeRun, htaken] at hrun
  obtain ⟨made, middle, copies, hmade, hcopies, rfl⟩ := Build.andThen_eq_ok.mp hrun
  obtain ⟨hmiddle, hpairs⟩ := buildTaken_eq_ok hmade
  have hlength : made.length = taken.length := by
    rw [← hpairs.length_eq, List.length_zipIdx]
  obtain ⟨hcount, hafter, -⟩ := buildCopies_eq_ok hcopies
  obtain ⟨hplace, hfirst⟩ := buildTaken_compiledAt hmade
  have hrest := buildCopies_compiledAt hcopies
  have hcompiled : ∀ index form, (made ++ copies)[index]? = some form →
      CompiledAt deeper context declaration bounds path
        (state.nextPlace declaration.name + index)
        (surplusError declaration.name bounds.max (index + 1)) taken[index]? form := by
    intro index form hform
    by_cases hindex : index < taken.length
    · rw [List.getElem?_append_left (hlength ▸ hindex)] at hform
      obtain ⟨occurrence, hoccurrence, hfrom⟩ := hfirst index form hform
      rw [hoccurrence]
      exact hfrom
    · -- Copies are no more than what is required, so none of them is past the maximum.
      obtain ⟨further, rfl⟩ := Nat.exists_eq_add_of_le (Nat.le_of_not_lt hindex)
      rw [List.getElem?_append_right (by omega), hlength, Nat.add_sub_cancel_left] at hform
      have hfurther : further < copies.length := (List.getElem?_eq_some_iff.mp hform).1
      have hallowed := MaxOccurs.allows_of_le
        (show taken.length + further + 1 ≤ max bounds.min (bounds.max.cap atLeast) by omega)
        (allows_requiredCopies bounds atLeast)
      have hfrom := hrest further form hform
      rw [hplace, Nat.add_assoc] at hfrom
      rw [surplusError_eq_none.mpr hallowed, List.getElem?_eq_none (by omega)]
      exact hfrom
  refine ⟨?_, hcompiled, hafter.trans hmiddle, ?_, ?_⟩
  · rw [List.length_append, hlength, hcount]
    omega
  · intro index form hform limit hmax hlimit
    exact (hcompiled index form hform).remarked hmax hlimit
  · intro index form hform hallows tag occurrence limit
    exact (hcompiled index form hform).notSurplus hallows tag occurrence limit

theorem buildDeclared_occursWithout {required : Nat} (hcursor : state.cursor = none)
    (hrun : buildDeclared deeper context declaration bounds required path state =
      .ok (forms, after)) :
    OccursWithout deeper context declaration bounds required path state forms after := by
  obtain ⟨hlength, hafter, -⟩ := buildDeclared_eq_ok_of_none hcursor hrun
  rw [buildDeclared, hcursor] at hrun
  refine ⟨?_, ?_, buildCopies_compiledAt hrun, hafter⟩
  · intro hmin definition hcontent hencloses
    rw [← List.length_eq_zero_iff, hlength, copiesWithoutInstance, hcontent]
    simp [hmin, hencloses]
  · intro hfree
    have hcount : initialCount bounds context.settings.placeholder =
        if bounds.min = 0 ∧ bounds.max = .unbounded ∧
          context.settings.placeholder = .template then 1 else bounds.min := by
      simp [initialCount, and_assoc]
    rw [hlength, copiesWithoutInstance, hcount]
    cases hcontent : declaration.content with
    | simple => rfl
    | complex definition =>
        have hnot : ¬ ((bounds.min = 0 && context.encloses definition) = true) := by
          simp only [Bool.and_eq_true, decide_eq_true_eq, not_and, Bool.not_eq_true]
          exact fun hmin => hfree hmin definition hcontent
        simp only [if_neg hnot]

end

/-- The nodes of an element particle that was compiled: over an instance those of the elements
that it takes and the copies that are still required, and without one its initial copies. -/
theorem buildParticle_occurs {depth atLeast : Nat} {context : Context} {node : Xml.Element}
    {bounds : Bounds} {path : String} {state after : BuildState} {forms : List Form}
    (hrun : buildParticle (levelBelow depth) context atLeast (.element node bounds) path state =
      .ok (forms, after)) :
    ∃ declaration,
      Declaration.ofParticle context.schema context.settings node = .ok declaration ∧
      (state.cursor = none → OccursWithout (levelBelow depth) context declaration bounds
        (bounds.max.cap atLeast) path state forms after) ∧
      ∀ cursor, state.cursor = some cursor →
        OccursOver (levelBelow depth) context declaration bounds (bounds.max.cap atLeast) path
          cursor (takenFrom context bounds
            (cursor.ahead.takeWhile (·.name == declaration.name))) state forms after := by
  obtain ⟨declaration, hdeclaration, hbuild⟩ := buildElement_eq_ok.mp hrun
  refine ⟨declaration, hdeclaration, fun hcursor => ?_, fun cursor hcursor => ?_⟩
  · exact buildDeclared_occursWithout hcursor hbuild
  · exact buildDeclared_occursOver hcursor hbuild

def coupletDocument : Xml.Document :=
  .ofRoots (.plain "schema" [] [
    .plain "element" [("name", "couplet")] [
      .plain "complexType" [] [
        .plain "sequence" [] [
          .plain "element" [("name", "line"), ("maxOccurs", "2")] []]]]]) []

def threeLines : Xml.Document :=
  .ofRoots (.plain "couplet" [] [
    .plain "line" [] [], .plain "line" [] [], .plain "line" [] [], .plain "rhyme" [] []]) []

theorem threeLines_occur :
    ∃ forms after,
      buildParticle (levelBelow 4) (.start (Schema.given coupletDocument) .default) 0
        (.element (coupletDocument.node 4) ⟨1, .count 2, rfl⟩) "/couplet[1]"
        (.start (some threeLines.root)) = .ok (forms, after) ∧
      forms.map (·.label.options.mismatch?) =
        [none, none, some "occurrence 3 of <line> exceeds maxOccurs 2"] ∧
      after.ahead.map Xml.Element.name = ["rhyme"] ∧
      ∃ declaration, Declaration.ofParticle (Schema.given coupletDocument) .default
          (coupletDocument.node 4) = .ok declaration ∧
        OccursOver (levelBelow 4) (.start (Schema.given coupletDocument) .default) declaration
          ⟨1, .count 2, rfl⟩ 0 "/couplet[1]" (.ofParent threeLines.root)
          (threeLines.root.elements.takeWhile (·.name == declaration.name))
          (.start (some threeLines.root)) forms after := by
  have hbuilds : (buildParticle (levelBelow 4) (.start (Schema.given coupletDocument) .default) 0
      (.element (coupletDocument.node 4) ⟨1, .count 2, rfl⟩) "/couplet[1]"
      (.start (some threeLines.root))).toOption.any (fun made =>
        made.1.map (·.label.options.mismatch?) ==
          [none, none, some "occurrence 3 of <line> exceeds maxOccurs 2"] &&
        made.2.ahead.map Xml.Element.name == ["rhyme"]) = true := by
    decide +kernel
  obtain ⟨⟨forms, after⟩, hrun, hmade⟩ := exists_of_checked hbuilds
  rw [Bool.and_eq_true, beq_iff_eq, beq_iff_eq] at hmade
  obtain ⟨declaration, hdeclaration, -, hover⟩ := buildParticle_occurs hrun
  exact ⟨forms, after, hrun, hmade.1, hmade.2, declaration, hdeclaration, hover _ rfl⟩

end SchemaForms
