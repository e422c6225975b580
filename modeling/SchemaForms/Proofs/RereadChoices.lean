import SchemaForms.Proofs.RereadRuns

/-!
# Rereading choices

A choice takes what is written for its selected alternative again, and the others are compiled
as before. It need not have been matched the first time: an alternative that is selected by
default is written like any other, and is then found in the instance.
-/

namespace SchemaForms

section

variable {level : Level} {context : Context} {path : String} {members : List Particle}
  {start : Nat} {matched selected : Option Nat} {state after : BuildState} {forms : List Form}

theorem untaken_alternatives (hmatched : ∀ index, start ≤ index → matched ≠ some index)
    (hrun : Build.all ((members.zipIdx start).map fun numbered =>
      buildAlternative level context path matched selected numbered.1 numbered.2) state =
        .ok (forms, after)) :
    after.cursor = state.cursor ∧ ∀ other : Option Nat,
      (∀ index, start ≤ index → other ≠ some index) → ∀ cursor,
        Build.all ((members.zipIdx start).map fun numbered =>
          buildAlternative level context path other selected numbered.1 numbered.2)
            (state.over cursor) = .ok (forms, after.over cursor) := by
  induction members generalizing start state forms with
  | nil =>
      obtain ⟨rfl, rfl⟩ := Build.nothing_eq_ok.mp hrun
      exact ⟨rfl, fun _ _ _ => rfl⟩
  | cons member rest ih =>
      obtain ⟨made, middle, others, hmade, hothers, rfl⟩ := Build.andThen_eq_ok.mp hrun
      obtain ⟨single, rfl, ⟨hsome, -⟩ | ⟨-, last, hlast, rfl⟩⟩ := buildAlternative_eq_ok.mp hmade
      · exact (hmatched start (Nat.le_refl _) hsome).elim
      obtain ⟨hcursor, hagain⟩ :=
        ih (fun index hindex => hmatched index (Nat.le_of_succ_le hindex)) hothers
      refine ⟨hcursor, fun other hother cursor => ?_⟩
      have hrest := hagain other (fun index hindex => hother index (Nat.le_of_succ_le hindex)) cursor
      exact Build.andThen_eq_ok.mpr ⟨_, _, others, buildAlternative_eq_ok.mpr ⟨single, rfl,
        .inr ⟨hother start (Nat.le_refl _), last, hlast, rfl⟩⟩, hrest, rfl⟩

variable (level context path members start matched state after forms) in
structure SelectedAt (index : Nat) (member : Particle) (before : BuildState) (made : List Form)
    (last : BuildState) : Prop where
  found : members[index]? = some member
  compiled : level.particle context 1 member path before = .ok (made, last)
  cursor : (matched = some (start + index) ∧ before.cursor = state.cursor ∧
      after.cursor = last.cursor) ∨
    (matched ≠ some (start + index) ∧ before.cursor = none ∧ after.cursor = state.cursor)
  shown : Form.surfaceSelected forms =
    Form.surfaceAll (made.map (·.insertOption OptionKey.selected (.bool true)))
  again : ∀ (cursor : Cursor) rest,
    (level.particle context 1 member path).Reopens before made last cursor rest →
    (Build.all ((members.zipIdx start).map fun numbered => buildAlternative level context path
      (some (start + index)) (some (start + index)) numbered.1 numbered.2)).Reopens state forms
        after cursor rest

theorem buildAlternative_compiled {member : Particle} {index : Nat} {middle : BuildState}
    (hrun : buildAlternative level context path matched selected member index state =
      .ok (forms, middle)) :
    ∃ before made last,
      (∀ cursor, before.over cursor = state.over cursor) ∧
      (∀ cursor, last.over cursor = middle.over cursor) ∧
      level.particle context 1 member path before = .ok (made, last) ∧
      ((matched = some index ∧ before.cursor = state.cursor ∧ middle.cursor = last.cursor) ∨
        (matched ≠ some index ∧ before.cursor = none ∧ middle.cursor = state.cursor)) ∧
      forms = made.map
        (·.insertOption OptionKey.selected (.bool (decide (selected = some index)))) := by
  obtain ⟨made, rfl, ⟨hsome, hmade⟩ | ⟨hnone, last, hmade, rfl⟩⟩ := buildAlternative_eq_ok.mp hrun
  · exact ⟨state, made, middle, fun _ => rfl, fun _ => rfl, hmade, .inl ⟨hsome, rfl, rfl⟩, rfl⟩
  · exact ⟨{ state with cursor := none }, made, last, fun _ => rfl, fun _ => rfl, hmade,
      .inr ⟨hnone, rfl, rfl⟩, rfl⟩

theorem exists_selectedAt {index : Nat} {member : Particle}
    (hmember : members[index]? = some member)
    (hmatched : ∀ other, matched = some other → other = start + index)
    (hrun : Build.all ((members.zipIdx start).map fun numbered =>
      buildAlternative level context path matched (some (start + index)) numbered.1 numbered.2)
        state = .ok (forms, after)) :
    ∃ before made last, SelectedAt level context path members start matched state after forms
      index member before made last := by
  induction members generalizing start index state forms with
  | nil => cases hmember
  | cons first rest ih =>
      obtain ⟨marked, middle, others, hmarked, hothers, rfl⟩ := Build.andThen_eq_ok.mp hrun
      cases index with
      | zero =>
          cases hmember
          have hhidden : Form.surfaceSelected others = [] :=
            alternatives_hidden (by intro index hindex; simp; omega) hothers
          have hleft : ∀ index, start + 1 ≤ index → matched ≠ some index := by
            intro index hindex hsome
            have := hmatched index hsome
            omega
          obtain ⟨hcursor, hothersAgain⟩ := untaken_alternatives hleft hothers
          obtain ⟨before, made, last, hbefore, hsteps, hcompiled, hcases, rfl⟩ :=
            buildAlternative_compiled hmarked
          refine ⟨before, made, last, rfl, hcompiled, ?_, ?_, fun cursor left hagain => ?_⟩
          · rwa [Nat.add_zero, hcursor]
          · rw [Form.surfaceSelected_append, hhidden, List.append_nil, Nat.add_zero,
              decide_eq_true rfl, Form.surfaceSelected_select, if_pos rfl]
          · obtain ⟨reopened, hreopened, hforms⟩ := hagain
            rw [hbefore, hsteps] at hreopened
            refine ⟨_, Build.andThen_eq_ok.mpr ⟨_, _, others, buildAlternative_eq_ok.mpr
              ⟨reopened, rfl, .inl ⟨rfl, hreopened⟩⟩, hothersAgain _
                (by intro index hindex; simp; omega) { cursor with ahead := left }, rfl⟩, ?_⟩
            exact List.rel_append (Form.reopenedAs_select hforms _) (Form.reopenedAs_self others)
      | succ index =>
          have hindex : start + (index + 1) = start + 1 + index := by omega
          rw [hindex] at hothers hmatched
          have hother : decide (some (start + 1 + index) = some start) = false := by simp; omega
          rw [hindex] at hmarked
          obtain ⟨single, rfl, ⟨hsome, -⟩ | ⟨hnone, last, hlast, rfl⟩⟩ :=
            buildAlternative_eq_ok.mp hmarked
          · have hstart := hmatched start hsome
            omega
          obtain ⟨before, made, final, hselected⟩ := ih hmember hmatched hothers
          refine ⟨before, made, final, hmember, hselected.compiled, ?_, ?_,
            fun cursor left hagain => ?_⟩
          · rw [hindex]
            exact hselected.cursor
          · rw [Form.surfaceSelected_append, hother, Form.surfaceSelected_select]
            exact hselected.shown
          · rw [hindex]
            have hfirst : (buildAlternative level context path (some (start + 1 + index))
                (some (start + 1 + index)) first start).Reopens state
                (single.map (·.insertOption OptionKey.selected
                  (.bool (decide (some (start + 1 + index) = some start)))))
                { last with cursor := state.cursor } cursor cursor.ahead :=
              ⟨_, buildAlternative_eq_ok.mpr ⟨single, rfl, .inr ⟨by simp; omega, last, hlast, rfl⟩⟩,
                Form.reopenedAs_self _⟩
            exact hfirst.andThen (hselected.again cursor left hagain)

section

variable {index : Nat} {member : Particle} {before last : BuildState} {made : List Form}
  (h : SelectedAt level context path members start matched state after forms index member before
    made last)
include h

theorem SelectedAt.tags_eq :
    (Form.surfaceSelected forms).map (·.label.tag) = (Form.surfaceAll made).map (·.label.tag) := by
  rw [h.shown]
  exact Form.shownTags_map_mapOptions _ made

theorem SelectedAt.shown_eq_nil :
    Form.surfaceSelected forms = [] ↔ Form.surfaceAll made = [] := by
  have hlength := congrArg List.length h.tags_eq
  rw [List.length_map, List.length_map] at hlength
  rw [← List.length_eq_zero_iff, hlength, List.length_eq_zero_iff]

theorem SelectedAt.head_tag {head : Form} (hhead : head ∈ (Form.surfaceSelected forms).head?) :
    ∃ form ∈ (Form.surfaceAll made).head?, form.label.tag = head.label.tag := by
  have htags := congrArg List.head? h.tags_eq
  rw [List.head?_map, List.head?_map, Option.mem_def.mp hhead, Option.map_some, eq_comm,
    Option.map_eq_some_iff] at htags
  exact htags

end

end

theorem alternativeFor_eq_ok {schema : Schema} {members : List Particle}
    {next : Option Xml.Element} {matched : Option Nat}
    (h : alternativeFor schema members next = .ok matched) :
    (∀ index, matched = some index → ∃ element ∈ next, ∃ member, members[index]? = some member ∧
      member.Names schema element.name) ∧
    (matched = none → ∀ element ∈ next, ¬Named schema members element.name) := by
  cases next with
  | none =>
      cases h
      exact ⟨by simp, by simp⟩
  | some element =>
      obtain ⟨hsome, hnone⟩ := firstBeginning_eq_ok h
      refine ⟨fun index hindex => ⟨element, rfl, hsome index hindex⟩, fun hmatched other hother => ?_⟩
      cases hother
      exact hnone hmatched

section

variable {level : Level} {context : Context} {path : String} {members : List Particle}
  {matched : Option Nat} {state after : BuildState} {forms : List Form}

theorem exists_of_selectedIndex {next : Option Xml.Element} {index : Nat}
    (hmatched : alternativeFor context.schema members next = .ok matched)
    (hselected : selectedIndex context.settings members matched = some index) :
    ∃ member, members[index]? = some member := by
  cases matched with
  | some other =>
      cases hselected
      obtain ⟨_, -, member, hmember, -⟩ := (alternativeFor_eq_ok hmatched).1 index rfl
      exact ⟨member, hmember⟩
  | none =>
      cases members with
      | nil =>
          cases hdefault : context.settings.defaultChoice <;>
            simp [selectedIndex, hdefault] at hselected
      | cons first others =>
          cases hdefault : context.settings.defaultChoice <;>
            simp [selectedIndex, hdefault] at hselected
          exact ⟨first, by rw [← hselected]; rfl⟩

/-- A run of a choice selects no alternative and shows nothing, or it selects one. -/
theorem buildChoice_selects
    (hrun : buildChoice level context members path state = .ok (forms, after)) :
    ∃ matched, alternativeFor context.schema members state.next? = .ok matched ∧
      Build.all (members.zipIdx.map fun numbered => buildAlternative level context path matched
        (selectedIndex context.settings members matched) numbered.1 numbered.2) state =
          .ok (forms, after) ∧
      ((selectedIndex context.settings members matched = none ∧ Form.surfaceSelected forms = []) ∨
        ∃ index member before made last,
          selectedIndex context.settings members matched = some index ∧
          SelectedAt level context path members 0 matched state after forms index member before made
            last) := by
  obtain ⟨matched, hmatched, hall⟩ := Build.ofFault_eq_ok.mp hrun
  refine ⟨matched, hmatched, hall, ?_⟩
  cases hselected : selectedIndex context.settings members matched with
  | none =>
      rw [hselected] at hall
      exact .inl ⟨rfl, alternatives_hidden (by simp) hall⟩
  | some index =>
      obtain ⟨member, hmember⟩ := exists_of_selectedIndex hmatched hselected
      have hsame : ∀ other, matched = some other → other = 0 + index := by
        rintro other rfl
        cases hselected
        exact (Nat.zero_add _).symm
      rw [hselected, ← Nat.zero_add index] at hall
      obtain ⟨before, made, last, hat⟩ := exists_selectedAt hmember hsame hall
      exact .inr ⟨index, member, before, made, last, rfl, hat⟩

variable (level context path members) in
def ClosedChoice (closed : Particle → BuildState → String → Prop) (state : BuildState)
    (name : String) : Prop :=
  (∃ forms after, buildChoice level context members path state = .ok (forms, after) ∧
    Form.surfaceSelected forms ≠ []) ∧
  ∀ matched forms after index member before made last,
    alternativeFor context.schema members state.next? = .ok matched →
    buildChoice level context members path state = .ok (forms, after) →
    selectedIndex context.settings members matched = some index →
    SelectedAt level context path members 0 matched state after forms index member before made
      last →
    member.Names context.schema name → closed member before name

variable {repeated : Bool} {free : Prop} {closed : Particle → BuildState → String → Prop}
  (hmembers : ∀ member ∈ members, Rereads Form.surfaceAll (member.Names context.schema) repeated
    free (closed member) (level.particle context 1 member path))
include hmembers

theorem buildChoice_takes :
    (buildChoice level context members path).Ensures fun state forms after =>
      ¬state.Lacks (Named context.schema members) →
        Form.surfaceSelected forms ≠ [] ∧ after.ahead.length < state.ahead.length := by
  intro state forms after hrun htakes
  obtain ⟨matched, hmatched, -, hcases⟩ := buildChoice_selects hrun
  cases matched with
  | none => exact (htakes ((alternativeFor_eq_ok hmatched).2 rfl)).elim
  | some found =>
      obtain ⟨element, helement, member, hmember, hname⟩ :=
        (alternativeFor_eq_ok hmatched).1 found rfl
      rcases hcases with ⟨hnone, -⟩ | ⟨index, other, before, made, last, hindex, hat⟩
      · cases hnone
      cases hindex
      cases hmember.symm.trans hat.found
      rcases hat.cursor with ⟨-, hbefore, hafter⟩ | ⟨hother, -⟩
      · have hnext : ¬before.Lacks (member.Names context.schema) := fun hlacks =>
          hlacks element (BuildState.next?_of_cursor_eq hbefore ▸ helement) hname
        obtain ⟨hshown, hlength⟩ := (hmembers member (List.mem_of_getElem? hmember)).takes _ _ _
          hat.compiled hnext
        refine ⟨hat.shown_eq_nil.not.mpr hshown, ?_⟩
        simpa only [BuildState.ahead, hbefore, hafter] using hlength
      · exact (hother (by simp)).elim

theorem buildChoice_named :
    (buildChoice level context members path).Ensures fun _ forms _ =>
      ∀ form ∈ Form.surfaceSelected forms, Named context.schema members form.label.tag := by
  intro state forms after hrun form hform
  obtain ⟨matched, -, -, ⟨-, hnone⟩ | ⟨index, member, before, made, last, -, hat⟩⟩ :=
    buildChoice_selects hrun
  · rw [hnone] at hform
    cases hform
  · have hmember := List.mem_of_getElem? hat.found
    have htag : form.label.tag ∈ (Form.surfaceAll made).map (·.label.tag) :=
      hat.tags_eq ▸ List.mem_map_of_mem hform
    obtain ⟨shown, hshown, htag⟩ := List.mem_map.mp htag
    exact ⟨member, hmember, htag ▸ (hmembers member hmember).named _ _ _ hat.compiled shown hshown⟩

theorem buildChoice_stops (hleaves : (buildChoice level context members path).Ensures
      (LeavesUnless (Named context.schema members))) :
    (buildChoice level context members path).Ensures fun state _ after =>
      ∀ next ∈ after.next?, Named context.schema members next.name →
        ClosedChoice level context path members closed state next.name := by
  intro state forms after hrun next hnext hname
  have htakes : ¬state.Lacks (Named context.schema members) := fun hlacks =>
    hlacks next (BuildState.next?_of_cursor_eq (hleaves _ _ _ hrun hlacks) ▸ hnext) hname
  refine ⟨⟨forms, after, hrun, (buildChoice_takes hmembers _ _ _ hrun htakes).1⟩, ?_⟩
  intro matched others later index member before made last hmatched hother hselected hat hin
  cases hrun.symm.trans hother
  have hmember := hmembers member (List.mem_of_getElem? hat.found)
  rcases hat.cursor with ⟨-, -, hafter⟩ | ⟨hunmatched, -, -⟩
  · exact hmember.stops _ _ _ hat.compiled next (BuildState.next?_of_cursor_eq hafter ▸ hnext) hin
  · cases matched with
    | none => exact (htakes ((alternativeFor_eq_ok hmatched).2 rfl)).elim
    | some found =>
        cases hselected
        exact (hunmatched (by simp)).elim

theorem buildChoice_continued (hunique : UniqueNames context.schema members) :
    (buildChoice level context members path).Ensures fun state _ _ =>
      (buildChoice level context members path).Ensures fun other others _ =>
        Continues (Named context.schema members) repeated True
          (ClosedChoice level context path members closed) state other →
        ∀ head ∈ (Form.surfaceSelected others).head?,
          ClosedChoice level context path members closed state head.label.tag := by
  intro state forms after hrun other others later hother hcontinues head hhead
  obtain ⟨matched, hmatched, -, ⟨-, hnone⟩ | ⟨index, member, before, made, last, hselected, hat⟩⟩ :=
    buildChoice_selects hother
  · rw [hnone] at hhead
    cases hhead
  obtain ⟨first, hfirst, htag⟩ := hat.head_tag hhead
  have hmember := hmembers member (List.mem_of_getElem? hat.found)
  have hin := hmember.named _ _ _ hat.compiled first (List.mem_of_mem_head? hfirst)
  rw [← htag]
  have hclosed : ∀ found start chosen reached, SelectedAt level context path members 0 found
      state after forms index member start chosen reached →
      alternativeFor context.schema members state.next? = .ok found →
      selectedIndex context.settings members found = some index →
      closed member start first.label.tag := by
    intro found start chosen reached hbegun hfound hindex
    refine hmember.continued _ _ _ hbegun.compiled _ _ _ hat.compiled ?_ first hfirst
    rcases hcontinues with ⟨next, hnext, hname, -, hclosed⟩ | ⟨hrepeated, hlacks, -⟩
    · cases matched with
      | none => exact ((alternativeFor_eq_ok hmatched).2 rfl next hnext hname).elim
      | some number =>
          cases hselected
          obtain ⟨element, helement, particle, hparticle, hbegins⟩ :=
            (alternativeFor_eq_ok hmatched).1 index rfl
          cases hat.found.symm.trans hparticle
          cases Option.mem_unique helement hnext
          rcases hat.cursor with ⟨-, hbefore, -⟩ | ⟨hother, -⟩
          · exact .inl ⟨next, BuildState.next?_of_cursor_eq hbefore ▸ hnext, hbegins,
              hclosed _ _ _ _ _ _ _ _ hfound hrun hindex hbegun hbegins⟩
          · exact (hother (by simp)).elim
    · obtain rfl := alternativeFor_eq_none hmatched hlacks
      rcases hat.cursor with ⟨hsome, -⟩ | ⟨-, hbefore, -⟩
      · cases hsome
      · refine .inr ⟨hrepeated, ?_, .inr hbefore⟩
        intro element helement
        rw [BuildState.next?, hbefore] at helement
        cases helement
  refine ⟨?_, ?_⟩
  · rcases hcontinues with ⟨next, -, -, ⟨hshown, -⟩⟩ | ⟨hrepeated, hlacks, -⟩
    · exact hshown
    · refine ⟨forms, after, hrun, ?_⟩
      by_cases htakes : state.Lacks (Named context.schema members)
      · obtain ⟨found, hfound, -, hcases⟩ := buildChoice_selects hrun
        obtain rfl := alternativeFor_eq_none hmatched hlacks
        obtain rfl := alternativeFor_eq_none hfound htakes
        rw [hselected] at hcases
        rcases hcases with ⟨hnone, -⟩ | ⟨_, _, start, chosen, reached, hindex, hbegun⟩
        · cases hnone
        · cases hindex
          cases hat.found.symm.trans hbegun.found
          exact hbegun.shown_eq_nil.not.mpr (hmember.shows _ _ _ hbegun.compiled _
            (hclosed _ _ _ _ hbegun hfound hselected))
      · exact (buildChoice_takes hmembers _ _ _ hrun htakes).1
  · intro found _ _ _ _ start chosen reached hfound hagain hindex hbegun hname
    cases hrun.symm.trans hagain
    cases hunique.index_eq hbegun.found hat.found hname hin
    cases hat.found.symm.trans hbegun.found
    exact hclosed _ _ _ _ hbegun hfound hindex

theorem buildChoice_reopens (hunique : UniqueNames context.schema members)
    (hsearch : ∀ state result, buildChoice level context members path state = .ok result →
      ∀ next, ∃ matched, alternativeFor context.schema members next = .ok matched) :
    (buildChoice level context members path).Ensures fun state forms after =>
      ∀ (cursor : Cursor) written rest, cursor.ahead = written ++ rest →
        List.Forall₂ Form.WrittenAs (Form.surfaceSelected forms) written →
        (∀ next ∈ rest.head?, Named context.schema members next.name →
          ClosedChoice level context path members closed state next.name) →
        (buildChoice level context members path).Reopens state forms after cursor rest := by
  intro state forms after hrun cursor written rest hahead hwritten hrest
  obtain ⟨again, hagain⟩ := hsearch _ _ hrun cursor.next?
  obtain ⟨matched, hmatched, hall, hcases⟩ := buildChoice_selects hrun
  cases written with
  | nil =>
      have hnone := List.forall₂_nil_right_iff.mp hwritten
      rw [List.nil_append] at hahead
      subst hahead
      obtain rfl := alternativeFor_eq_none hagain fun element helement hname => by
        obtain ⟨⟨others, later, hother, hshown⟩, -⟩ := hrest element helement hname
        cases hrun.symm.trans hother
        exact hshown hnone
      have hlacks : state.Lacks (Named context.schema members) := by
        by_contra htakes
        exact (buildChoice_takes hmembers _ _ _ hrun htakes).1 hnone
      obtain rfl := alternativeFor_eq_none hmatched hlacks
      exact ⟨forms, Build.ofFault_eq_ok.mpr ⟨none, hagain,
        (untaken_alternatives (by simp) hall).2 none (by simp) cursor⟩, Form.reopenedAs_self forms⟩
  | cons head tail =>
      rcases hcases with ⟨-, hnone⟩ | ⟨index, member, before, made, last, hselected, hat⟩
      · rw [hnone] at hwritten
        cases hwritten
      have hmember := hmembers member (List.mem_of_getElem? hat.found)
      rw [hat.shown] at hwritten
      have hmade := Form.writtenAs_of_map_mapOptions hwritten
      obtain ⟨first, hfirst, htag⟩ := exists_head_of_writtenAs hmade
        (show head ∈ (head :: tail).head? from rfl)
      have hin : member.Names context.schema head.name :=
        htag ▸ hmember.named _ _ _ hat.compiled first (List.mem_of_mem_head? hfirst)
      have hnext : cursor.next? = some head := by rw [Cursor.next?, hahead]; rfl
      obtain rfl := hunique.alternativeFor_eq hat.found hin (hnext ▸ hagain)
      have hshown : Form.surfaceAll made ≠ [] := by
        intro hnone
        rw [hnone] at hfirst
        cases hfirst
      have hreopens := hat.again cursor rest (hmember.rereads _ _ _ hat.compiled cursor
        (head :: tail) rest hahead hmade (fun next hnext hname => (hrest next hnext
          ⟨member, List.mem_of_getElem? hat.found, hname⟩).2 _ _ _ _ _ _ _ _ hmatched hrun hselected
            hat hname) (.inr hshown))
      rw [Nat.zero_add] at hreopens
      obtain ⟨reopened, hreopened, hforms⟩ := hreopens
      exact ⟨reopened, Build.ofFault_eq_ok.mpr ⟨some index, hagain, hreopened⟩, hforms⟩

theorem Rereads.choice (hlevel : level.Advancing ∧ level.LeavesAbsent)
    (hunique : UniqueNames context.schema members)
    (hsearch : ∀ state result, buildChoice level context members path state = .ok result →
      ∀ next, ∃ matched, alternativeFor context.schema members next = .ok matched) :
    Rereads Form.surfaceSelected (Named context.schema members) repeated True
      (ClosedChoice level context path members closed)
      (buildChoice level context members path) := by
  have hleaves : (buildChoice level context members path).Ensures
      (LeavesUnless (Named context.schema members)) :=
    (leavesUnless_invariant _).buildMembers (fun member hmember _ _ _ _ hrun hlacks =>
      hlevel.2 _ _ _ _ _ _ _ hrun (hlacks.mono fun _ hname => ⟨member, hmember, hname⟩)) .choice
  exact {
    advancing := buildMembers_advancing hlevel.1 .choice members
    leaves := hleaves
    named := buildChoice_named hmembers
    takes := buildChoice_takes hmembers
    shows := fun state forms after hrun name hclosed => by
      obtain ⟨⟨others, later, hother, hshown⟩, -⟩ := hclosed
      cases hrun.symm.trans hother
      exact hshown
    stops := buildChoice_stops hmembers hleaves
    continued := buildChoice_continued hmembers hunique
    rereads := fun _ _ _ hrun cursor written rest hahead hwritten hrest _ =>
      buildChoice_reopens hmembers hunique hsearch _ _ _ hrun cursor written rest hahead hwritten
        hrest }

end

end SchemaForms
