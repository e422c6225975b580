import SchemaForms.Proofs.AbsentContent
import SchemaForms.Proofs.ReopenedForms
import SchemaForms.Proofs.Searches

/-!
# Rereading what a run has written

A run of a build is repeated over what is written for its forms. It takes just that, since
behind it come names that the build does not take, or names that the run is closed to: it
has taken as many of them as it may. In a repeatable group each instantiation is closed to
what comes first in the next one.
-/

namespace SchemaForms

/-! ## Runs that are repeated -/

theorem BuildState.not_lacks {named : String → Prop} {state : BuildState} :
    ¬state.Lacks named ↔ ∃ element ∈ state.next?, named element.name := by
  simp [Lacks]

def BuildState.over (state : BuildState) (cursor : Cursor) : BuildState :=
  { state with cursor := some cursor }

def Build.Reopens (build : Build) (state : BuildState) (forms : List Form) (after : BuildState)
    (cursor : Cursor) (rest : List Xml.Element) : Prop :=
  ∃ reopened,
    build (state.over cursor) = .ok (reopened, after.over { cursor with ahead := rest }) ∧
      List.Forall₂ Form.ReopenedAs forms reopened

theorem Build.Reopens.andThen {first second : Build} {state middle after : BuildState}
    {forms following : List Form} {cursor : Cursor} {left rest : List Xml.Element}
    (hfirst : first.Reopens state forms middle cursor left)
    (hsecond : second.Reopens middle following after { cursor with ahead := left } rest) :
    (first.andThen second).Reopens state (forms ++ following) after cursor rest := by
  obtain ⟨reopened, hrun, hforms⟩ := hfirst
  obtain ⟨others, hothers, hfollowing⟩ := hsecond
  exact ⟨reopened ++ others, andThen_eq_ok.mpr ⟨reopened, _, others, hrun, hothers, rfl⟩,
    List.rel_append hforms hfollowing⟩

theorem Build.Reopens.remarked {build : Build} {state after : BuildState} {forms : List Form}
    {cursor : Cursor} {rest : List Xml.Element}
    (h : build.Reopens state forms after cursor rest) (error : Option Mismatch) :
    (build.mapForms (remarkWith error)).Reopens state (forms.map (remarkWith error)) after cursor
      rest := by
  obtain ⟨reopened, hrun, hforms⟩ := h
  refine ⟨reopened.map (remarkWith error), mapForms_eq_ok.mpr ⟨reopened, hrun, rfl⟩, ?_⟩
  rw [List.forall₂_map_left_iff, List.forall₂_map_right_iff]
  exact hforms.imp fun _ _ hform => hform.remarkWith error

theorem exists_append_of_forall₂ {α β : Type} {related : α → β → Prop} {first second : List α}
    {whole : List β} (h : List.Forall₂ related (first ++ second) whole) :
    ∃ before after, whole = before ++ after ∧ List.Forall₂ related first before ∧
      List.Forall₂ related second after := by
  induction first generalizing whole with
  | nil => exact ⟨[], whole, rfl, .nil, h⟩
  | cons head rest ih =>
      cases h with
      | cons hhead hrest =>
          obtain ⟨before, after, rfl, hbefore, hafter⟩ := ih hrest
          exact ⟨_ :: before, after, rfl, .cons hhead hbefore, hafter⟩

theorem exists_head_of_writtenAs {forms : List Form} {written : List Xml.Element}
    (h : List.Forall₂ Form.WrittenAs forms written) {element : Xml.Element}
    (helement : element ∈ written.head?) :
    ∃ form ∈ forms.head?, form.label.tag = element.name := by
  cases h with
  | nil => cases helement
  | cons hfirst _ =>
      cases helement
      exact ⟨_, rfl, hfirst.name.symm⟩

def Continues (names : String → Prop) (repeated : Bool) (free : Prop)
    (closed : BuildState → String → Prop) (state other : BuildState) : Prop :=
  (∃ next ∈ other.next?, names next.name ∧ closed state next.name) ∨
    (repeated = true ∧ other.Lacks names ∧ (free ∨ other.cursor = none))

/-- The runs of a build take elements with these names and can be repeated. A run that shows
nothing is closed to no name; one that leaves an element with one of the names is closed to
it, and then also to what another run has first that continues it. Unless the build is free
to make nothing over an instance, only runs that show something are repeated. -/
structure Rereads (shown : List Form → List Form) (names : String → Prop) (repeated : Bool)
    (free : Prop) (closed : BuildState → String → Prop) (build : Build) : Prop where
  advancing : build.Advancing
  leaves : build.Ensures (LeavesUnless names)
  named : build.Ensures fun _ forms _ => ∀ form ∈ shown forms, names form.label.tag
  takes : build.Ensures fun state forms after => ¬state.Lacks names →
    shown forms ≠ [] ∧ after.ahead.length < state.ahead.length
  shows : build.Ensures fun state forms _ => ∀ name, closed state name → shown forms ≠ []
  stops : build.Ensures fun state _ after =>
    ∀ next ∈ after.next?, names next.name → closed state next.name
  continued : build.Ensures fun state _ _ => build.Ensures fun other others _ =>
    Continues names repeated free closed state other →
      ∀ head ∈ (shown others).head?, closed state head.label.tag
  rereads : build.Ensures fun state forms after => ∀ (cursor : Cursor) written rest,
    cursor.ahead = written ++ rest → List.Forall₂ Form.WrittenAs (shown forms) written →
    (∀ next ∈ rest.head?, names next.name → closed state next.name) →
    (free ∨ shown forms ≠ []) → build.Reopens state forms after cursor rest

namespace Rereads

variable {shown : List Form → List Form} {names others : String → Prop} {repeated : Bool}
  {free : Prop} {closed closedNext : BuildState → String → Prop} {build first second : Build}
  {state after : BuildState} {forms : List Form}

theorem congr (h : Rereads shown names repeated free closed build)
    (hnames : ∀ name, names name ↔ others name) :
    Rereads shown others repeated free closed build := by
  rwa [show others = names from funext fun name => (propext (hnames name)).symm]

theorem of_fails (h : ∀ state result, build state ≠ .ok result) :
    Rereads shown names repeated free (fun _ _ => False) build where
  advancing := fun state _ _ hrun => (h state _ hrun).elim
  leaves := fun state _ _ hrun => (h state _ hrun).elim
  named := fun state _ _ hrun => (h state _ hrun).elim
  takes := fun state _ _ hrun => (h state _ hrun).elim
  shows := fun state _ _ hrun => (h state _ hrun).elim
  stops := fun state _ _ hrun => (h state _ hrun).elim
  continued := fun state _ _ hrun => (h state _ hrun).elim
  rereads := fun state _ _ hrun => (h state _ hrun).elim

theorem lacks_of_shown_eq_nil (h : Rereads shown names repeated free closed build)
    (hrun : build state = .ok (forms, after)) (hnone : shown forms = []) : state.Lacks names := by
  by_contra htakes
  exact (h.takes _ _ _ hrun htakes).1 hnone

theorem nothing :
    Rereads Form.surfaceAll (fun _ => False) repeated free (fun _ _ => False) .nothing where
  advancing := by
    intro state forms after hrun
    obtain ⟨-, rfl⟩ := Build.nothing_eq_ok.mp hrun
    exact .refl after
  leaves := by
    intro state forms after hrun _
    obtain ⟨-, rfl⟩ := Build.nothing_eq_ok.mp hrun
    rfl
  named := by
    intro state forms after hrun form hform
    obtain ⟨rfl, -⟩ := Build.nothing_eq_ok.mp hrun
    cases hform
  takes := fun _ _ _ _ htakes => (htakes fun _ _ => id).elim
  shows := fun _ _ _ _ _ => False.elim
  stops := fun _ _ _ _ _ _ => False.elim
  continued := by
    intro state forms after _ other others last hrun _ head hhead
    obtain ⟨rfl, -⟩ := Build.nothing_eq_ok.mp hrun
    cases hhead
  rereads := by
    intro state forms after hrun cursor written rest hahead hwritten _ _
    obtain ⟨rfl, rfl⟩ := Build.nothing_eq_ok.mp hrun
    cases hwritten
    rw [List.nil_append] at hahead
    subst hahead
    exact ⟨[], rfl, .nil⟩

/-! ## Sequences -/

def ClosedInTurn (names others : String → Prop) (closed closedNext : BuildState → String → Prop)
    (first second : Build) (state : BuildState) (name : String) : Prop :=
  ∃ made middle following after, first state = .ok (made, middle) ∧
    second middle = .ok (following, after) ∧
    ((names name ∧ (closed state name ∨ Form.surfaceAll following ≠ [])) ∨
      (others name ∧ closedNext middle name))

theorem closedInTurn_iff {middle : BuildState} {made following : List Form}
    (hmade : first state = .ok (made, middle)) (hfollowing : second middle = .ok (following, after))
    {name : String} :
    ClosedInTurn names others closed closedNext first second state name ↔
      (names name ∧ (closed state name ∨ Form.surfaceAll following ≠ [])) ∨
        (others name ∧ closedNext middle name) := by
  constructor
  · rintro ⟨_, _, _, _, hfirst, hsecond, hclosed⟩
    cases hmade.symm.trans hfirst
    cases hfollowing.symm.trans hsecond
    exact hclosed
  · exact fun hclosed => ⟨_, _, _, _, hmade, hfollowing, hclosed⟩

section

variable (hfirst : Rereads Form.surfaceAll names repeated True closed first)
  (hsecond : Rereads Form.surfaceAll others repeated True closedNext second)
include hfirst hsecond

theorem andThen_takes :
    (first.andThen second).Ensures fun state forms after =>
      ¬state.Lacks (fun name => names name ∨ others name) →
        Form.surfaceAll forms ≠ [] ∧ after.ahead.length < state.ahead.length := by
  intro state forms after hrun htakes
  obtain ⟨made, middle, following, hmade, hfollowing, rfl⟩ := Build.andThen_eq_ok.mp hrun
  have hmiddle := (hfirst.advancing _ _ _ hmade).ahead.length_le
  have hafter := (hsecond.advancing _ _ _ hfollowing).ahead.length_le
  rw [Form.surfaceAll_append]
  by_cases hlacks : state.Lacks names
  · have hcursor := hfirst.leaves _ _ _ hmade hlacks
    have hnext : ¬middle.Lacks others := by
      intro hothers
      refine htakes fun next hnext hname => ?_
      rcases hname with hname | hname
      · exact hlacks next hnext hname
      · exact hothers next (BuildState.next?_of_cursor_eq hcursor ▸ hnext) hname
    obtain ⟨hshown, hlength⟩ := hsecond.takes _ _ _ hfollowing hnext
    exact ⟨by simp [hshown], by omega⟩
  · obtain ⟨hshown, hlength⟩ := hfirst.takes _ _ _ hmade hlacks
    exact ⟨by simp [hshown], by omega⟩

theorem andThen_stops :
    (first.andThen second).Ensures fun state _ after =>
      ∀ next ∈ after.next?, (names next.name ∨ others next.name) →
        ClosedInTurn names others closed closedNext first second state next.name := by
  intro state forms after hrun next hnext hname
  obtain ⟨made, middle, following, hmade, hfollowing, rfl⟩ := Build.andThen_eq_ok.mp hrun
  refine (closedInTurn_iff hmade hfollowing).mpr ?_
  rcases hname with hname | hname
  · refine .inl ⟨hname, or_iff_not_imp_right.mpr fun hnone => ?_⟩
    have hlacks := hsecond.lacks_of_shown_eq_nil hfollowing (not_not.mp hnone)
    have hcursor := hsecond.leaves _ _ _ hfollowing hlacks
    exact hfirst.stops _ _ _ hmade next (BuildState.next?_of_cursor_eq hcursor ▸ hnext) hname
  · exact .inr ⟨hname, hsecond.stops _ _ _ hfollowing next hnext hname⟩

theorem andThen_continued :
    (first.andThen second).Ensures fun state _ _ =>
      (first.andThen second).Ensures fun other more _ =>
        Continues (fun name => names name ∨ others name) repeated True
          (ClosedInTurn names others closed closedNext first second) state other →
        ∀ head ∈ (Form.surfaceAll more).head?,
          ClosedInTurn names others closed closedNext first second state head.label.tag := by
  intro state forms after hrun other more last hother hcontinues head hhead
  obtain ⟨made, middle, following, hmade, hfollowing, rfl⟩ := Build.andThen_eq_ok.mp hrun
  obtain ⟨begun, reached, left, hbegun, hleft, rfl⟩ := Build.andThen_eq_ok.mp hother
  have hiff := fun name => @closedInTurn_iff names others closed closedNext first second state
    after middle made following hmade hfollowing name
  rw [Form.surfaceAll_append] at hhead
  refine (hiff _).mpr ?_
  cases hshown : Form.surfaceAll begun with
  | nil =>
      rw [hshown, List.nil_append] at hhead
      have hlacks := hfirst.lacks_of_shown_eq_nil hbegun hshown
      have hcursor := hfirst.leaves _ _ _ hbegun hlacks
      have hin := hsecond.named _ _ _ hleft head (List.mem_of_mem_head? hhead)
      refine .inr ⟨hin, hsecond.continued _ _ _ hfollowing _ _ _ hleft ?_ head hhead⟩
      rcases hcontinues with ⟨next, hnext, -, hclosed⟩ | ⟨hrepeated, hnone, -⟩
      · rcases (hiff _).mp hclosed with ⟨hname, -⟩ | ⟨hname, hclosed⟩
        · exact (hlacks next hnext hname).elim
        · exact .inl ⟨next, BuildState.next?_of_cursor_eq hcursor ▸ hnext, hname, hclosed⟩
      · exact .inr ⟨hrepeated, (hnone.mono fun _ => .inr).of_cursor_eq hcursor, .inl trivial⟩
  | cons form tail =>
      rw [hshown] at hhead
      have hhead : head ∈ (Form.surfaceAll begun).head? := by rw [hshown]; exact hhead
      have hin := hfirst.named _ _ _ hbegun head (List.mem_of_mem_head? hhead)
      refine .inl ⟨hin, ?_⟩
      rcases hcontinues with ⟨next, hnext, -, hclosed⟩ | ⟨hrepeated, hnone, -⟩
      · rcases (hiff _).mp hclosed with ⟨hname, hclosed | hshown⟩ | ⟨-, hclosed⟩
        · exact .inl (hfirst.continued _ _ _ hmade _ _ _ hbegun
            (.inl ⟨next, hnext, hname, hclosed⟩) head hhead)
        · exact .inr hshown
        · exact .inr (hsecond.shows _ _ _ hfollowing _ hclosed)
      · exact .inl (hfirst.continued _ _ _ hmade _ _ _ hbegun
          (.inr ⟨hrepeated, hnone.mono fun _ => .inl, .inl trivial⟩) head hhead)

theorem andThen (hdisjoint : ∀ name, names name → ¬others name) :
    Rereads Form.surfaceAll (fun name => names name ∨ others name) repeated True
      (ClosedInTurn names others closed closedNext first second) (first.andThen second) where
  advancing := hfirst.advancing.andThen advances_additive hsecond.advancing
  leaves := by
    refine Build.Ensures.andThen (leavesUnless_invariant _).toAdditive
      (fun state forms after hrun hlacks => ?_) fun state forms after hrun hlacks => ?_
    · exact hfirst.leaves _ _ _ hrun (hlacks.mono fun _ => .inl)
    · exact hsecond.leaves _ _ _ hrun (hlacks.mono fun _ => .inr)
  named := by
    intro state forms after hrun form hform
    obtain ⟨made, middle, following, hmade, hfollowing, rfl⟩ := Build.andThen_eq_ok.mp hrun
    rw [Form.surfaceAll_append] at hform
    exact (List.mem_append.mp hform).imp (hfirst.named _ _ _ hmade form)
      (hsecond.named _ _ _ hfollowing form)
  takes := andThen_takes hfirst hsecond
  shows := by
    intro state forms after hrun name hclosed
    obtain ⟨made, middle, following, hmade, hfollowing, rfl⟩ := Build.andThen_eq_ok.mp hrun
    rw [Form.surfaceAll_append, ne_eq, List.append_eq_nil_iff, not_and_or]
    rcases (closedInTurn_iff hmade hfollowing).mp hclosed with ⟨-, hclosed | hshown⟩ | ⟨-, hclosed⟩
    · exact .inl (hfirst.shows _ _ _ hmade name hclosed)
    · exact .inr hshown
    · exact .inr (hsecond.shows _ _ _ hfollowing name hclosed)
  stops := andThen_stops hfirst hsecond
  continued := andThen_continued hfirst hsecond
  rereads := by
    intro state forms after hrun cursor whole rest hahead hwhole hrest _
    obtain ⟨made, middle, following, hmade, hfollowing, rfl⟩ := Build.andThen_eq_ok.mp hrun
    have hiff := fun name => @closedInTurn_iff names others closed closedNext first second state
      after middle made following hmade hfollowing name
    rw [Form.surfaceAll_append] at hwhole
    obtain ⟨written, left, rfl, hwritten, hleft⟩ := exists_append_of_forall₂ hwhole
    rw [List.append_assoc] at hahead
    refine (hfirst.rereads _ _ _ hmade cursor written (left ++ rest) hahead hwritten
      (fun next hnext hname => ?_) (.inl trivial)).andThen
      (hsecond.rereads _ _ _ hfollowing _ left rest rfl hleft (fun next hnext hname => ?_)
        (.inl trivial))
    · -- Behind the first part stands the second one, if anything is written for it.
      cases left with
      | nil =>
          rcases (hiff _).mp (hrest next hnext (.inl hname)) with ⟨-, hclosed | hshown⟩ | ⟨hin, -⟩
          · exact hclosed
          · exact (hshown (List.forall₂_nil_right_iff.mp hleft)).elim
          · exact (hdisjoint _ hname hin).elim
      | cons element tail =>
          obtain ⟨form, hform, htag⟩ := exists_head_of_writtenAs hleft hnext
          have hin := hsecond.named _ _ _ hfollowing form (List.mem_of_mem_head? hform)
          exact (hdisjoint _ hname (htag ▸ hin)).elim
    · rcases (hiff _).mp (hrest next hnext (.inr hname)) with ⟨hin, -⟩ | ⟨-, hclosed⟩
      · exact (hdisjoint _ hin hname).elim
      · exact hclosed

end

end Rereads

end SchemaForms
