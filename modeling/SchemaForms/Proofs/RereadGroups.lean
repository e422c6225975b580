import Mathlib.Data.List.Chain
import SchemaForms.Proofs.RereadRuns

/-!
# Rereading groups

A repeated group takes what is written for its instantiations, each its own part: behind each
part stands what comes first in a later one, to which the instantiation is closed.
-/

namespace SchemaForms

theorem Rereads.grouped {compositor : Compositor} {names : String → Prop} {repeated : Bool}
    {closed : BuildState → String → Prop} {build : Build}
    (h : Rereads compositor.shown names repeated True closed build) (node : Xml.Element)
    (bounds : Bounds) (path : String) :
    Rereads Form.surfaceAll names repeated True closed
      (build.grouped compositor node bounds path) := by
  have hshown : ∀ place children, Form.surfaceAll [groupForm compositor node bounds place children] =
      compositor.shown children := by
    intro place children
    rw [Form.surfaceAll, Form.surfaceAll, List.append_nil, surface_groupForm]
  constructor
  case advancing => exact h.advancing.grouped _ _ _ _
  case leaves =>
    intro state forms after hrun hlacks
    obtain ⟨children, last, hchildren, -, rfl⟩ := Build.grouped_eq_ok.mp hrun
    have hleft := h.leaves _ _ _ hchildren hlacks
    exact hleft
  case named =>
    intro state forms after hrun
    obtain ⟨children, last, hchildren, rfl, -⟩ := Build.grouped_eq_ok.mp hrun
    rw [hshown]
    exact h.named _ _ _ hchildren
  case takes =>
    intro state forms after hrun htakes
    obtain ⟨children, last, hchildren, rfl, rfl⟩ := Build.grouped_eq_ok.mp hrun
    rw [hshown]
    have htaken := h.takes _ _ _ hchildren htakes
    exact htaken
  case shows =>
    intro state forms after hrun
    obtain ⟨children, last, hchildren, rfl, -⟩ := Build.grouped_eq_ok.mp hrun
    rw [hshown]
    exact h.shows _ _ _ hchildren
  case stops =>
    intro state forms after hrun next hnext hname
    obtain ⟨children, last, hchildren, -, rfl⟩ := Build.grouped_eq_ok.mp hrun
    exact h.stops _ _ _ hchildren next hnext hname
  case continued =>
    intro state forms after hrun other others later hother
    obtain ⟨children, last, hchildren, -, -⟩ := Build.grouped_eq_ok.mp hrun
    obtain ⟨more, final, hmore, rfl, -⟩ := Build.grouped_eq_ok.mp hother
    rw [hshown]
    exact h.continued _ _ _ hchildren _ _ _ hmore
  case rereads =>
    intro state forms after hrun cursor written rest hahead hwritten hrest hfree
    obtain ⟨children, last, hchildren, rfl, rfl⟩ := Build.grouped_eq_ok.mp hrun
    rw [hshown] at hwritten
    obtain ⟨reopened, hreopened, hforms⟩ :=
      h.rereads _ _ _ hchildren cursor written rest hahead hwritten hrest (.inl trivial)
    exact ⟨_, Build.grouped_eq_ok.mpr ⟨reopened, _, hreopened, rfl, rfl⟩,
      .cons (Form.reopenedAs_groupForm hforms _ _ _ _) .nil⟩

theorem Instantiations.of_replicate {one : Build} (hone : one.MakesOne fun _ => True) {count : Nat}
    {state after : BuildState} {forms : List Form}
    (hrun : Build.all (List.replicate count one) state = .ok (forms, after)) :
    ∃ runs, Instantiations one state runs after ∧ runs.length = count ∧
      forms = runs.map (·.form) := by
  induction count generalizing state forms with
  | zero =>
      obtain ⟨rfl, rfl⟩ := Build.nothing_eq_ok.mp hrun
      exact ⟨[], .nil, rfl, rfl⟩
  | succ count ih =>
      obtain ⟨made, middle, others, hmade, hothers, rfl⟩ := Build.andThen_eq_ok.mp hrun
      obtain ⟨form, rfl, -⟩ := hone _ _ _ hmade
      obtain ⟨runs, hruns, rfl, rfl⟩ := ih hothers
      exact ⟨_ :: runs, .cons hmade hruns, rfl, rfl⟩

theorem Instantiations.after_eq {one : Build} {state after : BuildState}
    {runs : List Instantiation} (h : Instantiations one state runs after) {last : Instantiation}
    (hlast : last ∈ runs.getLast?) : last.after = after := by
  induction h with
  | nil => cases hlast
  | @cons before middle _ form rest hfirst hrest ih =>
      cases rest with
      | nil =>
          cases hlast
          cases hrest
          rfl
      | cons next others => exact ih hlast

structure GroupRun (one : Build) (repeated : Bool) (names : String → Prop) (bounds : Bounds)
    (tag : String) (state : BuildState) (runs : List Instantiation) (forms : List Form)
    (after : BuildState) : Prop where
  follow : Instantiations one state runs after
  nodes : forms = remarkedForms tag bounds.max 0 runs
  required : requiredCount bounds ≤ runs.length
  admitted : repeated = true → bounds.max.allows runs.length = true
  begins : ∀ index run, runs[index]? = some run → requiredCount bounds ≤ index →
    ¬run.before.Lacks names ∧ (repeated = true → bounds.max.allows (index + 1) = true)
  ended : ∀ next ∈ after.next?, names next.name →
    repeated = true ∨ ∃ last ∈ runs.getLast?, last.TakesNothing

section

variable {one : Build} {names : String → Prop} {bounds : Bounds} {context : Context}
  {group : Particle} {compositor : Compositor}
  (hfound : ∀ found, firstNames context.schema group = .ok found →
    ∀ name, name ∈ found ↔ names name)

include hfound in
theorem instantiate_groupRun (hmakes : one.MakesOne fun _ => True) (hadvancing : one.Advancing)
    (hmax : bounds.max ≠ .count 0) {state after : BuildState} {forms : List Form}
    (hrun : instantiate context group compositor bounds one state = .ok (forms, after)) :
    ∃ runs, GroupRun one context.repeated names bounds compositor.label state runs forms after := by
  cases hcursor : state.cursor with
  | none =>
      rw [instantiate_of_none hmax hcursor] at hrun
      obtain ⟨runs, hruns, hlength, rfl⟩ := Instantiations.of_replicate hmakes hrun
      have hallows := allows_required hmax (Nat.le_of_eq hlength)
      refine ⟨runs, hruns, (remarkedForms_of_allows (by rwa [Nat.zero_add])).symm, hlength.ge,
        fun _ => hallows, fun index run hindex hle => ?_, fun next hnext => ?_⟩
      · have hlt := (List.getElem?_eq_some_iff.mp hindex).1
        omega
      · rw [BuildState.next?, (hruns.advances hadvancing).none hcursor] at hnext
        cases hnext
  | some cursor =>
      obtain ⟨found, runs, hnames, hruns, rfl⟩ := instantiate_eq_ok_of_some hmakes hadvancing hmax
        (by rw [hcursor]; rfl) hrun
      have hmem := hfound found hnames
      refine ⟨runs, hruns.instantiations, rfl, by simpa using hruns.required_le,
        hruns.allows_length hmax, fun index run hindex hle => ?_, fun next hnext hname => ?_⟩
      · obtain ⟨⟨element, helement, hin⟩, hallows⟩ := hruns.begins index run hindex (by omega)
        refine ⟨fun hlacks => hlacks element helement ((hmem _).mp hin), fun hrepeated => ?_⟩
        simpa using hallows hrepeated
      · rcases hruns.ending with hends | hlast
        · rcases (endsAfter_eq_true.mp hends).2 with hnone | ⟨hrepeated, -⟩
          · exact (hnone next hnext ((hmem _).mpr hname)).elim
          · exact .inl hrepeated
        · exact .inr hlast

end

theorem Form.surfaceAll_singleton (form : Form) : Form.surfaceAll [form] = form.surface := by
  rw [Form.surfaceAll, Form.surfaceAll, List.append_nil]

def ClosedTo (closed : BuildState → String → Prop) (run next : Instantiation) : Prop :=
  ∀ head ∈ next.form.surface.head?, closed run.before head.label.tag

section

variable {one : Build} {names : String → Prop} {repeated inner : Bool} {bounds : Bounds}
  {closed : BuildState → String → Prop}
  (hone : Rereads Form.surfaceAll names inner True closed one)

include hone

/-- An instantiation that begins with a name follows one that has left it; any other is
required, so that the group is repeatable. -/
theorem Instantiations.isChain (hinner : bounds.repeats = true → inner = true)
    (hmax : bounds.max ≠ .count 0) (count : Nat) {state after : BuildState}
    {runs : List Instantiation} (h : Instantiations one state runs after)
    (hbegins : ∀ index run, runs[index]? = some run → requiredCount bounds ≤ count + index →
      ¬run.before.Lacks names) : List.IsChain (ClosedTo closed) runs := by
  induction h generalizing count with
  | nil => exact .nil
  | @cons before middle last form rest hfirst hrest ih =>
      have hbehind := ih (count + 1) fun index run hrun hle =>
        hbegins (index + 1) run hrun (by omega)
      cases hrest with
      | nil => exact .singleton _
      | @cons _ _ _ next others hnext _ =>
          refine .cons_cons (fun head hhead => ?_) hbehind
          rw [← Form.surfaceAll_singleton] at hhead
          refine hone.continued _ _ _ hfirst _ _ _ hnext ?_ head hhead
          by_cases hlacks : middle.Lacks names
          · refine .inr ⟨hinner ?_, hlacks, .inl trivial⟩
            by_contra hrepeats
            have hle := Bounds.le_one_of_not_repeats (Bool.eq_false_iff.mpr hrepeats)
              (Bounds.admits_required hmax).max
            exact hbegins 1 _ rfl (by omega) hlacks
          · obtain ⟨element, helement, hname⟩ := BuildState.not_lacks.mp hlacks
            exact .inl ⟨element, helement, hname, hone.stops _ _ _ hfirst element helement hname⟩

theorem shown_eq_nil_of_isChain {run : Instantiation} {runs : List Instantiation}
    (hruns : ∀ other ∈ run :: runs, one other.before = .ok ([other.form], other.after))
    (hchain : List.IsChain (ClosedTo closed) (run :: runs)) (hnone : run.form.surface = []) :
    Form.surfaceAll (runs.map (·.form)) = [] := by
  induction runs generalizing run with
  | nil => rfl
  | cons next others ih =>
      rw [List.isChain_cons_cons] at hchain
      rw [List.forall_mem_cons] at hruns
      have hnext : next.form.surface = [] := by
        rw [← List.head?_eq_none_iff, Option.eq_none_iff_forall_not_mem]
        intro head hhead
        have hshown := hone.shows _ _ _ hruns.1 _ (hchain.1 head hhead)
        rw [Form.surfaceAll_singleton] at hshown
        exact hshown hnone
      rw [List.map_cons, Form.surfaceAll, hnext, ih hruns.2 hchain.2 hnext]
      rfl

theorem closed_behind {run : Instantiation} {runs : List Instantiation}
    (hruns : ∀ other ∈ run :: runs, one other.before = .ok ([other.form], other.after))
    (hchain : List.IsChain (ClosedTo closed) (run :: runs)) {following rest : List Xml.Element}
    (hfollowing : List.Forall₂ Form.WrittenAs (Form.surfaceAll (runs.map (·.form))) following)
    {next : Xml.Element} (hnext : next ∈ (following ++ rest).head?)
    (hrest : next ∈ rest.head? → ∀ last ∈ (run :: runs).getLast?, closed last.before next.name) :
    closed run.before next.name := by
  cases following with
  | nil =>
      have hnone := List.forall₂_nil_right_iff.mp hfollowing
      obtain ⟨last, hlast⟩ : ∃ last, last ∈ (run :: runs).getLast? :=
        ⟨_, List.getLast?_eq_some_getLast (List.cons_ne_nil _ _)⟩
      have hclosed := hrest hnext last hlast
      have hmem := List.mem_of_mem_getLast? hlast
      have hshown := hone.shows _ _ _ (hruns last hmem) _ hclosed
      rcases List.mem_cons.mp hmem with rfl | hmem
      · exact hclosed
      · rw [Form.surfaceAll_singleton] at hshown
        rw [Form.surfaceAll_eq_flatMap, List.flatMap_eq_nil_iff] at hnone
        exact (hshown (hnone _ (List.mem_map_of_mem hmem))).elim
  | cons head tail =>
      obtain ⟨form, hform, htag⟩ := exists_head_of_writtenAs hfollowing hnext
      cases runs with
      | nil => cases hform
      | cons second others =>
          have hlinked := List.isChain_cons_cons.mp hchain
          rw [List.map_cons, Form.surfaceAll] at hform
          cases hshown : second.form.surface with
          | nil =>
              rw [shown_eq_nil_of_isChain hone (fun other hother =>
                hruns other (List.mem_cons_of_mem _ hother)) hlinked.2 hshown, hshown] at hform
              cases hform
          | cons first more =>
              rw [hshown] at hform
              cases hform
              exact htag ▸ hlinked.1 form (by rw [hshown]; rfl)

end

theorem Bounds.Fixed.not_allows {bounds : Bounds} (h : bounds.Fixed) {count : Nat}
    (hadmits : bounds.Admits count) (hpos : count ≠ 0) :
    bounds.max.allows (count + 1) = false := by
  rw [Bool.eq_false_iff]
  intro hallows
  rcases h with hrepeats | hmax
  · have hle := Bounds.le_one_of_not_repeats hrepeats hallows
    omega
  · have hmin := hadmits.min
    rw [hmax, MaxOccurs.allows, decide_eq_true_eq] at hallows
    omega

section

variable {one : Build} {names : String → Prop} {repeated inner : Bool} {bounds : Bounds}
  {closed : BuildState → String → Prop}
  (hone : Rereads Form.surfaceAll names inner True closed one)
  {found : List String} (hfound : ∀ name, name ∈ found ↔ names name)

include hfound in
/-- Behind the last instantiation the group is left: in a repeatable group it has reached its
maximum. -/
theorem endsAfter_last (hfixed : repeated = true → bounds.Fixed) {count : Nat}
    (hrequired : requiredCount bounds ≤ count)
    (hadmitted : repeated = true → bounds.max.allows count = true) {next : Option Xml.Element}
    (hnext : ∀ element ∈ next, names element.name → repeated = true) :
    endsAfter repeated found bounds count next = true := by
  refine endsAfter_eq_true.mpr ⟨hrequired, or_iff_not_imp_left.mpr fun hbegins => ?_⟩
  simp only [not_forall, not_not] at hbegins
  obtain ⟨element, helement, hname⟩ := hbegins
  have hrepeated := hnext element helement ((hfound _).mp hname)
  have hle := Nat.le_max_left bounds.min 1
  have hpos := Nat.le_max_right bounds.min 1
  rw [requiredCount] at hrequired
  exact ⟨hrepeated, (hfixed hrepeated).not_allows ⟨by omega, hadmitted hrepeated⟩ (by omega)⟩

include hfound in
theorem endsAfter_next {count : Nat} {next : Option Xml.Element}
    (hnext : requiredCount bounds ≤ count → (∃ element ∈ next, names element.name) ∧
      (repeated = true → bounds.max.allows (count + 1) = true)) :
    endsAfter repeated found bounds count next = false := by
  rw [← Bool.not_eq_true, endsAfter_eq_true]
  rintro ⟨hrequired, hends⟩
  obtain ⟨⟨element, helement, hname⟩, hallows⟩ := hnext hrequired
  rcases hends with hnone | ⟨hrepeated, hfull⟩
  · exact hnone element helement ((hfound _).mpr hname)
  · rw [hallows hrepeated] at hfull
    cases hfull

section

variable {state middle after : BuildState} {forms following : List Form} {cursor : Cursor}
  {left rest : List Xml.Element} {tag : String} {count : Nat}
  (hgoes : endsAfter repeated found bounds count (state.over cursor).next? = false)
  (hfirst : one.Reopens state forms middle cursor left)

include hgoes hfirst

theorem repeatOver_stops (hrequired : requiredCount bounds ≤ count + 1)
    (hleft : left.length = cursor.ahead.length) (fuel : Nat) :
    (repeatOver repeated found bounds tag one (fuel + 1) count).Reopens state
      (forms.map (remarkWith (surplusError tag bounds.max (count + 1)))) middle cursor left := by
  obtain ⟨reopened, hrun, hforms⟩ :=
    hfirst.remarked (surplusError tag bounds.max (count + 1))
  have hstops : (decide (requiredCount bounds ≤ count + 1) &&
      decide (left.length = cursor.ahead.length)) = true := by simp [hrequired, hleft]
  refine ⟨reopened, ?_, hforms⟩
  simp only [repeatOver, hgoes, Bool.false_eq_true, if_false]
  exact Build.andThen_eq_ok.mpr ⟨reopened, _, [], hrun, if_pos hstops, (List.append_nil _).symm⟩

theorem repeatOver_goesOn
    (hmore : ¬(requiredCount bounds ≤ count + 1 ∧ left.length = cursor.ahead.length)) {fuel : Nat}
    (hrest : (repeatOver repeated found bounds tag one fuel (count + 1)).Reopens middle following
      after { cursor with ahead := left } rest) :
    (repeatOver repeated found bounds tag one (fuel + 1) count).Reopens state
      (forms.map (remarkWith (surplusError tag bounds.max (count + 1))) ++ following) after cursor
      rest := by
  obtain ⟨reopened, hrun, hforms⟩ :=
    hfirst.remarked (surplusError tag bounds.max (count + 1))
  obtain ⟨others, hothers, hfollowing⟩ := hrest
  have hgoesOn : ¬(decide (requiredCount bounds ≤ count + 1) &&
      decide (left.length = cursor.ahead.length)) = true := by simpa using hmore
  refine ⟨reopened ++ others, ?_, List.rel_append hforms hfollowing⟩
  simp only [repeatOver, hgoes, Bool.false_eq_true, if_false]
  exact Build.andThen_eq_ok.mpr ⟨reopened, _, others, hrun, (if_neg hgoesOn).trans hothers, rfl⟩

end

include hone hfound in
/-- The instantiations of a group take what is written for them again, each its own part. -/
theorem repeatOver_reopens (hfixed : repeated = true → bounds.Fixed) (tag : String)
    (count fuel : Nat) {state after : BuildState} {runs : List Instantiation}
    (hruns : Instantiations one state runs after)
    (hchain : List.IsChain (ClosedTo closed) runs)
    (hbegins : ∀ index run, runs[index]? = some run → requiredCount bounds ≤ count + index →
      ¬run.before.Lacks names ∧ (repeated = true → bounds.max.allows (count + index + 1) = true))
    (hrequired : requiredCount bounds ≤ count + runs.length)
    (hadmitted : repeated = true → bounds.max.allows (count + runs.length) = true)
    {cursor : Cursor} (hfuel : max count (requiredCount bounds) + cursor.ahead.length ≤ count + fuel)
    {written rest : List Xml.Element} (hahead : cursor.ahead = written ++ rest)
    (hwritten : List.Forall₂ Form.WrittenAs (Form.surfaceAll (runs.map (·.form))) written)
    (hrest : ∀ next ∈ rest.head?, names next.name →
      repeated = true ∧ ∀ last ∈ runs.getLast?, closed last.before next.name) :
    (repeatOver repeated found bounds tag one fuel count).Reopens state
      (remarkedForms tag bounds.max count runs) after cursor rest := by
  induction hruns generalizing count fuel cursor written with
  | nil =>
      cases hwritten
      rw [List.nil_append] at hahead
      subst hahead
      refine ⟨[], ?_, .nil⟩
      cases fuel with
      | zero => rfl
      | succ fuel =>
          have hends : endsAfter repeated found bounds count cursor.next? = true :=
            endsAfter_last hfound hfixed hrequired hadmitted fun next hnext hname =>
              (hrest next hnext hname).1
          simp only [repeatOver, BuildState.next?, BuildState.over, Option.bind_some, hends, if_true]
  | @cons before middle after form runs hfirst hothers ih =>
      have hall := (Instantiations.cons hfirst hothers).run_of_mem
      rw [List.map_cons, Form.surfaceAll] at hwritten
      obtain ⟨part, following, rfl, hpart, hfollowing⟩ := exists_append_of_forall₂ hwritten
      rw [List.append_assoc] at hahead
      have hbehind : ∀ next ∈ (following ++ rest).head?, names next.name →
          closed before next.name := fun next hnext hname =>
        closed_behind hone hall hchain hfollowing hnext fun hnext => (hrest next hnext hname).2
      rw [← Form.surfaceAll_singleton] at hpart
      have hreopened : one.Reopens before [form] middle cursor (following ++ rest) :=
        hone.rereads _ _ _ hfirst cursor part (following ++ rest) hahead hpart hbehind
          (.inl trivial)
      have hnonempty : requiredCount bounds ≤ count → part ≠ [] := by
        rintro hle rfl
        exact (hbegins 0 _ rfl hle).1
          (hone.lacks_of_shown_eq_nil hfirst (List.forall₂_nil_right_iff.mp hpart))
      have hgoes : endsAfter repeated found bounds count (before.over cursor).next? = false := by
        refine endsAfter_next hfound fun hle => ⟨?_, (hbegins 0 _ rfl hle).2⟩
        obtain ⟨head, tail, rfl⟩ := List.exists_cons_of_ne_nil (hnonempty hle)
        obtain ⟨shown, hshown, htag⟩ :=
          exists_head_of_writtenAs hpart (show head ∈ (head :: tail).head? from rfl)
        refine ⟨head, by simp [BuildState.next?, BuildState.over, Cursor.next?, hahead], ?_⟩
        exact htag ▸ hone.named _ _ _ hfirst shown (List.mem_of_mem_head? hshown)
      have hlength : cursor.ahead.length = part.length + (following ++ rest).length := by
        rw [hahead, List.length_append]
      have hpos : requiredCount bounds ≤ count → 0 < part.length :=
        fun hle => List.length_pos_iff.mpr (hnonempty hle)
      obtain ⟨fuel, rfl⟩ : ∃ left, fuel = left + 1 := ⟨fuel - 1, by omega⟩
      by_cases hstops : requiredCount bounds ≤ count + 1 ∧
          (following ++ rest).length = cursor.ahead.length
      · -- Nothing was written for this instantiation, so it was the last one.
        have hnone : part = [] := List.length_eq_zero_iff.mp (by omega)
        have hlacks := hone.lacks_of_shown_eq_nil hfirst
          (List.forall₂_nil_right_iff.mp (hnone ▸ hpart))
        have hcursor := hone.leaves _ _ _ hfirst hlacks
        cases hothers with
        | nil =>
            cases hfollowing
            exact repeatOver_stops hgoes hreopened hstops.1 hstops.2 fuel
        | cons hnext _ =>
            exact ((hbegins 1 _ rfl hstops.1).1 (hlacks.of_cursor_eq hcursor)).elim
      · have hlater : ∀ index run, runs[index]? = some run →
            requiredCount bounds ≤ count + 1 + index → ¬run.before.Lacks names ∧
              (repeated = true → bounds.max.allows (count + 1 + index + 1) = true) := by
          intro index run hrun hle
          rw [Nat.add_right_comm count 1 index]
          exact hbegins (index + 1) run hrun (by omega)
        have hlast : ∀ next ∈ rest.head?, names next.name →
            repeated = true ∧ ∀ last ∈ runs.getLast?, closed last.before next.name := by
          intro next hnext hname
          refine (hrest next hnext hname).imp_right fun hclosed last hlast => hclosed last ?_
          cases runs with
          | nil => cases hlast
          | cons => exact hlast
        have hcount : count + 1 + runs.length = count + (runs.length + 1) := by omega
        rw [List.length_cons] at hrequired hadmitted
        have hafter := ih (count + 1) fuel hchain.tail hlater (hcount ▸ hrequired)
          (hcount ▸ hadmitted) (by simp only; omega)
          (show ({ cursor with ahead := following ++ rest } : Cursor).ahead = following ++ rest
            from rfl) hfollowing hlast
        exact repeatOver_goesOn hgoes hreopened hstops hafter

end

theorem surfaceAll_remarkedForms {tag : String} {max : MaxOccurs} {count : Nat}
    {runs : List Instantiation}
    (hruns : ∀ run ∈ runs, ∀ error, (remarkWith error run.form).surface = run.form.surface) :
    Form.surfaceAll (remarkedForms tag max count runs) =
      Form.surfaceAll (runs.map (·.form)) := by
  induction runs generalizing count with
  | nil => rfl
  | cons run rest ih =>
      rw [List.forall_mem_cons] at hruns
      have hrest := @ih (count + 1) hruns.2
      rw [remarkedForms, List.zipIdx_cons, List.map_cons, Form.surfaceAll, hruns.1, List.map_cons,
        Form.surfaceAll, ← hrest]
      rfl

section

variable {one : Build} {names : String → Prop} {bounds : Bounds} {context : Context}
  {group : Particle} {compositor : Compositor} {closed : BuildState → String → Prop}

variable (one names bounds context group compositor closed) in
def ClosedGroup (state : BuildState) (name : String) : Prop :=
  context.repeated = true ∧ ∀ runs forms after,
    instantiate context group compositor bounds one state = .ok (forms, after) →
    GroupRun one context.repeated names bounds compositor.label state runs forms after →
    ∀ last ∈ runs.getLast?, closed last.before name

variable (hone : Rereads Form.surfaceAll names (context.repeated || bounds.repeats) True closed one)
  (hmakes : one.MakesOne fun form => ∀ error, (remarkWith error form).surface = form.surface)
  (hmax : bounds.max ≠ .count 0)
  (hfound : ∀ found, firstNames context.schema group = .ok found →
    ∀ name, name ∈ found ↔ names name)
include hone hmakes hmax hfound

/-- A run of the group is one of its instantiations, which are not none, and each of them is
closed to what comes first in the next one. -/
theorem instantiate_cases {state after : BuildState} {forms : List Form}
    (hrun : instantiate context group compositor bounds one state = .ok (forms, after)) :
    ∃ form middle runs,
      GroupRun one context.repeated names bounds compositor.label state
        (⟨state, form, middle⟩ :: runs) forms after ∧
      List.IsChain (ClosedTo closed) (⟨state, form, middle⟩ :: runs) ∧
      Form.surfaceAll forms = form.surface ++ Form.surfaceAll (runs.map (·.form)) := by
  obtain ⟨runs, hruns⟩ := instantiate_groupRun hfound (hmakes.mono fun _ _ => trivial)
    hone.advancing hmax hrun
  have hrequired : 1 ≤ requiredCount bounds := Nat.le_max_right _ _
  have hlength := hruns.required
  have hchain := Instantiations.isChain hone (fun hrepeats => by rw [hrepeats, Bool.or_true])
    hmax 0 hruns.follow fun index run hindex hle => (hruns.begins index run hindex (by omega)).1
  have hshown : Form.surfaceAll forms = Form.surfaceAll (runs.map (·.form)) := by
    rw [hruns.nodes]
    exact surfaceAll_remarkedForms (hruns.follow.ensures hmakes)
  cases runs with
  | nil =>
      rw [List.length_nil] at hlength
      omega
  | cons first rest =>
      obtain ⟨before, form, middle⟩ := first
      obtain rfl : before = state := by
        cases hruns.follow
        rfl
      exact ⟨form, middle, rest, hruns, hchain, hshown⟩

theorem instantiate_named :
    (instantiate context group compositor bounds one).Ensures fun _ forms _ =>
      ∀ form ∈ Form.surfaceAll forms, names form.label.tag := by
  intro state forms after hrun form hform
  obtain ⟨first, middle, runs, hruns, -, hshown⟩ := instantiate_cases hone hmakes hmax hfound hrun
  have hsame : Form.surfaceAll forms =
      Form.surfaceAll ((⟨state, first, middle⟩ :: runs).map Instantiation.form) := hshown
  rw [hsame, Form.surfaceAll_eq_flatMap, List.mem_flatMap] at hform
  obtain ⟨_, hmem, hin⟩ := hform
  obtain ⟨run, hrunMem, rfl⟩ := List.mem_map.mp hmem
  exact hone.named _ _ _ (hruns.follow.run_of_mem run hrunMem) form
    (by rwa [Form.surfaceAll_singleton])

theorem instantiate_takes :
    (instantiate context group compositor bounds one).Ensures fun state forms after =>
      ¬state.Lacks names → Form.surfaceAll forms ≠ [] ∧
        after.ahead.length < state.ahead.length := by
  intro state forms after hrun htakes
  obtain ⟨first, middle, runs, hruns, -, hshown⟩ := instantiate_cases hone hmakes hmax hfound hrun
  cases hruns.follow with
  | cons hfirst hrest =>
      obtain ⟨hnonempty, hlength⟩ := hone.takes _ _ _ hfirst htakes
      rw [Form.surfaceAll_singleton] at hnonempty
      exact ⟨by rw [hshown]; simp [hnonempty],
        Nat.lt_of_le_of_lt (hrest.advances hone.advancing).ahead.length_le hlength⟩

theorem instantiate_shows :
    (instantiate context group compositor bounds one).Ensures fun state forms _ =>
      ∀ name, ClosedGroup one names bounds context group compositor closed state name →
        Form.surfaceAll forms ≠ [] := by
  intro state forms after hrun name hclosed
  obtain ⟨first, middle, runs, hruns, -, hshown⟩ := instantiate_cases hone hmakes hmax hfound hrun
  obtain ⟨last, hlast⟩ : ∃ last, last ∈ (⟨state, first, middle⟩ :: runs).getLast? :=
    ⟨_, List.getLast?_eq_some_getLast (List.cons_ne_nil _ _)⟩
  have hmem := List.mem_of_mem_getLast? hlast
  have hnonempty := hone.shows _ _ _ (hruns.follow.run_of_mem last hmem) name
    (hclosed.2 _ _ _ hrun hruns last hlast)
  have hsame : Form.surfaceAll forms =
      Form.surfaceAll ((⟨state, first, middle⟩ :: runs).map Instantiation.form) := hshown
  rw [Form.surfaceAll_singleton] at hnonempty
  rw [hsame, Form.surfaceAll_eq_flatMap, ne_eq, List.flatMap_eq_nil_iff]
  exact fun hnone => hnonempty (hnone _ (List.mem_map_of_mem hmem))

theorem instantiate_stops :
    (instantiate context group compositor bounds one).Ensures fun state _ after =>
      ∀ next ∈ after.next?, names next.name →
        ClosedGroup one names bounds context group compositor closed state next.name := by
  intro state forms after hrun next hnext hname
  have hleft : ∀ runs forms after,
      GroupRun one context.repeated names bounds compositor.label state runs forms after →
      next ∈ after.next? → ∀ last ∈ runs.getLast?,
        one last.before = .ok ([last.form], last.after) ∧ next ∈ last.after.next? := by
    intro runs forms after hruns hnext last hlast
    exact ⟨hruns.follow.run_of_mem last (List.mem_of_mem_getLast? hlast),
      hruns.follow.after_eq hlast ▸ hnext⟩
  refine ⟨?_, fun runs others later hother hruns last hlast => ?_⟩
  · obtain ⟨_, _, runs, hruns, -⟩ := instantiate_cases hone hmakes hmax hfound hrun
    refine (hruns.ended next hnext hname).resolve_right ?_
    rintro ⟨last, hlast, htakes⟩
    obtain ⟨hlastRun, hlastNext⟩ := hleft _ _ _ hruns hnext last hlast
    have hlacks : last.before.Lacks names := by
      by_contra hnot
      exact Nat.ne_of_lt (hone.takes _ _ _ hlastRun hnot).2 htakes
    exact hlacks.of_cursor_eq (hone.leaves _ _ _ hlastRun hlacks) next hlastNext hname
  · cases hrun.symm.trans hother
    obtain ⟨hlastRun, hlastNext⟩ := hleft _ _ _ hruns hnext last hlast
    exact hone.stops _ _ _ hlastRun next hlastNext hname

theorem instantiate_continued {free : Prop} :
    (instantiate context group compositor bounds one).Ensures fun state _ _ =>
      (instantiate context group compositor bounds one).Ensures fun other others _ =>
        Continues names context.repeated free
          (ClosedGroup one names bounds context group compositor closed) state other →
        ∀ head ∈ (Form.surfaceAll others).head?,
          ClosedGroup one names bounds context group compositor closed state head.label.tag := by
  intro state forms after hrun other others later hother hcontinues head hhead
  obtain ⟨first, middle, runs, hruns, hchain, hshown⟩ :=
    instantiate_cases hone hmakes hmax hfound hother
  have hall := hruns.follow.run_of_mem
  have hfirst : head ∈ first.surface.head? := by
    rw [hshown] at hhead
    cases hsurface : first.surface with
    | nil =>
        rw [shown_eq_nil_of_isChain hone hall hchain hsurface, hsurface] at hhead
        cases hhead
    | cons form more =>
        rw [hsurface] at hhead
        exact hhead
  rw [← Form.surfaceAll_singleton] at hfirst
  refine ⟨?_, fun before forms after hrun hbefore last hlast => ?_⟩
  · rcases hcontinues with ⟨_, -, -, hrepeated, -⟩ | ⟨hrepeated, -⟩ <;> exact hrepeated
  · have hlastRun := hbefore.follow.run_of_mem last (List.mem_of_mem_getLast? hlast)
    refine hone.continued _ _ _ hlastRun _ _ _ (hall _ List.mem_cons_self) ?_ head hfirst
    rcases hcontinues with ⟨next, hnext, hname, -, hclosed⟩ | ⟨hrepeated, hlacks, -⟩
    · exact .inl ⟨next, hnext, hname, hclosed _ _ _ hrun hbefore last hlast⟩
    · exact .inr ⟨by rw [hrepeated, Bool.true_or], hlacks, .inl trivial⟩

/-- A group can be repeated if one instantiation can. -/
theorem Rereads.instantiated
    (hfixed : context.repeated = true → bounds.Fixed)
    (hsearch : ∀ state result,
      instantiate context group compositor bounds one state = .ok result →
        ∃ found, firstNames context.schema group = .ok found) (free : Prop) :
    Rereads Form.surfaceAll names context.repeated free
      (ClosedGroup one names bounds context group compositor closed)
      (instantiate context group compositor bounds one) where
  advancing := instantiate_advancing hone.advancing
  leaves := (leavesUnless_invariant _).instantiate hone.leaves _ _ _ _
  named := instantiate_named hone hmakes hmax hfound
  takes := instantiate_takes hone hmakes hmax hfound
  shows := instantiate_shows hone hmakes hmax hfound
  stops := instantiate_stops hone hmakes hmax hfound
  continued := instantiate_continued hone hmakes hmax hfound
  rereads := by
    intro state forms after hrun cursor written rest hahead hwritten hrest _
    obtain ⟨first, middle, runs, hruns, hchain, hshown⟩ :=
      instantiate_cases hone hmakes hmax hfound hrun
    obtain ⟨found, hnames⟩ := hsearch _ _ hrun
    have hsame : Form.surfaceAll forms =
        Form.surfaceAll ((⟨state, first, middle⟩ :: runs).map Instantiation.form) := hshown
    rw [hsame] at hwritten
    obtain ⟨reopened, hreopened, hforms⟩ := repeatOver_reopens hone (hfound found hnames) hfixed
      compositor.label 0 (requiredCount bounds + cursor.ahead.length) hruns.follow hchain
      (fun index run hindex hle => by simpa using hruns.begins index run hindex (by omega))
      (by simpa using hruns.required) (by simpa using hruns.admitted) (by omega) hahead hwritten
      fun next hnext hname =>
        have hclosed := hrest next hnext hname
        ⟨hclosed.1, hclosed.2 _ _ _ hrun hruns⟩
    refine ⟨reopened, ?_, by rw [hruns.nodes]; exact hforms⟩
    simp only [instantiate, if_neg hmax, BuildState.over]
    exact Build.ofFault_eq_ok.mpr ⟨found, hnames, hreopened⟩

end

end SchemaForms
