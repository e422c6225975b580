import Mathlib.Data.String.Basic
import SchemaForms.Proofs.Recursion
import SchemaForms.Proofs.Searches

/-!
# Searches for first names

The search for the first names of a particle goes through the groups in it on one way
after the other, and keeps the groups of the way that it is on. It always comes to an end,
since a way has no group twice. It fails where a group leads to itself again, and only
there; else it finds the names of all elements in the particle, and a group that several
ways lead to is none that leads to itself.
-/

namespace SchemaForms

/-- How a search goes: the particles are searched one after the other inside of the groups
`visiting`, and their names are added to those found before. The first fault ends it. -/
inductive Searches (schema : Schema) :
    List Nat → List Particle → List String → Except SchemaFault (List String) → Prop
  | done {visiting : List Nat} {tags : List String} : Searches schema visiting [] tags (.ok tags)
  | element {visiting : List Nat} {node : Xml.Element} {bounds : Bounds} {rest : List Particle}
      {tags : List String} {name : String} {outcome : Except SchemaFault (List String)} :
      declaredName schema node = .ok name →
      Searches schema visiting rest (Text.insertText name tags) outcome →
      Searches schema visiting (.element node bounds :: rest) tags outcome
  | undeclared {visiting : List Nat} {node : Xml.Element} {bounds : Bounds}
      {rest : List Particle} {tags : List String} {fault : SchemaFault} :
      declaredName schema node = .error fault →
      Searches schema visiting (.element node bounds :: rest) tags (.error fault)
  | attributeUse {visiting : List Nat} {node : Xml.Element} {rest : List Particle}
      {tags : List String} {outcome : Except SchemaFault (List String)} :
      Searches schema visiting rest tags outcome →
      Searches schema visiting (.attributeUse node :: rest) tags outcome
  | again {visiting : List Nat} {compositor : Compositor} {node : Xml.Element} {bounds : Bounds}
      {rest : List Particle} {tags : List String} :
      node.number ∈ visiting →
      Searches schema visiting (.group compositor node bounds :: rest) tags
        (.error (.circularDefinition (schema.describe node)))
  | unclassified {visiting : List Nat} {compositor : Compositor} {node : Xml.Element}
      {bounds : Bounds} {rest : List Particle} {tags : List String} {fault : SchemaFault} :
      node.number ∉ visiting → Particle.members schema node = .error fault →
      Searches schema visiting (.group compositor node bounds :: rest) tags (.error fault)
  | failed {visiting : List Nat} {compositor : Compositor} {node : Xml.Element}
      {bounds : Bounds} {members rest : List Particle} {tags : List String}
      {fault : SchemaFault} :
      node.number ∉ visiting → Particle.members schema node = .ok members →
      Searches schema (node.number :: visiting) members tags (.error fault) →
      Searches schema visiting (.group compositor node bounds :: rest) tags (.error fault)
  | group {visiting : List Nat} {compositor : Compositor} {node : Xml.Element} {bounds : Bounds}
      {members rest : List Particle} {tags found : List String}
      {outcome : Except SchemaFault (List String)} :
      node.number ∉ visiting → Particle.members schema node = .ok members →
      Searches schema (node.number :: visiting) members tags (.ok found) →
      Searches schema visiting rest found outcome →
      Searches schema visiting (.group compositor node bounds :: rest) tags outcome

section

variable {schema : Schema} {visiting : List Nat}

/-! ## The search comes to an end -/

theorem Searches.cons_of_error {particle : Particle} {tags : List String} {fault : SchemaFault}
    (h : Searches schema visiting [particle] tags (.error fault)) (rest : List Particle) :
    Searches schema visiting (particle :: rest) tags (.error fault) := by
  cases h with
  | element hname hrest => cases hrest
  | undeclared hname => exact .undeclared hname
  | attributeUse hrest => cases hrest
  | again hin => exact .again hin
  | unclassified hfree hmembers => exact .unclassified hfree hmembers
  | failed hfree hmembers hfails => exact .failed hfree hmembers hfails
  | group hfree hmembers hfound hrest => cases hrest

theorem Searches.cons_of_ok {particle : Particle} {rest : List Particle}
    {tags found : List String} {outcome : Except SchemaFault (List String)}
    (h : Searches schema visiting [particle] tags (.ok found))
    (hrest : Searches schema visiting rest found outcome) :
    Searches schema visiting (particle :: rest) tags outcome := by
  cases h with
  | element hname hdone =>
      cases hdone
      exact .element hname hrest
  | attributeUse hdone =>
      cases hdone
      exact .attributeUse hrest
  | group hfree hmembers hfound hdone =>
      cases hdone
      exact .group hfree hmembers hfound hrest

theorem searches_collectAll {collect : Particle → List String → Except SchemaFault (List String)}
    {particles : List Particle}
    (h : ∀ particle ∈ particles, ∀ tags,
      Searches schema visiting [particle] tags (collect particle tags)) (tags : List String) :
    Searches schema visiting particles tags (collectAll collect particles tags) := by
  induction particles generalizing tags with
  | nil => exact .done
  | cons particle rest ih =>
      have hfirst := h particle List.mem_cons_self tags
      have hrest := ih fun other hother => h other (List.mem_cons_of_mem _ hother)
      rw [collectAll]
      cases hcollect : collect particle tags with
      | error fault =>
          rw [hcollect] at hfirst
          exact hfirst.cons_of_error rest
      | ok found =>
          rw [hcollect] at hfirst
          exact hfirst.cons_of_ok (hrest found)

theorem searches_element (node : Xml.Element) (bounds : Bounds) (tags : List String) :
    Searches schema visiting [.element node bounds] tags
      (do return Text.insertText (← declaredName schema node) tags) := by
  cases hname : declaredName schema node with
  | error fault => exact .undeclared hname
  | ok name => exact .element hname .done

/-- With fuel for the groups that are not on the way, the fuel is never what ends a search. -/
theorem searches_collectFirstNames (hgrounded : schema.Grounded) {fuel : Nat}
    {particle : Particle} (howns : schema.Owns particle.node)
    (hsearching : Searching schema fuel visiting) (tags : List String) :
    Searches schema visiting [particle] tags
      (collectFirstNames schema fuel visiting particle tags) := by
  induction fuel generalizing visiting particle tags with
  | zero =>
      cases particle with
      | element node bounds => exact searches_element node bounds tags
      | attributeUse node => exact .attributeUse .done
      | group compositor node bounds =>
          refine .again (by_contra fun hfree => ?_)
          obtain ⟨left, hleft, -⟩ := hsearching.enter howns hfree
          cases hleft
  | succ fuel ih =>
      cases particle with
      | element node bounds => exact searches_element node bounds tags
      | attributeUse node => exact .attributeUse .done
      | group compositor node bounds =>
          rw [collectFirstNames]
          split
          · rename_i hin
            exact .again (by simpa using hin)
          rename_i hin
          have hfree : node.number ∉ visiting := by simpa using hin
          have hnode : schema.Owns node := howns
          cases hmembers : Particle.members schema node with
          | error fault => exact .unclassified hfree hmembers
          | ok members =>
              obtain ⟨left, hleft, hinner⟩ := hsearching.enter hnode hfree
              cases hleft
              have hall := searches_collectAll (fun member hmember tags =>
                ih (Particle.members_ofSchema hgrounded hnode hmembers member hmember).owns
                  hinner tags) tags
              change Searches schema visiting _ tags (collectAll _ members tags)
              cases hcollect : collectAll (collectFirstNames schema fuel
                  (node.number :: visiting)) members tags with
              | error fault =>
                  rw [hcollect] at hall
                  exact .failed hfree hmembers hall
              | ok found =>
                  rw [hcollect] at hall
                  exact .group hfree hmembers hall .done

theorem Searches.outcome_eq {particles : List Particle} {tags : List String}
    {first second : Except SchemaFault (List String)}
    (hfirst : Searches schema visiting particles tags first)
    (hsecond : Searches schema visiting particles tags second) : first = second := by
  induction hfirst generalizing second with
  | done =>
      cases hsecond
      rfl
  | element hname _ ih =>
      cases hsecond with
      | element hother hrest =>
          cases hname.symm.trans hother
          exact ih hrest
      | undeclared hother => cases hname.symm.trans hother
  | undeclared hname =>
      cases hsecond with
      | element hother hrest => cases hname.symm.trans hother
      | undeclared hother =>
          cases hname.symm.trans hother
          rfl
  | attributeUse _ ih =>
      cases hsecond with
      | attributeUse hrest => exact ih hrest
  | again hin =>
      cases hsecond with
      | again _ => rfl
      | unclassified hfree _ => exact absurd hin hfree
      | failed hfree _ _ => exact absurd hin hfree
      | group hfree _ _ _ => exact absurd hin hfree
  | unclassified hfree hmembers =>
      cases hsecond with
      | again hin => exact absurd hin hfree
      | unclassified _ hothers =>
          cases hmembers.symm.trans hothers
          rfl
      | failed _ hothers _ => cases hmembers.symm.trans hothers
      | group _ hothers _ _ => cases hmembers.symm.trans hothers
  | failed hfree hmembers _ ih =>
      cases hsecond with
      | again hin => exact absurd hin hfree
      | unclassified _ hothers => cases hmembers.symm.trans hothers
      | failed _ hothers hfails =>
          cases hmembers.symm.trans hothers
          cases ih hfails
          rfl
      | group _ hothers hfound _ =>
          cases hmembers.symm.trans hothers
          cases ih hfound
  | group hfree hmembers _ _ ihInner ihRest =>
      cases hsecond with
      | again hin => exact absurd hin hfree
      | unclassified _ hothers => cases hmembers.symm.trans hothers
      | failed _ hothers hfails =>
          cases hmembers.symm.trans hothers
          cases ihInner hfails
      | group _ hothers hfound hrest =>
          cases hmembers.symm.trans hothers
          cases ihInner hfound
          exact ihRest hrest

theorem searches_iff (hgrounded : schema.Grounded) {particle : Particle}
    (howns : schema.Owns particle.node) {outcome : Except SchemaFault (List String)} :
    Searches schema [] [particle] [] outcome ↔ firstNames schema particle = outcome := by
  have hfound : Searches schema [] [particle] [] (firstNames schema particle) :=
    searches_collectFirstNames hgrounded howns ⟨List.nodup_nil, by simp, by simp⟩ []
  constructor
  · exact hfound.outcome_eq
  · rintro rfl
    exact hfound

/-! ## Groups that lead to themselves -/

/-- The particle has a group that leads to itself again. -/
def Particle.Circular (schema : Schema) (particle : Particle) : Prop :=
  ∃ compositor node bounds, particle.Contains schema (.group compositor node bounds) ∧
    Relation.TransGen (schema.Leads schema.innerGroups) node node

theorem Particle.Contains.owns (hgrounded : schema.Grounded) {outer inner : Particle}
    (h : outer.Contains schema inner) (howns : schema.Owns outer.node) :
    schema.Owns inner.node := by
  induction h with
  | self => exact howns
  | member hmembers hmember _ ih =>
      exact ih (Particle.members_ofSchema hgrounded howns hmembers _ hmember).owns

theorem Schema.exists_member_of_leads {node inner : Xml.Element}
    (h : schema.Leads schema.innerGroups node inner) :
    ∃ members compositor bounds, Particle.members schema node = .ok members ∧
      .group compositor inner bounds ∈ members := by
  obtain ⟨-, hinner⟩ := h
  unfold Schema.innerGroups at hinner
  split at hinner
  · rename_i members hmembers
    obtain ⟨member, hmember, hgroup⟩ := List.mem_filterMap.mp hinner
    cases member with
    | group compositor node bounds =>
        cases hgroup
        exact ⟨members, compositor, bounds, hmembers, hmember⟩
    | element node bounds => cases hgroup
    | attributeUse node => cases hgroup
  · cases hinner

theorem Schema.exists_contains_of_leads {node inner : Xml.Element} {members : List Particle}
    (hmembers : Particle.members schema node = .ok members)
    (h : Relation.TransGen (schema.Leads schema.innerGroups) node inner) :
    ∃ member ∈ members, ∃ compositor bounds,
      member.Contains schema (.group compositor inner bounds) := by
  induction h with
  | single hstep =>
      obtain ⟨others, compositor, bounds, hothers, hmember⟩ := exists_member_of_leads hstep
      cases hmembers.symm.trans hothers
      exact ⟨_, hmember, compositor, bounds, .self⟩
  | tail _ hstep ih =>
      obtain ⟨member, hmember, compositor, bounds, hcontains⟩ := ih
      obtain ⟨others, label, range, hothers, hlast⟩ := exists_member_of_leads hstep
      exact ⟨member, hmember, label, range, hcontains.trans (.member hothers hlast .self)⟩

theorem Particle.Contains.leads (hgrounded : schema.Grounded) {member : Particle}
    {compositor : Compositor} {inner : Xml.Element} {bounds : Bounds}
    (h : member.Contains schema (.group compositor inner bounds)) {node : Xml.Element}
    (howns : schema.Owns node) {members : List Particle}
    (hmembers : Particle.members schema node = .ok members) (hmember : member ∈ members) :
    Relation.TransGen (schema.Leads schema.innerGroups) node inner := by
  generalize hgroup : Particle.group compositor inner bounds = last at h
  induction h generalizing node members with
  | self =>
      subst hgroup
      exact .single (Schema.leads_of_member howns hmembers hmember rfl)
  | member hothers hother _ ih =>
      have hnext := Schema.leads_of_member howns hmembers hmember rfl
      have hinner := (Particle.members_ofSchema hgrounded howns hmembers _ hmember).1
      exact .head hnext (ih hinner hothers hother hgroup)

theorem Searches.not_mem_and_not_leads {particles : List Particle} {tags names : List String}
    (h : Searches schema visiting particles tags (.ok names)) {particle : Particle}
    (hparticle : particle ∈ particles) {compositor : Compositor} {node : Xml.Element}
    {bounds : Bounds} (hcontains : particle.Contains schema (.group compositor node bounds)) :
    node.number ∉ visiting ∧
      ¬Relation.TransGen (schema.Leads schema.innerGroups) node node := by
  generalize houtcome : Except.ok names = outcome at h
  induction h generalizing names particle compositor bounds with
  | done => cases hparticle
  | element _ _ ih =>
      rcases List.mem_cons.mp hparticle with rfl | hparticle
      · cases hcontains
      · exact ih hparticle hcontains houtcome
  | attributeUse _ ih =>
      rcases List.mem_cons.mp hparticle with rfl | hparticle
      · cases hcontains
      · exact ih hparticle hcontains houtcome
  | group hfree hmembers _ _ ihInner ihRest =>
      rcases List.mem_cons.mp hparticle with rfl | hparticle
      · cases hcontains with
        | self =>
            refine ⟨hfree, fun hcycle => ?_⟩
            -- The search of the members would come back to the group that it is inside of.
            obtain ⟨member, hmember, _, _, hback⟩ :=
              Schema.exists_contains_of_leads hmembers hcycle
            exact (ihInner hmember hback rfl).1 List.mem_cons_self
        | member hothers hmember hinner =>
            cases hmembers.symm.trans hothers
            obtain ⟨hin, hends⟩ := ihInner hmember hinner rfl
            exact ⟨fun hvisiting => hin (List.mem_cons_of_mem _ hvisiting), hends⟩
      · exact ihRest hparticle hcontains houtcome
  | undeclared _ => cases houtcome
  | again _ => cases houtcome
  | unclassified _ _ => cases houtcome
  | failed _ _ _ _ => cases houtcome

/-! ## Faults of a search -/

def Particle.Resolves (schema : Schema) : Particle → Prop
  | .element node _ => ∃ name, declaredName schema node = .ok name
  | .group _ node _ => ∃ members, Particle.members schema node = .ok members
  | .attributeUse _ => True

/-- All that stands in the particle, with the references to groups followed, resolves. -/
def Particle.Resolved (schema : Schema) (particle : Particle) : Prop :=
  ∀ inner, particle.Contains schema inner → inner.Resolves schema

theorem Particle.Resolved.member {compositor : Compositor} {node : Xml.Element} {bounds : Bounds}
    (h : (Particle.group compositor node bounds).Resolved schema) {members : List Particle}
    (hmembers : Particle.members schema node = .ok members) {member : Particle}
    (hmember : member ∈ members) : member.Resolved schema :=
  fun inner hinner => h inner (.member hmembers hmember hinner)

/-- Where all resolves, a search only fails at a group that it is inside of already, and so
at one that was around it before or leads to itself. -/
theorem Searches.fault_eq (hgrounded : schema.Grounded) {particles : List Particle}
    {tags : List String} {fault : SchemaFault}
    (h : Searches schema visiting particles tags (.error fault))
    (hparticles : ∀ particle ∈ particles,
      schema.Owns particle.node ∧ particle.Resolved schema) :
    ∃ particle ∈ particles, ∃ compositor node bounds,
      particle.Contains schema (.group compositor node bounds) ∧
        fault = .circularDefinition (schema.describe node) ∧
        (node.number ∈ visiting ∨
          Relation.TransGen (schema.Leads schema.innerGroups) node node) := by
  generalize houtcome : Except.error fault = outcome at h
  induction h generalizing fault with
  | done => cases houtcome
  | element _ _ ih =>
      rw [List.forall_mem_cons] at hparticles
      exact List.exists_mem_cons_of_exists (ih hparticles.2 houtcome)
  | attributeUse _ ih =>
      rw [List.forall_mem_cons] at hparticles
      exact List.exists_mem_cons_of_exists (ih hparticles.2 houtcome)
  | group _ _ _ _ _ ih =>
      rw [List.forall_mem_cons] at hparticles
      exact List.exists_mem_cons_of_exists (ih hparticles.2 houtcome)
  | undeclared hname =>
      obtain ⟨name, hother⟩ := (hparticles _ List.mem_cons_self).2 _ .self
      cases hname.symm.trans hother
  | unclassified _ hmembers =>
      obtain ⟨members, hothers⟩ := (hparticles _ List.mem_cons_self).2 _ .self
      cases hmembers.symm.trans hothers
  | again hin =>
      cases houtcome
      exact ⟨_, List.mem_cons_self, _, _, _, .self, rfl, .inl hin⟩
  | @failed visiting compositor node bounds members rest tags fault _ hmembers _ ih =>
      cases houtcome
      obtain ⟨hnode, hresolved⟩ := hparticles _ List.mem_cons_self
      have hmember : ∀ member ∈ members, schema.Owns member.node := fun member hin =>
        (Particle.members_ofSchema hgrounded hnode hmembers member hin).owns
      obtain ⟨member, hin, label, inner, range, hcontains, hfault, hcircle⟩ :=
        ih (fun member hin => ⟨hmember member hin, hresolved.member hmembers hin⟩) rfl
      refine ⟨_, List.mem_cons_self, label, inner, range, .member hmembers hin hcontains, hfault,
        ?_⟩
      rcases hcircle with hcircle | hcircle
      · rcases List.mem_cons.mp hcircle with hsame | hcircle
        · obtain rfl : inner = node :=
            Schema.Owns.eq_of_number_eq (hcontains.owns hgrounded (hmember member hin)) hnode hsame
          exact .inr (hcontains.leads hgrounded hnode hmembers hin)
        · exact .inl hcircle
      · exact .inr hcircle

/-! ## Names that a search finds -/

theorem Text.pairwise_insertText (text : String) {texts : List String}
    (h : texts.Pairwise (· < ·)) : (Text.insertText text texts).Pairwise (· < ·) := by
  induction texts with
  | nil => exact List.pairwise_singleton _ _
  | cons first rest ih =>
      rw [List.pairwise_cons] at h
      simp only [insertText]
      split_ifs with hsame hbefore
      · exact List.pairwise_cons.mpr h
      · refine List.pairwise_cons.mpr ⟨?_, List.pairwise_cons.mpr h⟩
        rw [List.forall_mem_cons]
        exact ⟨hbefore, fun other hother => hbefore.trans (h.1 other hother)⟩
      · refine List.pairwise_cons.mpr ⟨fun other hother => ?_, ih h.2⟩
        rcases mem_insertText.mp hother with rfl | hother
        · exact lt_of_le_of_ne (not_lt.mp hbefore) (Ne.symm hsame)
        · exact h.1 other hother

theorem Searches.ascending {particles : List Particle} {tags names : List String}
    (h : Searches schema visiting particles tags (.ok names)) (htags : tags.Pairwise (· < ·)) :
    names.Pairwise (· < ·) := by
  generalize houtcome : Except.ok names = outcome at h
  induction h generalizing names with
  | done =>
      cases houtcome
      exact htags
  | element _ _ ih => exact ih (Text.pairwise_insertText _ htags) houtcome
  | attributeUse _ ih => exact ih htags houtcome
  | group _ _ _ _ ihInner ihRest => exact ihRest (ihInner htags rfl) houtcome
  | undeclared _ => cases houtcome
  | again _ => cases houtcome
  | unclassified _ _ => cases houtcome
  | failed _ _ _ _ => cases houtcome

theorem Particle.names_iff {particle : Particle} {name : String} :
    particle.Names schema name ↔ ∃ node bounds,
      particle.Contains schema (.element node bounds) ∧ declaredName schema node = .ok name := by
  constructor
  · rintro ⟨path, node, hat, hname⟩
    induction hat with
    | element => exact ⟨_, _, .self, hname⟩
    | member hmembers hindex _ ih =>
        obtain ⟨target, bounds, hcontains, htarget⟩ := ih hname
        exact ⟨target, bounds, .member hmembers (List.mem_of_getElem? hindex) hcontains, htarget⟩
  · rintro ⟨node, bounds, hcontains, hname⟩
    generalize helement : Particle.element node bounds = last at hcontains
    induction hcontains with
    | self =>
        subst helement
        exact Particle.names_element.mpr hname
    | member hmembers hmember _ ih => exact .of_member hmembers hmember (ih helement)

end

/-- The search for the first names of a particle in which all resolves ends with one outcome.
It fails, with the description of a group that leads to itself, exactly if there is such a
group in the particle, and else finds exactly the names of the elements in the particle. -/
theorem firstNames_exact {document : Xml.Document} {root : Xml.Element}
    (hroot : root ∈ document.elements) {schema : Schema}
    (hschema : Schema.ofElement document root = .ok schema) {particle : Particle}
    (howns : schema.Owns particle.node) (hresolved : particle.Resolved schema) :
    (∀ outcome, Searches schema [] [particle] [] outcome ↔
        firstNames schema particle = outcome) ∧
      (particle.Circular schema ↔
        ∃ definition, firstNames schema particle = .error (.circularDefinition definition)) ∧
      (∀ fault, firstNames schema particle = .error fault →
        ∃ compositor node bounds, particle.Contains schema (.group compositor node bounds) ∧
          Relation.TransGen (schema.Leads schema.innerGroups) node node ∧
          fault = .circularDefinition (schema.describe node)) ∧
      (¬particle.Circular schema → ∃ names, firstNames schema particle = .ok names ∧
        names.Pairwise (· < ·) ∧ ∀ name, name ∈ names ↔ ∃ node bounds,
          particle.Contains schema (.element node bounds) ∧
            declaredName schema node = .ok name) := by
  have hgrounded := Schema.grounded_of_ofElement hroot hschema
  have hsearch : ∀ {outcome}, Searches schema [] [particle] [] outcome ↔
      firstNames schema particle = outcome := searches_iff hgrounded howns
  have hfault : ∀ fault, firstNames schema particle = .error fault →
      ∃ compositor node bounds, particle.Contains schema (.group compositor node bounds) ∧
        Relation.TransGen (schema.Leads schema.innerGroups) node node ∧
        fault = .circularDefinition (schema.describe node) := by
    intro fault hfails
    obtain ⟨_, hin, compositor, node, bounds, hcontains, heq, hcircle⟩ :=
      (hsearch.mpr hfails).fault_eq hgrounded
        (List.forall_mem_singleton.mpr ⟨howns, hresolved⟩)
    obtain rfl := List.mem_singleton.mp hin
    exact ⟨compositor, node, bounds, hcontains, hcircle.resolve_left List.not_mem_nil, heq⟩
  have hfound : ∀ names, firstNames schema particle = .ok names → ¬particle.Circular schema :=
    fun names hnames ⟨_, _, _, hcontains, hcycle⟩ =>
      ((hsearch.mpr hnames).not_mem_and_not_leads (List.mem_singleton_self _) hcontains).2 hcycle
  refine ⟨fun _ => hsearch, ⟨fun hcircular => ?_, ?_⟩, hfault, fun hends => ?_⟩
  · cases houtcome : firstNames schema particle with
    | ok names => exact absurd hcircular (hfound names houtcome)
    | error fault =>
        obtain ⟨_, node, _, _, _, heq⟩ := hfault fault houtcome
        exact ⟨schema.describe node, congrArg _ heq⟩
  · rintro ⟨definition, hfails⟩
    obtain ⟨compositor, node, bounds, hcontains, hcycle, -⟩ := hfault _ hfails
    exact ⟨compositor, node, bounds, hcontains, hcycle⟩
  · cases houtcome : firstNames schema particle with
    | ok names =>
        exact ⟨names, rfl, (hsearch.mpr houtcome).ascending .nil,
          fun name => (mem_firstNames houtcome).trans Particle.names_iff⟩
    | error fault =>
        obtain ⟨compositor, node, bounds, hcontains, hcycle, -⟩ := hfault fault houtcome
        exact absurd ⟨compositor, node, bounds, hcontains, hcycle⟩ hends

def Schema.resolvesAll (schema : Schema) (particles : List Particle) : Bool :=
  particles.all fun
    | .element node _ => (declaredName schema node).isOk
    | .group _ node _ =>
        match Particle.members schema node with
        | .ok members => members.all (particles.contains ·)
        | .error _ => false
    | .attributeUse _ => true

theorem Particle.resolved_of_resolvesAll {schema : Schema} (particles : List Particle)
    (h : schema.resolvesAll particles = true) :
    ∀ particle ∈ particles, particle.Resolved schema := by
  rw [Schema.resolvesAll, List.all_eq_true] at h
  intro particle hparticle inner hcontains
  induction hcontains with
  | @self particle =>
      have hresolves := h particle hparticle
      cases particle with
      | element node bounds =>
          cases hname : declaredName schema node with
          | ok name => exact ⟨name, hname⟩
          | error fault =>
              simp only [hname] at hresolves
              cases hresolves
      | group compositor node bounds =>
          cases hmembers : Particle.members schema node with
          | ok members => exact ⟨members, hmembers⟩
          | error fault => simp [hmembers] at hresolves
      | attributeUse node => trivial
  | member hmembers hmember _ ih =>
      have hclosed := h _ hparticle
      simp only [hmembers, List.all_eq_true, List.contains_iff_mem] at hclosed
      exact ih (hclosed _ hmember)

def signsDocument : Xml.Document :=
  .ofRoots (.plain "schema" [] [
    .plain "element" [("name", "rule")] [],
    .plain "group" [("name", "signs")] [
      .plain "choice" [] [
        .plain "element" [("name", "sign")] [],
        .plain "element" [("name", "blank")] []]],
    .plain "group" [("name", "row")] [
      .plain "sequence" [] [
        .plain "group" [("ref", "signs")] [],
        .plain "sequence" [] [
          .plain "element" [("ref", "rule")] [],
          .plain "group" [("ref", "signs")] []]]],
    .plain "group" [("name", "chain")] [
      .plain "choice" [] [
        .plain "element" [("name", "link")] [],
        .plain "group" [("ref", "chain")] []]]]) []

def rowParticles : List Particle :=
  [.group .sequence (signsDocument.node 7) .single,
    .group .sequence (signsDocument.node 9) .single,
    .group .choice (signsDocument.node 3) .single, .element (signsDocument.node 4) .single,
    .element (signsDocument.node 5) .single, .element (signsDocument.node 10) .single]

def chainParticles : List Particle :=
  [.group .choice (signsDocument.node 13) .single, .element (signsDocument.node 14) .single]

theorem signs_firstNames :
    let schema := Schema.given signsDocument
    let row := Particle.group .sequence (signsDocument.node 7) .single
    let chain := Particle.group .choice (signsDocument.node 13) .single
    Schema.ofElement signsDocument signsDocument.root = .ok schema ∧
      (schema.Owns row.node ∧ row.Resolved schema ∧ ¬row.Circular schema ∧
        firstNames schema row = .ok ["blank", "rule", "sign"] ∧
        ∀ name, name ∈ ["blank", "rule", "sign"] ↔ ∃ node bounds,
          row.Contains schema (.element node bounds) ∧ declaredName schema node = .ok name) ∧
      schema.Owns chain.node ∧ chain.Resolved schema ∧ chain.Circular schema ∧
        firstNames schema chain = .error (.circularDefinition "group \"chain\"") := by
  intro schema row chain
  have hroot : signsDocument.root ∈ signsDocument.elements :=
    List.mem_append_left _ List.mem_cons_self
  have hschema : Schema.ofElement signsDocument signsDocument.root = .ok schema :=
    Schema.ofDocument_eq_given (by decide +kernel)
  have hrowOwned : schema.Owns row.node := by
    rw [Schema.Owns]
    decide +kernel
  have hchainOwned : schema.Owns chain.node := by
    rw [Schema.Owns]
    decide +kernel
  have hrowResolved : row.Resolved schema :=
    Particle.resolved_of_resolvesAll rowParticles (by decide +kernel) row List.mem_cons_self
  have hchainResolved : chain.Resolved schema :=
    Particle.resolved_of_resolvesAll chainParticles (by decide +kernel) chain
      List.mem_cons_self
  obtain ⟨-, hrowCircular, -, hrowNames⟩ := firstNames_exact hroot hschema hrowOwned hrowResolved
  obtain ⟨-, hchainCircular, -, -⟩ := firstNames_exact hroot hschema hchainOwned hchainResolved
  have hrow : firstNames schema row = .ok ["blank", "rule", "sign"] := by decide +kernel
  have hchain : firstNames schema chain = .error (.circularDefinition "group \"chain\"") := by
    decide +kernel
  have hends : ¬row.Circular schema := by
    rw [hrowCircular, hrow]
    rintro ⟨_, hfails⟩
    cases hfails
  obtain ⟨names, hnames, -, hexact⟩ := hrowNames hends
  cases hrow.symm.trans hnames
  exact ⟨hschema, ⟨hrowOwned, hrowResolved, hends, hrow, hexact⟩, hchainOwned, hchainResolved,
    hchainCircular.mpr ⟨_, hchain⟩, hchain⟩

end SchemaForms
