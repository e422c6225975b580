import Mathlib.Data.List.Perm.Subperm
import SchemaForms.Proofs.FreshRuns
import SchemaForms.Proofs.ReopenableSchemas

/-!
# Searches that succeed

A run without an instance compiles no definition inside of itself, so all particles
that it has compiled end: the search for their first names succeeds.
-/

namespace SchemaForms

theorem collectAll_found {collect : Particle → List String → Except SchemaFault (List String)}
    {particles : List Particle}
    (h : ∀ particle ∈ particles, ∀ tags, ∃ names, collect particle tags = .ok names)
    (tags : List String) : ∃ names, collectAll collect particles tags = .ok names := by
  induction particles generalizing tags with
  | nil => exact ⟨tags, rfl⟩
  | cons particle rest ih =>
      obtain ⟨found, hfound⟩ := h particle List.mem_cons_self tags
      obtain ⟨names, hnames⟩ :=
        ih (fun other hother => h other (List.mem_cons_of_mem _ hother)) found
      exact ⟨names, bind_eq_ok.mpr ⟨found, hfound, hnames⟩⟩

structure Searching (schema : Schema) (fuel : Nat) (visiting : List Nat) : Prop where
  nodup : visiting.Nodup
  owned : visiting ⊆ schema.document.elements.map Xml.Element.number
  enough : schema.document.elements.length < fuel + visiting.length

def Found (schema : Schema) (enclosing : List Nat) (particle : Particle) : Prop :=
  ∀ fuel visiting tags, Searching schema fuel visiting → visiting ⊆ enclosing →
    ∃ names, collectFirstNames schema fuel visiting particle tags = .ok names

theorem Found.firstNames {schema : Schema} {enclosing : List Nat} {particle : Particle}
    (h : Found schema enclosing particle) :
    ∃ names, SchemaForms.firstNames schema particle = .ok names :=
  h _ [] [] ⟨List.nodup_nil, by simp, by simp⟩ (by simp)

theorem Searching.enter {schema : Schema} {fuel : Nat} {visiting : List Nat}
    (h : Searching schema fuel visiting) {node : Xml.Element} (howns : schema.Owns node)
    (hfree : node.number ∉ visiting) :
    ∃ left, fuel = left + 1 ∧ Searching schema left (node.number :: visiting) := by
  have hnumber : node.number ∈ schema.document.elements.map Xml.Element.number :=
    List.mem_map_of_mem howns
  have hnodup : (node.number :: visiting).Nodup := List.nodup_cons.mpr ⟨hfree, h.nodup⟩
  have howned := List.cons_subset.mpr ⟨hnumber, h.owned⟩
  have hlength : visiting.length + 1 ≤ schema.document.elements.length := by
    simpa using (List.subperm_of_subset hnodup howned).length_le
  have henough := h.enough
  obtain ⟨left, rfl⟩ : ∃ left, fuel = left + 1 := ⟨fuel - 1, by omega⟩
  exact ⟨left, rfl, hnodup, howned, by rw [List.length_cons]; omega⟩

/-! ## Particles that have been compiled -/

def Occurs (schema : Schema) (particle : Particle) : Prop :=
  ∀ inner, particle.Contains schema inner → inner.bounds.max ≠ .count 0

def Level.Finds (level : Level) (schema : Schema) : Prop :=
  ∀ context atLeast particle path, context.schema = schema → particle.OfSchema schema →
    Occurs schema particle → (level.particle context atLeast particle path).CanSucceed →
    Found schema context.enclosing particle

section

variable {schema : Schema} {deeper : Option Level} {context : Context} {path : String}

theorem buildGroup_found (hgrounded : schema.Grounded) (hcontext : context.schema = schema)
    (hdeeper : ∀ level ∈ deeper, level.Advancing ∧ level.Finds schema)
    {compositor : Compositor} {node : Xml.Element} {bounds : Bounds}
    (hgroup : (Particle.group compositor node bounds).OfSchema schema)
    (hoccurs : Occurs schema (.group compositor node bounds))
    (h : (buildGroup deeper context compositor node bounds path).CanSucceed) :
    Found schema context.enclosing (.group compositor node bounds) := by
  obtain ⟨level, members, hlevel, hfree, hmembers, hmade⟩ :=
    buildGroup_canSucceed (fun level hlevel => (hdeeper level hlevel).1) h
  rw [hcontext] at hmembers
  have hinner : (context.insideGroup node bounds).schema = schema := hcontext
  have hmember : ∀ member ∈ members,
      Found schema (node.number :: context.enclosing) member := fun member hmember =>
    (hdeeper level hlevel).2 _ _ _ _ hinner
      (Particle.members_ofSchema hgrounded hgroup.1 hmembers member hmember)
      (fun inner hcontains => hoccurs inner (.member hmembers hmember hcontains))
      (hmade (hoccurs _ .self) member hmember)
  intro fuel visiting tags hsearching hvisiting
  have hnumber : node.number ∉ visiting := by
    intro hin
    have hencloses : context.encloses node = true := by
      simpa [Context.encloses] using hvisiting hin
    cases hfree.symm.trans hencloses
  obtain ⟨left, rfl, hleft⟩ := hsearching.enter hgroup.1 hnumber
  obtain ⟨names, hnames⟩ := collectAll_found (fun member hin more =>
    hmember member hin left (node.number :: visiting) more hleft
      (List.cons_subset_cons _ hvisiting)) tags
  refine ⟨names, ?_⟩
  rw [collectFirstNames, if_neg (by simpa using hnumber)]
  exact bind_eq_ok.mpr ⟨members, hmembers, hnames⟩

theorem buildElement_found (hcontext : context.schema = schema) {node : Xml.Element}
    {bounds : Bounds} {atLeast : Nat}
    (h : (buildElement deeper context node bounds atLeast path).CanSucceed)
    (enclosing : List Nat) : Found schema enclosing (.element node bounds) := by
  obtain ⟨state, forms, after, -, hrun⟩ := h
  obtain ⟨declaration, hdeclaration, -⟩ := buildElement_eq_ok.mp hrun
  rw [hcontext] at hdeclaration
  obtain ⟨hreference, hname, -⟩ := Declaration.ofParticle_eq_ok hdeclaration
  have hdeclared : declaredName schema node = .ok declaration.name :=
    bind_eq_ok.mpr ⟨_, hreference, hname⟩
  intro fuel visiting tags _ _
  refine ⟨Text.insertText declaration.name tags, ?_⟩
  rw [collectFirstNames]
  exact bind_eq_ok.mpr ⟨_, hdeclared, rfl⟩

theorem buildParticle_finds (hgrounded : schema.Grounded)
    (hdeeper : ∀ level ∈ deeper, level.Advancing ∧ level.Finds schema) :
    Level.Finds ⟨buildParticle deeper, buildAttributeEntry deeper⟩ schema := by
  intro context atLeast particle path hcontext hparticle hoccurs h
  cases particle with
  | element node bounds => exact buildElement_found hcontext h _
  | group compositor node bounds =>
      exact buildGroup_found hgrounded hcontext hdeeper hparticle hoccurs h
  | attributeUse node => exact fun _ _ tags _ _ => ⟨tags, by rw [collectFirstNames]⟩

end

end SchemaForms
