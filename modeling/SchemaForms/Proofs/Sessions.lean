import SchemaForms.Compile.Request
import SchemaForms.Proofs.CreatedParticles

/-!
# Sessions

A workspace that answers requests one after the other keeps nothing of them but
their nodes. A later request is answered as in a new workspace, with numbers
moved behind the nodes that are there, and these stay as they are.
-/

namespace SchemaForms

/-! ## Requests -/

namespace Workspace

structure Idle (workspace : Workspace) : Prop where
  inProgress : workspace.inProgress = []
  positions : workspace.positions = []

theorem idle_new (schema : Schema) (settings : Settings) : (new schema settings).Idle := ⟨rfl, rfl⟩

theorem Idle.eq_workspace {workspace : Workspace} (h : workspace.Idle) :
    workspace = (Context.start workspace.schema workspace.settings).workspace
      workspace.arena [] := by
  obtain ⟨schema, settings, arena, inProgress, positions⟩ := workspace
  obtain ⟨rfl, rfl⟩ := h
  rfl

end Workspace

section

variable {schema : Schema} {settings : Settings} {atLeast : Nat} {particle : Particle}
  {path : String} {parent : Option Xml.Element}

theorem createAtTop_of_ok {forms : List Form} {after : BuildState}
    (h : buildAtTop schema settings atLeast particle path parent = .ok (forms, after))
    (arena : Arena) :
    createAtTop atLeast particle path parent ((Context.start schema settings).workspace arena []) =
      (.ok ((arena.insertAll forms).2, after.walk 0),
        (Context.start schema settings).workspace (arena.insertAll forms).1 []) := by
  have hfollows := (interiorBelow_enters settings.maxDepth (.start schema settings)
    (Nat.zero_add _)).createParticle atLeast particle path
  have hcreated := hfollows.ok arena [] 0 rfl h
  rw [walk_start] at hcreated
  exact Action.inContent_eq _ hcreated

theorem createAtTop_of_error {failure : Failure}
    (h : buildAtTop schema settings atLeast particle path parent = .error failure)
    (arena : Arena) :
    createAtTop atLeast particle path parent ((Context.start schema settings).workspace arena []) =
      (.error failure.error,
        (Context.start schema settings).workspace (arena.insertAll failure.finished).1 []) := by
  have hfollows := (interiorBelow_enters settings.maxDepth (.start schema settings)
    (Nat.zero_add _)).createParticle atLeast particle path
  obtain ⟨counts, hcreated⟩ := hfollows.error arena [] 0 rfl h
  rw [walk_start] at hcreated
  exact Action.inContent_eq _ hcreated

end

namespace Workspace

def answered (workspace : Workspace) :
    Except Failure Compiled → Except Diagnostic (List FormId) × Workspace
  | .ok compiled =>
      let (arena, ids) := workspace.arena.insertAll compiled.answer
      (.ok ids, { workspace with arena := (arena.insertAll compiled.surplus).1 })
  | .error failure =>
      (.error failure.error,
        { workspace with arena := (workspace.arena.insertAll failure.finished).1 })

section

variable (context : Context) (arena : Arena) (root : Form) (surplus : List Form)

theorem remark_root (error : Option Mismatch) :
    Action.remark [(arena.insert root).2] error
        (context.workspace ((arena.insert root).1.insertAll surplus).1 []) =
      (.ok (), context.workspace
        ((arena.insert (remarkWith error root)).1.insertAll surplus).1 []) := by
  cases error with
  | none => rfl
  | some error =>
      simp only [remarkWith, Form.remark, Form.mapOptions, Arena.insert_mapLabel,
        Arena.insertAll_relabel _ _ (Arena.index_insert_lt arena root)]
      rfl

theorem snd_insert_remarkWith (error : Option Mismatch) :
    (arena.insert (remarkWith error root)).2 = (arena.insert root).2 := by
  cases error with
  | none => rfl
  | some error => simp only [remarkWith, Form.remark, Form.mapOptions, Arena.insert_mapLabel]

theorem tagOf_insert :
    ((arena.insert root).1.insertAll surplus).1.tagOf (arena.insert root).2 = root.label.tag := by
  cases root with
  | node label children =>
      have hcell := (Arena.grows_insertAll _ surplus).cell? (Arena.cell?_append_self
        (arena.insertAll children).1 ⟨label, (arena.insertAll children).2⟩)
      simp only [Arena.tagOf, Arena.insert, hcell]
      rfl

end

theorem head?_foreignRoot (root : Form) (after : BuildState) :
    ((Walk.aheadOf (after.walk 0)).head?.map fun found =>
      Mismatch.foreignRoot root.label.tag found.name) = rootError root after := by
  rw [aheadOf_walk, rootError]
  cases after.ahead <;> rfl

theorem run_root (schema : Schema) (settings : Settings) (arena : Arena) (name : Option String)
    (document : Option Xml.Document) :
    ((Context.start schema settings).workspace arena []).run (.root name document) =
      ((Context.start schema settings).workspace arena []).answered
        ((Request.root name document).compile schema settings) := by
  simp only [run, Request.compile, compileForm]
  cases hselected : schema.selectGlobal name with
  | error fault => exact Action.bind_of_error (Action.demand_of_error hselected) _
  | ok element =>
      refine (Action.bind_of_ok (Action.demand_of_ok hselected) _).trans ?_
      simp only
      cases hbuilt : buildAtTop schema settings 1 (.element element .single) ""
          (document.map Xml.Document.holder) with
      | error failure => exact Action.bind_of_error (createAtTop_of_error hbuilt arena) _
      | ok result =>
          obtain ⟨forms, after⟩ := result
          refine (Action.bind_of_ok (createAtTop_of_ok hbuilt arena) _).trans ?_
          cases forms with
          | nil => rfl
          | cons root surplus =>
              have htag : Action.read (fun workspace => workspace.arena.tagOf (arena.insert root).2)
                  ((Context.start schema settings).workspace
                    (arena.insertAll (root :: surplus)).1 []) =
                  (.ok root.label.tag, (Context.start schema settings).workspace
                    (arena.insertAll (root :: surplus)).1 []) :=
                congrArg (fun tag => (Except.ok tag, _)) (tagOf_insert arena root surplus)
              refine (Action.bind_of_ok htag _).trans ?_
              have hremark := remark_root (.start schema settings) arena root surplus
                (rootError root after)
              refine (Action.bind_of_ok ((congrArg (Action.remark [(arena.insert root).2] · _)
                (head?_foreignRoot root after)).trans hremark) _).trans ?_
              exact congrArg (fun id => (Except.ok [id], _))
                (snd_insert_remarkWith arena root (rootError root after)).symm

theorem run_particle (schema : Schema) (settings : Settings) (arena : Arena) (tag : String)
    (node : Xml.Element) (path : String) (parent : Option Xml.Element) :
    ((Context.start schema settings).workspace arena []).run (.particle tag node path parent) =
      ((Context.start schema settings).workspace arena []).answered
        ((Request.particle tag node path parent).compile schema settings) := by
  simp only [run, Request.compile, compileParticle, createDeclared]
  by_cases hname : node.name = tag
  · simp only [if_pos hname]
    cases hparticle : Particle.ofElement? schema node with
    | error fault =>
        exact Action.bind_of_error (Action.located_of_error (Action.demand_of_error hparticle) _) _
    | ok found =>
        refine (Action.bind_of_ok (Action.located_of_ok (Action.demand_of_ok hparticle) _)
          _).trans ?_
        cases found with
        | none => rfl
        | some particle =>
            simp only
            cases hbuilt : buildAtTop schema settings 0 particle path parent with
            | error failure => exact Action.bind_of_error (createAtTop_of_error hbuilt arena) _
            | ok result => exact Action.bind_of_ok (createAtTop_of_ok hbuilt arena) _
  · simp only [if_neg hname]
    rfl

theorem Idle.run_eq {workspace : Workspace} (h : workspace.Idle) (request : Request) :
    workspace.run request =
      workspace.answered (request.compile workspace.schema workspace.settings) := by
  rw [h.eq_workspace]
  cases request with
  | root name document => exact run_root _ _ _ name document
  | particle tag node path parent => exact run_particle _ _ _ tag node path parent

/-! ## Requests one after the other -/

def runAll (workspace : Workspace) : List Request → Workspace
  | [] => workspace
  | request :: rest => (workspace.run request).2.runAll rest

theorem snd_answered (workspace : Workspace) (outcome : Except Failure Compiled) :
    (workspace.answered outcome).2 =
      { workspace with arena := (workspace.answered outcome).2.arena } := by
  cases outcome <;> rfl

/-- A request leaves all but the arena as it was: the stack and the counters are empty again,
also where it fails. -/
theorem Idle.snd_run {workspace : Workspace} (h : workspace.Idle) (request : Request) :
    (workspace.run request).2 =
      { workspace with arena := (workspace.run request).2.arena } := by
  rw [h.run_eq]
  exact snd_answered workspace _

theorem Idle.run {workspace : Workspace} (h : workspace.Idle) (request : Request) :
    (workspace.run request).2.Idle := by
  rw [h.snd_run]
  exact ⟨h.inProgress, h.positions⟩

theorem Idle.runAll {workspace : Workspace} (h : workspace.Idle) (requests : List Request) :
    (workspace.runAll requests).Idle := by
  induction requests generalizing workspace with
  | nil => exact h
  | cons request rest ih => exact ih (h.run request)

theorem Idle.runAll_eq {workspace : Workspace} (h : workspace.Idle) (requests : List Request) :
    workspace.runAll requests =
      { workspace with arena := (workspace.runAll requests).arena } := by
  induction requests generalizing workspace with
  | nil => rfl
  | cons request rest ih =>
      have hrest := ih (h.run request)
      rw [Workspace.runAll, hrest, h.snd_run]

/-- The answer to a request and the nodes it adds are those of a new workspace. -/
theorem Idle.run_fresh {workspace : Workspace} (h : workspace.Idle) (request : Request) :
    workspace.run request =
      (((new workspace.schema workspace.settings).run request).1.map
          (List.map (FormId.behind workspace.arena.size)),
        { workspace with
          arena := workspace.arena.join
            ((new workspace.schema workspace.settings).run request).2.arena }) := by
  have hinsert := fun forms => Arena.insertAll_join workspace.arena .empty forms
  simp only [Arena.join_empty] at hinsert
  rw [h.run_eq, (idle_new _ _).run_eq]
  simp only [new]
  cases request.compile workspace.schema workspace.settings with
  | error failure => simp only [answered, hinsert, Except.map]
  | ok compiled => simp only [answered, hinsert, Arena.insertAll_join, Except.map]

/-- Whatever requests came before, they left nothing but nodes. A request gives the same fault,
or nodes with the same labels and children as in a new workspace, and the nodes that were there
stay. -/
theorem run_after_runs (schema : Schema) (settings : Settings) (requests : List Request)
    (request : Request) :
    let earlier := (new schema settings).runAll requests
    let later := earlier.run request
    let fresh := (new schema settings).run request
    earlier = { new schema settings with arena := earlier.arena } ∧
      later.2 = { new schema settings with arena := later.2.arena } ∧
      later.1 = fresh.1.map (List.map (FormId.behind earlier.arena.size)) ∧
      later.2.arena.size = earlier.arena.size + fresh.2.arena.size ∧
      (∀ id, later.2.arena.cell? (id.behind earlier.arena.size) =
        (fresh.2.arena.cell? id).map (Cell.behind earlier.arena.size)) ∧
      ∀ id, id.index < earlier.arena.size →
        later.2.arena.cell? id = earlier.arena.cell? id := by
  intro earlier later fresh
  have hearlier : earlier = { new schema settings with arena := earlier.arena } :=
    (idle_new schema settings).runAll_eq requests
  have hidle : earlier.Idle := (idle_new schema settings).runAll requests
  have hlater : later = (fresh.1.map (List.map (FormId.behind earlier.arena.size)),
      { new schema settings with arena := earlier.arena.join fresh.2.arena }) := by
    refine (hidle.run_fresh request).trans ?_
    rw [hearlier]
    rfl
  rw [hlater]
  exact ⟨hearlier, rfl, rfl, Arena.size_join _ _, Arena.cell?_join_behind _ _,
    fun id hid => Arena.cell?_join_of_lt _ _ hid⟩

end Workspace

end SchemaForms
