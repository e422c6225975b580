import SchemaForms.Proofs.StoreRuns
import SchemaForms.Store.Widget

/-!
# What a request to a widget changes

A request reads the element it names and writes at most that element, with the
retrieved value in its data option. What it answers and what it writes depend on
nothing else in the store, so requests to different elements can be exchanged.
-/

namespace SchemaForms

structure StoredNode.AgreesButData (element now : StoredNode) : Prop where
  tag : now.tag = element.tag
  value : now.value = element.value
  children : now.children = element.children
  options : ∀ key, key ≠ OptionKey.data → now.options.get? key = element.options.get? key

theorem StoredNode.agreesButData_self (element : StoredNode) : element.AgreesButData element :=
  ⟨rfl, rfl, rfl, fun _ _ => rfl⟩

theorem StoredNode.agreesButData_keep (element : StoredNode) (data : String) :
    element.AgreesButData (element.keep data) :=
  ⟨rfl, rfl, rfl, fun _ different => Text.Dictionary.get?_insert_of_ne _ different _⟩

namespace Store

def put (store : Store) (id : Nat) (element : StoredNode) : Store :=
  match store.update id element with
  | .ok after => after
  | .error _ => store

theorem update_eq_put {store : Store} {id : Nat} {held : StoredNode}
    (h : store.load id = .ok held) (element : StoredNode) :
    store.update id element = .ok (store.put id element) := by
  rw [put, update_eq, load_eq_ok_iff.mp h]

theorem size_put (store : Store) (id : Nat) (element : StoredNode) :
    (store.put id element).size = store.size := by
  rw [put, update_eq]
  cases store.find? id with
  | none => rfl
  | some held =>
      simp only
      rw [← length_elements, elements_ofElements, List.length_set, length_elements]

theorem load_put (store : Store) (id : Nat) (element : StoredNode) (other : Nat) :
    (store.put id element).load other =
      if id = other then (store.load other).map (fun _ => element) else store.load other := by
  cases hload : store.load id with
  | error error =>
      have same : store.put id element = store := by
        rw [put, update_eq]
        cases hfound : store.find? id with
        | none => rfl
        | some held =>
            rw [load_eq_ok_iff.mpr hfound] at hload
            cases hload
      rw [same]
      by_cases here : id = other
      · rw [if_pos here, ← here, hload]
        rfl
      · rw [if_neg here]
  | ok held =>
      have hmemory : (store.put id element).memory = store.memory.put id element := by
        have hsome : (store.memory.find? id).isSome = true :=
          Option.isSome_iff_exists.mpr ⟨held, load_eq_ok_iff.mp hload⟩
        rw [put, update, dif_pos hsome]
      rw [load, hmemory, MemoryStore.load_put]
      by_cases here : id = other
      · rw [if_pos here, if_pos here, ← here, hload]
        rfl
      · rw [if_neg here, if_neg here, load]

theorem ext_load {store other : Store} (h : ∀ id, store.load id = other.load id) :
    store = other := by
  rw [← store.ofElements_elements, ← other.ofElements_elements]
  refine congrArg ofElements (List.ext_getElem? fun index => Option.ext fun element => ?_)
  have found : store.load (index + 1) = .ok element ↔ other.load (index + 1) = .ok element := by
    rw [h]
  rwa [load_eq_ok_iff, load_eq_ok_iff, find?_succ, find?_succ] at found

theorem put_comm (store : Store) {id other : Nat} (different : id ≠ other)
    (element held : StoredNode) :
    (store.put id element).put other held = (store.put other held).put id element := by
  refine ext_load fun place => ?_
  rw [load_put, load_put, load_put, load_put]
  by_cases first : id = place
  · subst first
    rw [if_neg (Ne.symm different), if_pos rfl, if_pos rfl, if_neg (Ne.symm different)]
  · rw [if_neg first, if_neg first]

end Store

theorem WidgetRegistry.find_fails {registry : WidgetRegistry} {key : String}
    {error : WidgetError} (h : registry.find key = .error error) : error = .unknownWidget key := by
  rw [find] at h
  split at h
  · cases h
  · cases h
    rfl

namespace WidgetRequest

/-- All that a request needs to write: the element it names, the key and the widget of the
element, and a value that the widget takes from the request. -/
structure Retrieves (request : WidgetRequest) (store : Store) (registry : WidgetRegistry)
    (id : Nat) (element : StoredNode) (key : String) (widget : Widget) (data : String) :
    Prop where
  named : request.target = some id
  held : store.load id = .ok element
  keyed : element.options.widgetKey? = some key
  registered : registry.find key = .ok widget
  retrieved : widget.retrieve element request = some data

def shown (request : WidgetRequest) (widget : Widget) (key : String) (element : StoredNode)
    (data : String) : Except WidgetError WidgetResponse :=
  match widget.render element request with
  | some html => .ok ⟨html, data⟩
  | none => .error (.nothingShown key)

variable {request : WidgetRequest} {store : Store} {registry : WidgetRegistry}

theorem handle_of_retrieves {id : Nat} {element : StoredNode} {key : String} {widget : Widget}
    {data : String} (h : request.Retrieves store registry id element key widget data) :
    request.handle store registry =
      (request.shown widget key (element.keep data) data, store.put id (element.keep data)) := by
  have hresolve : request.resolve store registry = .ok (id, element, key, widget) := by
    simp only [resolve, h.named, h.held, h.keyed, h.registered]
  rw [handle, hresolve]
  simp only [h.retrieved, Store.update_eq_put h.held, shown]
  cases widget.render (element.keep data) request <;> rfl

theorem handle_refused_or_retrieves (request : WidgetRequest) (store : Store)
    (registry : WidgetRegistry) :
    (∃ error, (∀ key, error ≠ .nothingShown key) ∧ ∀ other : Store,
        (∀ id, request.target = some id → other.load id = store.load id) →
          request.handle other registry = (.error error, other)) ∨
      ∃ id element key widget data,
        request.Retrieves store registry id element key widget data := by
  cases htarget : request.target with
  | none =>
      refine .inl ⟨.missingTarget, nofun, fun other _ => ?_⟩
      simp only [handle, resolve, htarget]
  | some id =>
      cases hload : store.load id with
      | error error =>
          refine .inl ⟨.store error, nofun, fun other same => ?_⟩
          simp only [handle, resolve, htarget, same id rfl, hload]
      | ok element =>
          cases hkey : element.options.widgetKey? with
          | none =>
              refine .inl ⟨.missingKey id, nofun, fun other same => ?_⟩
              simp only [handle, resolve, htarget, same id rfl, hload, hkey]
          | some key =>
              cases hwidget : registry.find key with
              | error error =>
                  obtain rfl := WidgetRegistry.find_fails hwidget
                  refine .inl ⟨.unknownWidget key, nofun, fun other same => ?_⟩
                  simp only [handle, resolve, htarget, same id rfl, hload, hkey, hwidget]
              | ok widget =>
                  cases hdata : widget.retrieve element request with
                  | none =>
                      refine .inl ⟨.nothingRetrieved key, nofun, fun other same => ?_⟩
                      simp only [handle, resolve, htarget, same id rfl, hload, hkey, hwidget,
                        hdata]
                  | some data =>
                      exact .inr ⟨id, element, key, widget, data, htarget, hload, hkey,
                        hwidget, hdata⟩

theorem Retrieves.of_load {id : Nat} {element : StoredNode} {key : String} {widget : Widget}
    {data : String} (h : request.Retrieves store registry id element key widget data)
    {other : Store} (same : other.load id = store.load id) :
    request.Retrieves other registry id element key widget data :=
  ⟨h.named, same.trans h.held, h.keyed, h.registered, h.retrieved⟩

theorem load_handle_of_ne (request : WidgetRequest) (store : Store) (registry : WidgetRegistry)
    {id : Nat} (h : request.target ≠ some id) :
    (request.handle store registry).2.load id = store.load id := by
  rcases request.handle_refused_or_retrieves store registry with
    ⟨error, -, hsame⟩ | ⟨target, element, key, widget, data, hretrieves⟩
  · rw [hsame store fun _ _ => rfl]
  · have different : target ≠ id := fun same => h (same ▸ hretrieves.named)
    rw [handle_of_retrieves hretrieves, Store.load_put, if_neg different]

/-- A request is answered alike after a request to another element, and it writes the same. -/
theorem handle_after (request other : WidgetRequest) (store : Store) (registry : WidgetRegistry)
    (apart : ∀ id, request.target = some id → other.target ≠ some id) :
    ((request.handle (other.handle store registry).2 registry).1 =
        (request.handle store registry).1) ∧
      (request.handle (other.handle store registry).2 registry).2 =
        (other.handle (request.handle store registry).2 registry).2 := by
  have unread : ∀ id, request.target = some id →
      (other.handle store registry).2.load id = store.load id :=
    fun id hid => other.load_handle_of_ne store registry (apart id hid)
  have unwritten : ∀ id, other.target = some id →
      (request.handle store registry).2.load id = store.load id :=
    fun id hid => request.load_handle_of_ne store registry fun same => apart id same hid
  rcases request.handle_refused_or_retrieves store registry with
    ⟨error, -, hsame⟩ | ⟨id, element, key, widget, data, hretrieves⟩
  · rw [hsame _ unread, hsame store fun _ _ => rfl]
    exact ⟨rfl, rfl⟩
  · have hafter := handle_of_retrieves (hretrieves.of_load (unread id hretrieves.named))
    rw [hafter, handle_of_retrieves hretrieves]
    refine ⟨rfl, ?_⟩
    rcases other.handle_refused_or_retrieves store registry with
      ⟨error, -, hsame⟩ | ⟨place, held, name, shown, text, hother⟩
    · have hwritten := unwritten
      rw [handle_of_retrieves hretrieves] at hwritten
      rw [hsame _ hwritten, hsame store fun _ _ => rfl]
    · have hwritten := unwritten place hother.named
      rw [handle_of_retrieves hretrieves] at hwritten
      rw [handle_of_retrieves (hother.of_load hwritten), handle_of_retrieves hother]
      have different : place ≠ id := fun same =>
        apart id hretrieves.named (same ▸ hother.named)
      exact Store.put_comm store different (held.keep text) (element.keep data)

/-- A request changes at most the data option of the element it names. It changes nothing
when it is refused, unless what was retrieved could only not be shown; then, and when it is
answered, the retrieved value is what is kept and what was rendered. Requests that name
different elements can be exchanged. -/
structure Bounded (request : WidgetRequest) (store : Store) (registry : WidgetRegistry) :
    Prop where
  ids : (request.handle store registry).2.all.map (·.1) = store.all.map (·.1)
  others : ∀ id, request.target ≠ some id →
    (request.handle store registry).2.load id = store.load id
  held : ∀ id element, store.load id = .ok element →
    ∃ now, (request.handle store registry).2.load id = .ok now ∧ element.AgreesButData now
  refused : ∀ error, (request.handle store registry).1 = .error error →
    (∀ key, error ≠ .nothingShown key) → (request.handle store registry).2 = store
  kept : ((∃ response, (request.handle store registry).1 = .ok response) ∨
      ∃ key, (request.handle store registry).1 = .error (.nothingShown key)) →
    ∃ id element key widget data,
      request.Retrieves store registry id element key widget data ∧
      (request.handle store registry).2.load id = .ok (element.keep data) ∧
      (element.keep data).options.get? OptionKey.data = some (.str data) ∧
      (request.handle store registry).1 =
        match widget.render (element.keep data) request with
        | some html => .ok ⟨html, data⟩
        | none => .error (.nothingShown key)
  exchanged : ∀ other : WidgetRequest,
    (∀ id, request.target = some id → other.target ≠ some id) →
      ((request.handle (other.handle store registry).2 registry).1 =
        (request.handle store registry).1) ∧
      ((other.handle (request.handle store registry).2 registry).1 =
        (other.handle store registry).1) ∧
      (request.handle (other.handle store registry).2 registry).2 =
        (other.handle (request.handle store registry).2 registry).2

theorem exists_agreesButData (request : WidgetRequest) (store : Store)
    (registry : WidgetRegistry) {id : Nat} {element : StoredNode}
    (h : store.load id = .ok element) :
    ∃ now, (request.handle store registry).2.load id = .ok now ∧ element.AgreesButData now := by
  rcases request.handle_refused_or_retrieves store registry with
    ⟨error, -, hsame⟩ | ⟨target, held, key, widget, data, hretrieves⟩
  · rw [hsame store fun _ _ => rfl]
    exact ⟨element, h, element.agreesButData_self⟩
  · rw [handle_of_retrieves hretrieves, Store.load_put]
    by_cases here : target = id
    · subst here
      obtain rfl := Except.ok.inj (hretrieves.held.symm.trans h)
      exact ⟨held.keep data, by rw [if_pos rfl, h]; rfl, held.agreesButData_keep data⟩
    · exact ⟨element, by rw [if_neg here, h], element.agreesButData_self⟩

theorem bounded_handle (request : WidgetRequest) (store : Store) (registry : WidgetRegistry) :
    request.Bounded store registry where
  ids := by
    rw [Store.map_fst_all, Store.map_fst_all]
    rcases request.handle_refused_or_retrieves store registry with
      ⟨error, -, hsame⟩ | ⟨id, element, key, widget, data, hretrieves⟩
    · rw [hsame store fun _ _ => rfl]
    · rw [handle_of_retrieves hretrieves, Store.size_put]
  others _ := request.load_handle_of_ne store registry
  held _ _ := request.exists_agreesButData store registry
  refused error herror hshown := by
    rcases request.handle_refused_or_retrieves store registry with
      ⟨_, -, hsame⟩ | ⟨id, element, key, widget, data, hretrieves⟩
    · rw [hsame store fun _ _ => rfl]
    · rw [handle_of_retrieves hretrieves, shown] at herror
      split at herror
      · cases herror
      · cases herror
        exact absurd rfl (hshown key)
  kept hanswer := by
    rcases request.handle_refused_or_retrieves store registry with
      ⟨error, hshown, hsame⟩ | ⟨id, element, key, widget, data, hretrieves⟩
    · rw [hsame store fun _ _ => rfl] at hanswer
      rcases hanswer with ⟨_, hresponse⟩ | ⟨key, herror⟩
      · cases hresponse
      · exact absurd (Except.error.inj herror) (hshown key)
    · refine ⟨id, element, key, widget, data, hretrieves, ?_,
        Text.Dictionary.get?_insert_self _ _ _, ?_⟩
      · rw [handle_of_retrieves hretrieves, Store.load_put, if_pos rfl, hretrieves.held]
        rfl
      · rw [handle_of_retrieves hretrieves, shown]
  exchanged other apart := by
    have hother := other.handle_after request store registry
      fun id hid same => apart id same hid
    have hrequest := request.handle_after other store registry apart
    exact ⟨hrequest.1, hother.1, hrequest.2⟩

/-- A value that cannot be shown is kept nevertheless. -/
example :
    let element : StoredNode := ⟨"place", none, .ofList [(OptionKey.module, .str "map")], []⟩
    let map : Widget := ⟨fun _ _ => none, fun _ request => request.url, .none⟩
    WidgetRequest.handle ⟨some 1, some "/here", .empty⟩ (.ofElements [element])
        (.ofList [("map", map)]) =
      (.error (.nothingShown "map"), .ofElements [element.keep "/here"]) := by
  rfl

end WidgetRequest

end SchemaForms
