import SchemaForms.Store.Basic
import SchemaForms.Text.Json
import SchemaForms.Text.Quoted

/-!
# Widgets

The key of a module at an element names the widget that edits it. A request to
a widget takes a value from it, keeps the value in an option of the stored
element, and then shows the element.
-/

namespace SchemaForms

structure WidgetRequest where
  target : Option Nat
  url : Option String
  data : Text.Dictionary String
  deriving DecidableEq, Repr

structure WidgetResources where
  scripts : List String
  styles : List String
  deriving DecidableEq, Repr

def WidgetResources.none : WidgetResources := ⟨[], []⟩

structure Widget where
  render : StoredNode → WidgetRequest → Option String
  retrieve : StoredNode → WidgetRequest → Option String
  resources : WidgetResources

structure WidgetResponse where
  html : String
  data : String
  deriving DecidableEq, Repr

inductive WidgetError where
  | missingTarget
  | missingKey (id : Nat)
  | unknownWidget (key : String)
  | nothingRetrieved (key : String)
  | nothingShown (key : String)
  | store (error : StoreError)
  deriving DecidableEq, Repr

def WidgetError.message : WidgetError → String
  | .missingTarget => "the request has no module id"
  | .missingKey id => "element " ++ toString id ++ " has no module key"
  | .unknownWidget key => "no module registered for key " ++ Text.quoted key
  | .nothingRetrieved key => "module " ++ Text.quoted key ++ " returned no data"
  | .nothingShown key => "module " ++ Text.quoted key ++ " returned no markup"
  | .store error => error.message

abbrev WidgetRegistry := Text.Dictionary Widget

namespace WidgetRegistry

def find (registry : WidgetRegistry) (key : String) : Except WidgetError Widget :=
  match Text.Dictionary.get? registry key with
  | some widget => .ok widget
  | none => .error (.unknownWidget key)

def resources (registry : WidgetRegistry) (key : String) :
    Except WidgetError WidgetResources :=
  (registry.find key).map (·.resources)

end WidgetRegistry

/-- The element with a value in its data option. -/
def StoredNode.keep (element : StoredNode) (data : String) : StoredNode :=
  { element with options := element.options.insert OptionKey.data (.str data) }

/-- What a request asks for: an element, its key and the widget for the key. -/
def WidgetRequest.resolve (request : WidgetRequest) (store : Store) (registry : WidgetRegistry) :
    Except WidgetError (Nat × StoredNode × String × Widget) :=
  match request.target with
  | none => .error .missingTarget
  | some id =>
      match store.load id with
      | .error error => .error (.store error)
      | .ok element =>
          match element.options.widgetKey? with
          | none => .error (.missingKey id)
          | some key =>
              match registry.find key with
              | .error error => .error error
              | .ok widget => .ok (id, element, key, widget)

/-- Answers a request. The retrieved value stays in the store even if nothing can be shown. -/
def WidgetRequest.handle (request : WidgetRequest) (store : Store) (registry : WidgetRegistry) :
    Except WidgetError WidgetResponse × Store :=
  match request.resolve store registry with
  | .error error => (.error error, store)
  | .ok (id, element, key, widget) =>
      match widget.retrieve element request with
      | none => (.error (.nothingRetrieved key), store)
      | some data =>
          match store.update id (element.keep data) with
          | .error error => (.error (.store error), store)
          | .ok store =>
              match widget.render (element.keep data) request with
              | none => (.error (.nothingShown key), store)
              | some html => (.ok ⟨html, data⟩, store)

end SchemaForms
