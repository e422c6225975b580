import SchemaForms.CommandLine.Arguments
import SchemaForms.Compile.Attributes
import SchemaForms.Compile.Build
import SchemaForms.Compile.Creation
import SchemaForms.Compile.Declaration
import SchemaForms.Compile.Descent
import SchemaForms.Compile.Elements
import SchemaForms.Compile.Groups
import SchemaForms.Compile.Level
import SchemaForms.Compile.Request
import SchemaForms.Compile.Sources
import SchemaForms.Compile.Workspace
import SchemaForms.Entries
import SchemaForms.Form.Arena
import SchemaForms.Form.Json
import SchemaForms.Form.Option
import SchemaForms.Form.Tour
import SchemaForms.Form.Tree
import SchemaForms.Form.Written
import SchemaForms.Instance.Cursor
import SchemaForms.Main
import SchemaForms.Schema.Bounds
import SchemaForms.Schema.Components
import SchemaForms.Schema.ExpandedName
import SchemaForms.Schema.Fault
import SchemaForms.Schema.FirstNames
import SchemaForms.Schema.Particle
import SchemaForms.Store.Basic
import SchemaForms.Store.Memory
import SchemaForms.Store.Widget
import SchemaForms.Text.Blank
import SchemaForms.Text.Dictionary
import SchemaForms.Text.Json
import SchemaForms.Text.Numeral
import SchemaForms.Text.Quoted
import SchemaForms.Text.Unprinted
import SchemaForms.Xml.Character
import SchemaForms.Xml.CharacterData
import SchemaForms.Xml.Doctype
import SchemaForms.Xml.Document
import SchemaForms.Xml.Markup
import SchemaForms.Xml.Namespace
import SchemaForms.Xml.Node
import SchemaForms.Xml.Outline
import SchemaForms.Xml.Reader
import SchemaForms.Xml.Scan
import SchemaForms.Proofs.Forms
import SchemaForms.Proofs.Runs
import SchemaForms.Proofs.Steps
import SchemaForms.Proofs.Documents
import SchemaForms.Proofs.References
import SchemaForms.Proofs.Advance
import SchemaForms.Proofs.FailingBuilds
import SchemaForms.Proofs.Failures
import SchemaForms.Proofs.Depth
import SchemaForms.Proofs.FreshRuns
import SchemaForms.Proofs.Placeholders
import SchemaForms.Proofs.ContentModels
import SchemaForms.Proofs.FailingRuns
import SchemaForms.Proofs.Recursion
import SchemaForms.Proofs.Retention
import SchemaForms.Proofs.WrittenWords
import SchemaForms.Proofs.UniqueNames
import SchemaForms.Proofs.Reconciliation
import SchemaForms.Proofs.WrittenDocuments
import SchemaForms.Proofs.ReopenableSchemas
import SchemaForms.Proofs.Searches
import SchemaForms.Proofs.ReopenedForms
import SchemaForms.Proofs.RereadRuns
import SchemaForms.Proofs.RereadChoices
import SchemaForms.Proofs.RereadGroups
import SchemaForms.Proofs.Rereading
import SchemaForms.Proofs.Reopening
import SchemaForms.Proofs.Arenas
import SchemaForms.Proofs.Creations
import SchemaForms.Proofs.CreatedParticles
import SchemaForms.Proofs.Sessions
import SchemaForms.Proofs.Paths
import SchemaForms.Proofs.Invariants
import SchemaForms.Proofs.Places
import SchemaForms.Proofs.Replacements
import SchemaForms.Proofs.Origins
import SchemaForms.Proofs.Lockstep
import SchemaForms.Proofs.Locality
import SchemaForms.Proofs.Scanning
import SchemaForms.Proofs.WrittenTags
import SchemaForms.Proofs.ReadMarkup
import SchemaForms.Proofs.SavedForms
import SchemaForms.Proofs.Forests
import SchemaForms.Proofs.WrittenNodes
import SchemaForms.Proofs.SingleVisits
import SchemaForms.Proofs.StoredForms
import SchemaForms.Proofs.LocatedErrors
import SchemaForms.Proofs.DepthLimits
import SchemaForms.Proofs.Instantiations
import SchemaForms.Proofs.Selections
import SchemaForms.Proofs.AbsentContent
import SchemaForms.Proofs.Progress
import SchemaForms.Proofs.Occurrences
import SchemaForms.Proofs.Dictionaries
import SchemaForms.Proofs.Erasures
import SchemaForms.Proofs.Agreement
import SchemaForms.Proofs.Influences
import SchemaForms.Proofs.Labels
import SchemaForms.Proofs.Qualification
import SchemaForms.Proofs.Namespaces
import SchemaForms.Proofs.StoreRuns
import SchemaForms.Proofs.WidgetRequests
import SchemaForms.Proofs.KeptNodes
import SchemaForms.Proofs.NodeShapes
import SchemaForms.Proofs.AttributeExpansion
import SchemaForms.Proofs.Traversals
import SchemaForms.Proofs.FirstNameSearches
import SchemaForms.Proofs.Locations
import SchemaForms.Proofs.SourcePlaces
