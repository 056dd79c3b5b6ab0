import PageNav.Text.Blank
import PageNav.Text.CamelCase
import PageNav.Text.Quoted
import PageNav.Text.Decimal
import PageNav.Text.Visible
import PageNav.Text.Literal
import PageNav.Path.Bracket
import PageNav.Path.Token
import PageNav.Path.Relative
import PageNav.Path.Selector
import PageNav.Json.Basic
import PageNav.Json.Printer
import PageNav.Json.Fault
import PageNav.Json.Scalar
import PageNav.Json.Reader
import PageNav.Json.Typed
import PageNav.Error
import PageNav.Page.Schema
import PageNav.Page.RowTable
import PageNav.Page.Layout
import PageNav.Settings
import PageNav.Host.QueryOptions
import PageNav.Host.OperationNames
import PageNav.Host.Basic
import PageNav.Navigation.SymbolTable
import PageNav.Navigation.Spot
import PageNav.Navigation.Atlas
import PageNav.Navigation.Navigator
import PageNav.Navigation.Meaning
import PageNav.Navigation.Listing
import PageNav.Navigation.Display
import PageNav.Session.Scopes
import PageNav.Session.Basic
import PageNav.Command.Basic
import PageNav.Command.Arguments
import PageNav.Command.Run
import PageNav.Main
import PageNav.Proofs.Lookahead
import PageNav.Proofs.Tokens
import PageNav.Proofs.Relative
import PageNav.Proofs.Quoting
import PageNav.Proofs.Signature
import PageNav.Proofs.Identity
import PageNav.Proofs.Places
import PageNav.Proofs.Tour
import PageNav.Proofs.Balance
import PageNav.Proofs.Plain
import PageNav.Proofs.Descent
import PageNav.Proofs.Dispatch
import PageNav.Proofs.Recording
import PageNav.Proofs.Telescope
import PageNav.Proofs.Subject
import PageNav.Proofs.Errand
import PageNav.Proofs.Later
import PageNav.Proofs.Alike
import PageNav.Proofs.Agreement
import PageNav.Proofs.Independence
import PageNav.Proofs.Nesting
import PageNav.Proofs.Steps
import PageNav.Proofs.Guarding
import PageNav.Proofs.Recompiling
import PageNav.Proofs.Placement
import PageNav.Proofs.Grouping
import PageNav.Proofs.Extension
import PageNav.Proofs.Meanings
import PageNav.Proofs.FilterName
import PageNav.Proofs.Refusal
import PageNav.Proofs.Gaps
import PageNav.Proofs.Rows
import PageNav.Proofs.ReadBack
import PageNav.Proofs.Settled
import PageNav.Proofs.Visits
import PageNav.Proofs.Printing
import PageNav.Proofs.Containers
import PageNav.Proofs.Shape
import PageNav.Proofs.Words
import PageNav.Proofs.Counters
import PageNav.Proofs.Company
import PageNav.Proofs.Captures
import PageNav.Proofs.Routes
import PageNav.Proofs.Brackets
import PageNav.Proofs.Attribute
import PageNav.Proofs.Writing
import PageNav.Proofs.SettingsText
import PageNav.Proofs.Numbering
import PageNav.Proofs.Composition
import PageNav.Proofs.Verdicts
import PageNav.Proofs.Lookups
import PageNav.Proofs.Checked
import PageNav.Proofs.CamelForm
