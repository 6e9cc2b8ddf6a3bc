import Scriptlet.Text
import Scriptlet.Text.Blank
import Scriptlet.Text.Hexadecimal
import Scriptlet.Text.Folding
import Scriptlet.Text.Unquote
import Scriptlet.Pattern.Scan
import Scriptlet.Pattern.Basic
import Scriptlet.Pattern.Search
import Scriptlet.Pattern.Replace
import Scriptlet.Table
import Scriptlet.Decimal.Integer
import Scriptlet.Decimal.Shortest
import Scriptlet.Json.Value
import Scriptlet.Text.Quoted
import Scriptlet.Json.Printer
import Scriptlet.Json.Literal
import Scriptlet.Json.Parser
import Scriptlet.Host.FileError
import Scriptlet.Failure
import Scriptlet.Diagnostic
import Scriptlet.Code
import Scriptlet.Echo
import Scriptlet.Directive.FormControl
import Scriptlet.Directive.Control
import Scriptlet.Directive.Registry
import Scriptlet.View.Loader
import Scriptlet.Compiler.Context
import Scriptlet.Compiler.Pass
import Scriptlet.Compiler
import Scriptlet.Form.Element
import Scriptlet.Form.Builder
import Scriptlet.Form.Dispatch
import Scriptlet.Digest.Sha256
import Scriptlet.Path
import Scriptlet.View.Path
import Scriptlet.Cache.Key
import Scriptlet.Host.Time
import Scriptlet.Cache.Policy
import Scriptlet.Toml.Item
import Scriptlet.Toml.Literal
import Scriptlet.Toml.Scalar
import Scriptlet.Toml.Reader
import Scriptlet.Toml.Printer
import Scriptlet.Config
import Scriptlet.Config.Document
import Scriptlet.Host.Basic
import Scriptlet.Host.Walk
import Scriptlet.Host.Files
import Scriptlet.Cache.Store
import Scriptlet.View.Files
import Scriptlet.Engine.Executor
import Scriptlet.Engine
import Scriptlet.Config.File
import Scriptlet.CommandLine.Arguments
import Scriptlet.CommandLine.Run
import Scriptlet.Main
import Scriptlet.Proofs.Table
import Scriptlet.Proofs.Pattern.Uses
import Scriptlet.Proofs.Compilation.Run
import Scriptlet.Proofs.Compilation.Nested
import Scriptlet.Proofs.Compilation.Congruence
import Scriptlet.Proofs.Compilation.Simulation
import Scriptlet.Proofs.Compilation.Level
import Scriptlet.Proofs.Compilation.Growth
import Scriptlet.Proofs.Text.Words
import Scriptlet.Proofs.Pattern.Absence
import Scriptlet.Proofs.Pattern.Named
import Scriptlet.Proofs.Directive.Entry
import Scriptlet.Proofs.Compilation.Idle
import Scriptlet.Proofs.Text.Trim
import Scriptlet.Proofs.Text.Tight
import Scriptlet.Proofs.Text.Parting
import Scriptlet.Proofs.Pattern.Counting
import Scriptlet.Proofs.Directive.Signs
import Scriptlet.Proofs.Directive.Name
import Scriptlet.Proofs.Directive.History
import Scriptlet.Proofs.Directive.Precedence
import Scriptlet.Proofs.Directive.FormRow
import Scriptlet.Proofs.Directive.CustomRow
import Scriptlet.Proofs.Compilation.Ending
import Scriptlet.Proofs.Compilation.Termination
import Scriptlet.Proofs.Compilation.Endless
import Scriptlet.Proofs.Pattern.Recognition
import Scriptlet.Proofs.Pattern.Items
import Scriptlet.Proofs.Composition.Item
import Scriptlet.Proofs.Composition.Written
import Scriptlet.Proofs.Composition.Store
import Scriptlet.Proofs.Composition.Uses
import Scriptlet.Proofs.Composition.Layout
import Scriptlet.Proofs.Composition.Order
import Scriptlet.Proofs.Composition.Inlining
import Scriptlet.Proofs.Composition.SelfInclusion
import Scriptlet.Proofs.Text.Plain
import Scriptlet.Proofs.Template.Mark
import Scriptlet.Proofs.Text.Quiet
import Scriptlet.Proofs.Template.Tree
import Scriptlet.Proofs.Pattern.Marks
import Scriptlet.Proofs.Pattern.Parting
import Scriptlet.Proofs.Template.EchoRow
import Scriptlet.Proofs.Template.Echoes
import Scriptlet.Proofs.Template.Codes
import Scriptlet.Proofs.Template.Staging
import Scriptlet.Proofs.Template.Row
import Scriptlet.Proofs.Template.Atoms
import Scriptlet.Proofs.Template.Switches
import Scriptlet.Proofs.Template.Translation
import Scriptlet.Proofs.Compilation.Bound
import Scriptlet.Proofs.Compilation.Settled
import Scriptlet.Proofs.Compilation.Recompilation
import Scriptlet.Proofs.Pattern.Decided
import Scriptlet.Proofs.Compilation.Places
import Scriptlet.Proofs.Compilation.Limit
import Scriptlet.Proofs.Compilation.AtLimit
import Scriptlet.Proofs.Host.Walk
import Scriptlet.Proofs.Host.Tree
import Scriptlet.Proofs.Host.Change
import Scriptlet.Proofs.Host.Removal
import Scriptlet.Proofs.Host.Trail
import Scriptlet.Proofs.Cache.Key
import Scriptlet.Proofs.Cache.Validity
import Scriptlet.Proofs.Cache.Artifact
import Scriptlet.Proofs.Cache.Store
import Scriptlet.Proofs.Cache.Contents
import Scriptlet.Proofs.Cache.Map
import Scriptlet.Proofs.Cache.Clearing
import Scriptlet.Proofs.Engine.View
import Scriptlet.Proofs.Engine.Deployment
import Scriptlet.Proofs.Engine.Render
import Scriptlet.Proofs.Engine.Run
import Scriptlet.Proofs.Engine.Transparency
import Scriptlet.Proofs.Engine.Freshness
import Scriptlet.Proofs.Engine.Memo
import Scriptlet.Proofs.Engine.Origin
import Scriptlet.Proofs.Engine.Switching
import Scriptlet.Proofs.Engine.Trouble
import Scriptlet.Proofs.Path.Resolution
import Scriptlet.Proofs.Engine.Site
import Scriptlet.Proofs.Pattern.Signed
import Scriptlet.Proofs.Nesting.Dialect
import Scriptlet.Proofs.Nesting.Pairing
import Scriptlet.Proofs.Nesting.Written
import Scriptlet.Proofs.Nesting.Switches
import Scriptlet.Proofs.Nesting.Forms
import Scriptlet.Proofs.Nesting.Depth
import Scriptlet.Proofs.Text.Openings
import Scriptlet.Proofs.Text.Occurrences
import Scriptlet.Proofs.Pattern.Locality
import Scriptlet.Proofs.Directive.Arguments
import Scriptlet.Proofs.Compilation.Frames
import Scriptlet.Proofs.Compilation.RawCode
import Scriptlet.Proofs.Directive.Leftover
import Scriptlet.Proofs.Compilation.Leftover
import Scriptlet.Proofs.Directive.Sealed
import Scriptlet.Proofs.Directive.Calm
import Scriptlet.Proofs.Compilation.Sealed
import Scriptlet.Proofs.Compilation.Bodies
import Scriptlet.Proofs.Compilation.Remarks
import Scriptlet.Proofs.Engine.Accounting
import Scriptlet.Proofs.Engine.Spelling
import Scriptlet.Proofs.Engine.Compression
import Scriptlet.Proofs.Directive.Guard
import Scriptlet.Proofs.Form.History
import Scriptlet.Proofs.Directive.Wrapping
import Scriptlet.Proofs.Decimal.Integer
import Scriptlet.Proofs.Form.Attributes
import Scriptlet.Proofs.Json.Keys
import Scriptlet.Proofs.Form.Options
import Scriptlet.Proofs.Toml.Strings
import Scriptlet.Proofs.Toml.Numbers
import Scriptlet.Proofs.Toml.Lines
import Scriptlet.Proofs.Toml.Fitting
import Scriptlet.Proofs.Config.RoundTrip
