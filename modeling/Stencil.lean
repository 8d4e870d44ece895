import Stencil.Assoc
import Stencil.Collection
import Stencil.Command.Basic
import Stencil.Command.Options
import Stencil.Decimal
import Stencil.Failure
import Stencil.FileTree
import Stencil.Glob
import Stencil.Hugo.Export
import Stencil.Hugo.Project
import Stencil.Hugo.Template
import Stencil.Journal
import Stencil.Json.Basic
import Stencil.Json.Reader
import Stencil.Key
import Stencil.Log
import Stencil.Main
import Stencil.Markdown.Detect
import Stencil.Markdown.Writer
import Stencil.Markup.Reference
import Stencil.Markup.ReferenceTable
import Stencil.Markup.Render
import Stencil.Markup.Token
import Stencil.Markup.Token.Scan
import Stencil.Markup.Token.Start
import Stencil.Markup.Tree
import Stencil.Merge.Attributes
import Stencil.Merge.Basic
import Stencil.Merge.Extract
import Stencil.Merge.Loop
import Stencil.Merge.Siblings
import Stencil.Merge.State
import Stencil.Merge.Text
import Stencil.Node.Basic
import Stencil.Node.Describe
import Stencil.Node.References
import Stencil.Node.Snapshot
import Stencil.Pathname
import Stencil.Progress
import Stencil.Proofs.Above
import Stencil.Proofs.Assoc
import Stencil.Proofs.Binary
import Stencil.Proofs.Classes
import Stencil.Proofs.Collection.Built
import Stencil.Proofs.Collection.Complete
import Stencil.Proofs.Collection.Fold
import Stencil.Proofs.Collection.Known
import Stencil.Proofs.Collection.Listing
import Stencil.Proofs.Collection.Looping
import Stencil.Proofs.Collection.Order
import Stencil.Proofs.Collection.Renaming
import Stencil.Proofs.Collection.Writable
import Stencil.Proofs.Counting
import Stencil.Proofs.EditDistance
import Stencil.Proofs.Exact
import Stencil.Proofs.Failure
import Stencil.Proofs.FileTree
import Stencil.Proofs.FullScore
import Stencil.Proofs.Hugo.Actions
import Stencil.Proofs.Hugo.Clean
import Stencil.Proofs.Hugo.Cut
import Stencil.Proofs.Hugo.Delimiter
import Stencil.Proofs.Hugo.FrontMatter
import Stencil.Proofs.Hugo.OpeningTag
import Stencil.Proofs.Hugo.Params
import Stencil.Proofs.Hugo.Paths
import Stencil.Proofs.Hugo.Pieces
import Stencil.Proofs.Hugo.Places
import Stencil.Proofs.Hugo.Reading
import Stencil.Proofs.Hugo.Run
import Stencil.Proofs.Journal
import Stencil.Proofs.Json
import Stencil.Proofs.Key
import Stencil.Proofs.LongestRun
import Stencil.Proofs.Markup
import Stencil.Proofs.Markup.Passing
import Stencil.Proofs.Markup.RoundTrip
import Stencil.Proofs.Markup.Tags
import Stencil.Proofs.Merge.Accepted
import Stencil.Proofs.Merge.Aligned
import Stencil.Proofs.Merge.Attributes
import Stencil.Proofs.Merge.Backfill
import Stencil.Proofs.Merge.Backing
import Stencil.Proofs.Merge.Built
import Stencil.Proofs.Merge.Carrying
import Stencil.Proofs.Merge.Cases
import Stencil.Proofs.Merge.Change
import Stencil.Proofs.Merge.Conditionals
import Stencil.Proofs.Merge.Consuming
import Stencil.Proofs.Merge.Doctypes
import Stencil.Proofs.Merge.Extract
import Stencil.Proofs.Merge.Failing
import Stencil.Proofs.Merge.Finishes
import Stencil.Proofs.Merge.Flanks
import Stencil.Proofs.Merge.Framed
import Stencil.Proofs.Merge.Freshness
import Stencil.Proofs.Merge.Front
import Stencil.Proofs.Merge.Growth
import Stencil.Proofs.Merge.Identity
import Stencil.Proofs.Merge.Items
import Stencil.Proofs.Merge.Keeps
import Stencil.Proofs.Merge.Learning
import Stencil.Proofs.Merge.Lists
import Stencil.Proofs.Merge.Literal
import Stencil.Proofs.Merge.Moving
import Stencil.Proofs.Merge.Nested
import Stencil.Proofs.Merge.Pairing
import Stencil.Proofs.Merge.Placed
import Stencil.Proofs.Merge.Placement
import Stencil.Proofs.Merge.ReadBack
import Stencil.Proofs.Merge.Refines
import Stencil.Proofs.Merge.Reread
import Stencil.Proofs.Merge.Returns
import Stencil.Proofs.Merge.Room
import Stencil.Proofs.Merge.Scoping
import Stencil.Proofs.Merge.Settled
import Stencil.Proofs.Merge.Slots
import Stencil.Proofs.Merge.Step
import Stencil.Proofs.Merge.Telling
import Stencil.Proofs.Merge.Termination
import Stencil.Proofs.Merge.Turns
import Stencil.Proofs.Merge.Undisputed
import Stencil.Proofs.Merge.Variability
import Stencil.Proofs.Merge.Weave
import Stencil.Proofs.Merge.Wording
import Stencil.Proofs.Merge.Writes
import Stencil.Proofs.Node.Akin
import Stencil.Proofs.Node.Alike
import Stencil.Proofs.Node.Fill
import Stencil.Proofs.Node.Kind
import Stencil.Proofs.Node.Literals
import Stencil.Proofs.Node.Own
import Stencil.Proofs.Node.Room
import Stencil.Proofs.Node.Rows
import Stencil.Proofs.Node.Same
import Stencil.Proofs.Node.Scope
import Stencil.Proofs.Node.Scoped
import Stencil.Proofs.Node.Trimmed
import Stencil.Proofs.Pathname
import Stencil.Proofs.Positive
import Stencil.Proofs.Record
import Stencil.Proofs.Region
import Stencil.Proofs.Region.Cutting
import Stencil.Proofs.Region.Marks
import Stencil.Proofs.Region.Restoring
import Stencil.Proofs.Registry
import Stencil.Proofs.Registry.Choice
import Stencil.Proofs.Registry.Coverage
import Stencil.Proofs.Registry.Crediting
import Stencil.Proofs.Registry.Display
import Stencil.Proofs.Registry.Entered
import Stencil.Proofs.Registry.Learning
import Stencil.Proofs.Registry.Naming
import Stencil.Proofs.Registry.Renaming
import Stencil.Proofs.Rendering
import Stencil.Proofs.Score
import Stencil.Proofs.Score.Range
import Stencil.Proofs.Score.Structural
import Stencil.Proofs.Score.Symmetry
import Stencil.Proofs.Site
import Stencil.Proofs.Site.Owners
import Stencil.Proofs.Site.Validation
import Stencil.Proofs.Text
import Stencil.Proofs.UnitScore
import Stencil.Proofs.Value
import Stencil.Record
import Stencil.Region
import Stencil.Registry.Basic
import Stencil.Registry.Naming
import Stencil.Registry.Renaming
import Stencil.Score.Basic
import Stencil.Score.Complaints
import Stencil.Score.Grade
import Stencil.Selector.Basic
import Stencil.Selector.Locus
import Stencil.Selector.Parser
import Stencil.Selector.Spelling
import Stencil.Signature
import Stencil.Site.Basic
import Stencil.Site.Config
import Stencil.Text.Blank
import Stencil.Text.CaseTable
import Stencil.Text.Digit
import Stencil.Text.EditDistance
import Stencil.Text.Lower
import Stencil.Text.PrintableTable
import Stencil.Text.Quoted
import Stencil.Text.Utf8
import Stencil.Trace
import Stencil.Value
import Stencil.Yaml.Scalar
import Stencil.Yaml.Writer
