import ClassOutline.Checked.Outlines
import ClassOutline.Config.OfToml
import ClassOutline.Outline.OfSource
import ClassOutline.Proofs.Checked.Classes
import ClassOutline.Proofs.Checked.Cuts
import ClassOutline.Proofs.Checked.Events
import ClassOutline.Proofs.Checked.Headers
import ClassOutline.Proofs.Checked.Rows
import ClassOutline.Proofs.Checked.ShortLines
import ClassOutline.Proofs.Checked.Sources
import ClassOutline.Proofs.Checked.Statements
import ClassOutline.Proofs.Event.Chains
import ClassOutline.Proofs.Event.Decorators
import ClassOutline.Proofs.Event.Indentation
import ClassOutline.Proofs.Event.InlineBlocks
import ClassOutline.Proofs.Event.Traces
import ClassOutline.Proofs.Initializer.Integers
import ClassOutline.Proofs.Initializer.Levels
import ClassOutline.Proofs.Initializer.MissingCommas
import ClassOutline.Proofs.Initializer.Parentheses
import ClassOutline.Proofs.Initializer.Rendered
import ClassOutline.Proofs.Initializer.StringLiterals
import ClassOutline.Proofs.LogicalLine.Comments
import ClassOutline.Proofs.LogicalLine.Joins
import ClassOutline.Proofs.LogicalLine.LineBreaks
import ClassOutline.Proofs.LogicalLine.ShortSources
import ClassOutline.Proofs.LogicalLine.TabStops
import ClassOutline.Proofs.Nesting.Enclosures
import ClassOutline.Proofs.Nesting.Regrouping
import ClassOutline.Proofs.Nesting.SignBytes
import ClassOutline.Proofs.Nesting.Tiling
import ClassOutline.Proofs.Nesting.WholeEntries
import ClassOutline.Proofs.Outline.Bindings
import ClassOutline.Proofs.Outline.DefinitionOrder
import ClassOutline.Proofs.Outline.Described
import ClassOutline.Proofs.Outline.Hollow
import ClassOutline.Proofs.Outline.MuteBodies
import ClassOutline.Proofs.Outline.Names
import ClassOutline.Proofs.Outline.References
import ClassOutline.Proofs.Outline.Replaced
import ClassOutline.Proofs.Outline.SelfName
import ClassOutline.Proofs.Outline.SourceOrder
import ClassOutline.Proofs.Outline.Sources
import ClassOutline.Proofs.Outline.Unrecognized
import ClassOutline.Proofs.Resolution.Acyclic
import ClassOutline.Proofs.Resolution.ClassNames
import ClassOutline.Proofs.Resolution.SelfBindings
import ClassOutline.Proofs.Resolution.Shadowing
import ClassOutline.Proofs.Statement.Headers
import ClassOutline.Proofs.Statement.Signature
