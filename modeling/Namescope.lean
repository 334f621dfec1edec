import Namescope.Files.Disk
import Namescope.Main
import Namescope.Proofs.Tree.Words
import Namescope.Proofs.Naming.Visits
import Namescope.Proofs.Naming.Steps
import Namescope.Proofs.Naming.Soundness
import Namescope.Proofs.Naming.Calls
import Namescope.Proofs.Naming.History
import Namescope.Proofs.Naming.Walk
import Namescope.Proofs.Naming.Trees
import Namescope.Proofs.Command.InternalErrors
import Namescope.Proofs.Naming.Annotations
import Namescope.Proofs.Naming.Identifiers
import Namescope.Proofs.Naming.FieldTables
import Namescope.Proofs.Naming.Sites
import Namescope.Proofs.Naming.Views
import Namescope.Proofs.Naming.Scoping
import Namescope.Proofs.Naming.WellScoped
import Namescope.Proofs.Naming.Duplicates
import Namescope.Proofs.Naming.Determined
import Namescope.Proofs.Naming.Likeness
import Namescope.Proofs.Naming.Stamps
import Namescope.Proofs.Naming.Repetition
import Namescope.Proofs.Naming.Renaming
import Namescope.Proofs.Naming.Shifting
import Namescope.Proofs.Naming.Bodies
import Namescope.Proofs.Naming.Reachable
import Namescope.Proofs.Naming.Frames
import Namescope.Proofs.Naming.StructTables
import Namescope.Proofs.Naming.Chains
import Namescope.Proofs.Naming.Numbering
import Namescope.Proofs.Token.Lexemes
import Namescope.Proofs.Token.Partition
import Namescope.Proofs.Token.Lines
import Namescope.Proofs.Reading.Grammar
import Namescope.Proofs.Reading.Derivations
import Namescope.Proofs.Reading.Moves
import Namescope.Proofs.Reading.Expression
import Namescope.Proofs.Reading.Statement
import Namescope.Proofs.Reading.Program
import Namescope.Proofs.Reading.Twins
import Namescope.Proofs.Reading.TwinBlocks
import Namescope.Proofs.Reading.TwinDecls
import Namescope.Proofs.Reading.Joined
import Namescope.Proofs.Reading.Paths
import Namescope.Proofs.Reading.Extents
import Namescope.Proofs.Reading.ExpressionPlaces
import Namescope.Proofs.Reading.StatementPlaces
import Namescope.Proofs.Reading.ProgramPlaces
import Namescope.Proofs.Reading.Bounds
import Namescope.Proofs.Reading.Regions
import Namescope.Proofs.Reading.Places
import Namescope.Proofs.Reading.Names
import Namescope.Proofs.Reading.ProgramNames
import Namescope.Proofs.Naming.Moved
import Namescope.Proofs.Naming.Sessions
import Namescope.Proofs.Printing.Lexing
import Namescope.Proofs.Printing.Words
import Namescope.Proofs.Printing.Fields
import Namescope.Proofs.Printing.Rederived
import Namescope.Proofs.Printing.RoundTrip
import Namescope.Proofs.Reading.Layout
import Namescope.Proofs.Command.Agreement
import Namescope.Proofs.Build.Cache
import Namescope.Proofs.Build.Exactness
import Namescope.Proofs.Build.Pairs
import Namescope.Proofs.Tree.WellFormed
import Namescope.Proofs.Reading.ExpressionForms
import Namescope.Proofs.Reading.StatementForms
import Namescope.Proofs.Reading.ProgramForms
import Namescope.Proofs.Reading.Nesting
import Namescope.Proofs.Printing.Insertions
import Namescope.Proofs.Printing.Endings
import Namescope.Proofs.Printing.Distinct
import Namescope.Proofs.Text.Lines
import Namescope.Proofs.Terminal.Excerpts
import Namescope.Proofs.Naming.Order
import Namescope.Proofs.Token.Literals
import Namescope.Proofs.Settings.Keys
import Namescope.Proofs.Command.Arguments
