import GlyphLayout.Assembly.Document
import GlyphLayout.Assembly.Features
import GlyphLayout.Assembly.Subtables
import GlyphLayout.CommandLine.Arguments
import GlyphLayout.CommandLine.Directory
import GlyphLayout.CommandLine.Program
import GlyphLayout.Conversion
import GlyphLayout.Definitions.Basic
import GlyphLayout.Definitions.Collect
import GlyphLayout.Definitions.Coverage
import GlyphLayout.Definitions.GlyphOrder
import GlyphLayout.Definitions.MarkPlace
import GlyphLayout.Device
import GlyphLayout.Error
import GlyphLayout.Feature.Document
import GlyphLayout.Feature.Glyphs
import GlyphLayout.Feature.Rule
import GlyphLayout.Feature.Value
import GlyphLayout.Font.GlyphNames
import GlyphLayout.Font.Project
import GlyphLayout.Font.StandardNames
import GlyphLayout.Font.Table
import GlyphLayout.Identifier
import GlyphLayout.Lookup.Attachment
import GlyphLayout.Lookup.Compilation
import GlyphLayout.Lookup.Context
import GlyphLayout.Lookup.Pair
import GlyphLayout.Lookup.Partition
import GlyphLayout.Lookup.PieceName
import GlyphLayout.Lookup.Positioning
import GlyphLayout.Lookup.Substitution
import GlyphLayout.Main
import GlyphLayout.Map.Entries
import GlyphLayout.Map.Ordered
import GlyphLayout.Map.Sorted
import GlyphLayout.Notice
import GlyphLayout.Outcome
import GlyphLayout.Proofs.ActiveMarks
import GlyphLayout.Proofs.AgreeingOrders
import GlyphLayout.Proofs.AttachmentRules
import GlyphLayout.Proofs.Behaviour
import GlyphLayout.Proofs.ByteOrder
import GlyphLayout.Proofs.CaseInsensitivity
import GlyphLayout.Proofs.ClassReferences
import GlyphLayout.Proofs.Collecting
import GlyphLayout.Proofs.Collisions
import GlyphLayout.Proofs.CommentLines
import GlyphLayout.Proofs.ComparedRuns
import GlyphLayout.Proofs.Comparison
import GlyphLayout.Proofs.Compiling
import GlyphLayout.Proofs.Conservation
import GlyphLayout.Proofs.CoverageFailures
import GlyphLayout.Proofs.CursiveRules
import GlyphLayout.Proofs.Cutting
import GlyphLayout.Proofs.Entering
import GlyphLayout.Proofs.Exceptions
import GlyphLayout.Proofs.Failures
import GlyphLayout.Proofs.FeatureAssembly
import GlyphLayout.Proofs.FeatureNames
import GlyphLayout.Proofs.FlatClasses
import GlyphLayout.Proofs.FontNames
import GlyphLayout.Proofs.GeneratedNames
import GlyphLayout.Proofs.GlyphClasses
import GlyphLayout.Proofs.GlyphDefinitions
import GlyphLayout.Proofs.GlyphTable
import GlyphLayout.Proofs.Groups
import GlyphLayout.Proofs.HelperNotices
import GlyphLayout.Proofs.Helpers
import GlyphLayout.Proofs.Identifier
import GlyphLayout.Proofs.IdentifierRuns
import GlyphLayout.Proofs.KeptAnchors
import GlyphLayout.Proofs.Keys
import GlyphLayout.Proofs.Labels
import GlyphLayout.Proofs.LanguageSystems
import GlyphLayout.Proofs.Leaves
import GlyphLayout.Proofs.MarkClasses
import GlyphLayout.Proofs.MarkTables
import GlyphLayout.Proofs.MarkUse
import GlyphLayout.Proofs.MergedLabels
import GlyphLayout.Proofs.Merging
import GlyphLayout.Proofs.MinimalCover
import GlyphLayout.Proofs.Naming
import GlyphLayout.Proofs.Operands
import GlyphLayout.Proofs.Origins
import GlyphLayout.Proofs.Outcome
import GlyphLayout.Proofs.Overlaps
import GlyphLayout.Proofs.PairLists
import GlyphLayout.Proofs.PairRuns
import GlyphLayout.Proofs.Partition
import GlyphLayout.Proofs.Permissive
import GlyphLayout.Proofs.PieceNames
import GlyphLayout.Proofs.Placement
import GlyphLayout.Proofs.PrintedValues
import GlyphLayout.Proofs.Provenance
import GlyphLayout.Proofs.Ranges
import GlyphLayout.Proofs.Reference
import GlyphLayout.Proofs.References
import GlyphLayout.Proofs.Regrouping
import GlyphLayout.Proofs.RepeatedSystems
import GlyphLayout.Proofs.Respelling
import GlyphLayout.Proofs.Retention
import GlyphLayout.Proofs.Routine
import GlyphLayout.Proofs.RuleForms
import GlyphLayout.Proofs.RuleNames
import GlyphLayout.Proofs.RuleShapes
import GlyphLayout.Proofs.Run
import GlyphLayout.Proofs.SameUnless
import GlyphLayout.Proofs.SortedTable
import GlyphLayout.Proofs.Source.Accepted
import GlyphLayout.Proofs.Source.AcceptedStatements
import GlyphLayout.Proofs.Source.Calls
import GlyphLayout.Proofs.Source.Cursor
import GlyphLayout.Proofs.Source.Grammar
import GlyphLayout.Proofs.Source.Joining
import GlyphLayout.Proofs.Source.Layout
import GlyphLayout.Proofs.Source.Lexing
import GlyphLayout.Proofs.Source.Literals
import GlyphLayout.Proofs.Source.Locations
import GlyphLayout.Proofs.Source.Numerals
import GlyphLayout.Proofs.Source.Places
import GlyphLayout.Proofs.Source.Reading
import GlyphLayout.Proofs.Source.ReadingStatements
import GlyphLayout.Proofs.Source.Rendering
import GlyphLayout.Proofs.Source.SettingValues
import GlyphLayout.Proofs.Source.Spacing
import GlyphLayout.Proofs.Source.Stability
import GlyphLayout.Proofs.Source.WellFormed
import GlyphLayout.Proofs.Splitting
import GlyphLayout.Proofs.SubstitutionArity
import GlyphLayout.Proofs.Table
import GlyphLayout.Proofs.Translation
import GlyphLayout.Proofs.UndefinedLookups
import GlyphLayout.Proofs.UniformBlocks
import GlyphLayout.Proofs.Writing
import GlyphLayout.Source.Location
import GlyphLayout.Source.Parsing.Basic
import GlyphLayout.Source.Parsing.Coverage
import GlyphLayout.Source.Parsing.Lookup
import GlyphLayout.Source.Parsing.Statement
import GlyphLayout.Source.Statement
import GlyphLayout.Source.Token
import GlyphLayout.Tag
import GlyphLayout.Text.Blank
import GlyphLayout.Text.ControlSequence
import GlyphLayout.Text.Joined
import GlyphLayout.Text.Lines
import GlyphLayout.Text.Lowercase
import GlyphLayout.Text.Lowercase.Tables
import GlyphLayout.Text.Numeral
import GlyphLayout.Text.Pieces
import GlyphLayout.Text.Utf8
