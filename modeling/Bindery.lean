import Bindery.Binding.Artifact
import Bindery.Binding.Context
import Bindery.Binding.Embind
import Bindery.Binding.Napi
import Bindery.Binding.Output
import Bindery.Binding.TypeScript
import Bindery.Command.Invocation
import Bindery.Command.Run
import Bindery.Config
import Bindery.Dialect
import Bindery.Direction
import Bindery.Entity
import Bindery.EnumPrefix
import Bindery.Error
import Bindery.Files.Fault
import Bindery.Files.Monad
import Bindery.Files.Path
import Bindery.Files.System
import Bindery.Header
import Bindery.HeaderFiles
import Bindery.Json
import Bindery.Main
import Bindery.Naming
import Bindery.PointerUsage
import Bindery.Proofs.ArgumentTypes
import Bindery.Proofs.ArrayInstances
import Bindery.Proofs.ArrayOwners
import Bindery.Proofs.ArtifactPaths
import Bindery.Proofs.ArtifactWriting
import Bindery.Proofs.BindingMacros
import Bindery.Proofs.Boundaries
import Bindery.Proofs.Brackets
import Bindery.Proofs.CallingConvention
import Bindery.Proofs.CaseLabels
import Bindery.Proofs.Choice
import Bindery.Proofs.CodeBytes
import Bindery.Proofs.CommentEnds
import Bindery.Proofs.CommentExtent
import Bindery.Proofs.Compounds
import Bindery.Proofs.ConstPosition
import Bindery.Proofs.ContinuedLines
import Bindery.Proofs.Declarators
import Bindery.Proofs.DeclaredNames
import Bindery.Proofs.DelimiterOffsets
import Bindery.Proofs.DescriptionOrigins
import Bindery.Proofs.DirectionLookup
import Bindery.Proofs.DocAttachment
import Bindery.Proofs.EntityInvariant
import Bindery.Proofs.EnumNumbering
import Bindery.Proofs.Enumerations
import Bindery.Proofs.ExposedApi
import Bindery.Proofs.FileGrowth
import Bindery.Proofs.FileReading
import Bindery.Proofs.FileRoundTrip
import Bindery.Proofs.FileText
import Bindery.Proofs.Identifiers
import Bindery.Proofs.ImplicitValues
import Bindery.Proofs.IntegerLiterals
import Bindery.Proofs.LimitedSplits
import Bindery.Proofs.ListPieces
import Bindery.Proofs.Lists
import Bindery.Proofs.MemberLines
import Bindery.Proofs.NameSpelling
import Bindery.Proofs.ParamSections
import Bindery.Proofs.PathConflicts
import Bindery.Proofs.Paths
import Bindery.Proofs.Placement
import Bindery.Proofs.PointerUse
import Bindery.Proofs.Progress
import Bindery.Proofs.Prototype
import Bindery.Proofs.Reading
import Bindery.Proofs.Refusal
import Bindery.Proofs.Regeneration
import Bindery.Proofs.RenderedFiles
import Bindery.Proofs.RenderingErrors
import Bindery.Proofs.SharedBeginnings
import Bindery.Proofs.Spelling
import Bindery.Proofs.StructReading
import Bindery.Proofs.StructRoundTrip
import Bindery.Proofs.StructText
import Bindery.Proofs.TypeReferences
import Bindery.Proofs.Walking
import Bindery.Proofs.WholeWords
import Bindery.Source.Body
import Bindery.Source.Compound
import Bindery.Source.Cursor
import Bindery.Source.Declaration
import Bindery.Source.Declarator
import Bindery.Source.Delimiter
import Bindery.Source.Documentation
import Bindery.Source.Enumerator
import Bindery.Source.Lexeme
import Bindery.Source.LineSplice
import Bindery.Source.Literal
import Bindery.Source.Remark
import Bindery.Source.Split
import Bindery.Text.Basic
import Bindery.Text.Case
import Bindery.Text.CaseRanges
import Bindery.Text.CharClass
import Bindery.Text.Matcher
import Bindery.Text.WordRanges
import Bindery.Yaml.Basic
import Bindery.Yaml.Document
import Bindery.Yaml.Scalar
import Bindery.Yaml.Token
