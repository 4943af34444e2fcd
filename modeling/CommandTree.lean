import CommandTree.ArgumentType
import CommandTree.ArgumentType.Bounds
import CommandTree.ArgumentType.Double
import CommandTree.ArgumentType.Integer
import CommandTree.ArgumentType.Literal
import CommandTree.Arguments
import CommandTree.Console.Options
import CommandTree.Console.Run
import CommandTree.Context
import CommandTree.Cursor
import CommandTree.Decimal.Layout
import CommandTree.Decimal.Reading
import CommandTree.Decimal.Shortest
import CommandTree.Descriptor
import CommandTree.Error
import CommandTree.Grammar
import CommandTree.Handler
import CommandTree.Main
import CommandTree.Plan
import CommandTree.Portal.Commands
import CommandTree.Portal.Session
import CommandTree.Proofs.Abreast
import CommandTree.Proofs.Accounting
import CommandTree.Proofs.Approach
import CommandTree.Proofs.Arena
import CommandTree.Proofs.Bindings
import CommandTree.Proofs.CallArguments
import CommandTree.Proofs.CallDepth
import CommandTree.Proofs.CanonicalSegments
import CommandTree.Proofs.Completion
import CommandTree.Proofs.CompletionLimit
import CommandTree.Proofs.Conservation
import CommandTree.Proofs.ConsoleLines
import CommandTree.Proofs.Defaults
import CommandTree.Proofs.DepthFirst
import CommandTree.Proofs.Derivation
import CommandTree.Proofs.DigitPrefixes
import CommandTree.Proofs.Dispatch
import CommandTree.Proofs.DispatchSettings
import CommandTree.Proofs.Drafts
import CommandTree.Proofs.FileFormats
import CommandTree.Proofs.HiddenHandler
import CommandTree.Proofs.Insertion
import CommandTree.Proofs.IntegerOffers
import CommandTree.Proofs.IntegerRange
import CommandTree.Proofs.Invariant
import CommandTree.Proofs.JoinedSpecs
import CommandTree.Proofs.Labels
import CommandTree.Proofs.Ledger
import CommandTree.Proofs.Listing
import CommandTree.Proofs.Lowering
import CommandTree.Proofs.NamePaths
import CommandTree.Proofs.Names
import CommandTree.Proofs.Offers
import CommandTree.Proofs.OwnName
import CommandTree.Proofs.PathValues
import CommandTree.Proofs.PortalSession
import CommandTree.Proofs.PositionalDepth
import CommandTree.Proofs.Reading
import CommandTree.Proofs.RefusedValues
import CommandTree.Proofs.RememberedAnswers
import CommandTree.Proofs.Resolution
import CommandTree.Proofs.RootPath
import CommandTree.Proofs.SettingsKept
import CommandTree.Proofs.SettingsLoad
import CommandTree.Proofs.SpecText
import CommandTree.Proofs.Spelling
import CommandTree.Proofs.StoppedPairs
import CommandTree.Proofs.SwitchOffers
import CommandTree.Proofs.SwitchOrder
import CommandTree.Proofs.Tokens
import CommandTree.Proofs.TrailingPairs
import CommandTree.Proofs.Walks
import CommandTree.Proofs.WordByWord
import CommandTree.Registry
import CommandTree.Segment
import CommandTree.Settings
import CommandTree.Settings.File
import CommandTree.Slot
import CommandTree.Text.Blank
import CommandTree.Text.Cased
import CommandTree.Text.Cut
import CommandTree.Text.Lowercase
import CommandTree.Text.Quoted
import CommandTree.Text.Ranges
import CommandTree.Text.Unprintable
import CommandTree.Toml.Document
import CommandTree.Toml.Item
import CommandTree.Toml.Key
import CommandTree.Toml.Quote
import CommandTree.Toml.Scalar
import CommandTree.Toml.Value
import CommandTree.Tree
import CommandTree.TypeTable
import CommandTree.Value
