import KeyGloss.CommandLine.Arguments
import KeyGloss.CommandLine.Read
import KeyGloss.CommandLine.Run
import KeyGloss.Config.Basic
import KeyGloss.Config.Discover
import KeyGloss.Config.Read
import KeyGloss.Diagnostic
import KeyGloss.Dictionary
import KeyGloss.Disk.Basic
import KeyGloss.Disk.Files
import KeyGloss.Failure
import KeyGloss.Glob
import KeyGloss.Gloss
import KeyGloss.Hook
import KeyGloss.IgnoreSet
import KeyGloss.ImportSpecifier
import KeyGloss.Injection
import KeyGloss.Json.Basic
import KeyGloss.Json.Fault
import KeyGloss.Json.Reader
import KeyGloss.KeyMap
import KeyGloss.KeyModule
import KeyGloss.Language
import KeyGloss.Main
import KeyGloss.Messages
import KeyGloss.Strategy
import KeyGloss.Number.Binary
import KeyGloss.Number.Seconds
import KeyGloss.Source
import KeyGloss.Path
import KeyGloss.Reference
import KeyGloss.Report.Print
import KeyGloss.Report.Style
import KeyGloss.Restriction
import KeyGloss.Scan
import KeyGloss.Shell.Commands
import KeyGloss.Shell.Run
import KeyGloss.Shell.Script
import KeyGloss.Text.Basic
import KeyGloss.Text.Quoted
import KeyGloss.Text.Utf8
import KeyGloss.Text.Width
import KeyGloss.Text.WidthTable
import KeyGloss.Token.Basic
import KeyGloss.Token.Lexer
import KeyGloss.Proofs.ReferenceScan
import KeyGloss.Proofs.RoundTrip
import KeyGloss.Proofs.Gloss.Due
import KeyGloss.Proofs.Gloss.Settled
import KeyGloss.Proofs.Token.Lookahead
import KeyGloss.Proofs.Token.Pieces
import KeyGloss.Proofs.Token.Resume
import KeyGloss.Proofs.Token.Spot
import KeyGloss.Proofs.Gloss.Edit
import KeyGloss.Proofs.Token.Means
import KeyGloss.Proofs.Gloss.Program
import KeyGloss.Proofs.Token.Literals
import KeyGloss.Proofs.Token.Exchange
import KeyGloss.Proofs.ReferenceLiterals
import KeyGloss.Proofs.Order
import KeyGloss.Proofs.Disk.Tree
import KeyGloss.Proofs.Disk.Place
import KeyGloss.Proofs.Disk.Walk
import KeyGloss.Proofs.ScannedFiles
import KeyGloss.Proofs.Injection.Schedule
import KeyGloss.Proofs.Injection.Sound
import KeyGloss.Proofs.Injection.OneByOne
import KeyGloss.Proofs.Injection.Whole
import KeyGloss.Proofs.Injection.Reported
import KeyGloss.Proofs.Injection.Independence
import KeyGloss.Proofs.Injection.Preview
import KeyGloss.Proofs.Gloss.LineByLine
import KeyGloss.Proofs.Gloss.Refresh
import KeyGloss.Proofs.ImportSpecifier
import KeyGloss.Proofs.Injection.Untouched
import KeyGloss.Proofs.KeyModule.Tree
import KeyGloss.Proofs.Json.Quoted
import KeyGloss.Proofs.KeyModule.Agreement
import KeyGloss.Proofs.Json.Objects
import KeyGloss.Proofs.Messages
import KeyGloss.Proofs.Gloss.Coverage
import KeyGloss.Proofs.KeyModule.ReadBack
import KeyGloss.Proofs.Token.MaximalMunch
import KeyGloss.Proofs.Injection.Naming
import KeyGloss.Proofs.Restriction
import KeyGloss.Proofs.Disk.Removal
import KeyGloss.Proofs.LocaleFiles
import KeyGloss.Proofs.ReferenceImport
import KeyGloss.Proofs.ImportResolution
import KeyGloss.Proofs.Token.OpenTemplate
import KeyGloss.Proofs.Position
import KeyGloss.Proofs.Config.Nearest
import KeyGloss.Proofs.ExactScan
import KeyGloss.Proofs.Config.ReadBack
import KeyGloss.Proofs.LiteralContent
import KeyGloss.Proofs.ByteOrder
import KeyGloss.Proofs.KeyMap
import KeyGloss.Proofs.Colour
