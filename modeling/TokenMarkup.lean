import TokenMarkup.Boundary
import TokenMarkup.CommandLine.Options
import TokenMarkup.CommandLine.Run
import TokenMarkup.Fault
import TokenMarkup.Files
import TokenMarkup.Highlight
import TokenMarkup.Json
import TokenMarkup.Json.Reader
import TokenMarkup.Json.Record
import TokenMarkup.Json.Symbol
import TokenMarkup.Json.Writer
import TokenMarkup.Language
import TokenMarkup.Legend
import TokenMarkup.Legend.Tables
import TokenMarkup.Lexeme
import TokenMarkup.Lexeme.Json
import TokenMarkup.Lexeme.Pieces
import TokenMarkup.Location
import TokenMarkup.Main
import TokenMarkup.Markup
import TokenMarkup.Metrics
import TokenMarkup.Modifiers
import TokenMarkup.Overlay
import TokenMarkup.Path
import TokenMarkup.Payload
import TokenMarkup.PositionEncoding
import TokenMarkup.Provider
import TokenMarkup.Session
import TokenMarkup.SessionLog
import TokenMarkup.Settings
import TokenMarkup.Span
import TokenMarkup.Text
import TokenMarkup.Text.Blank
import TokenMarkup.Text.Quoted
import TokenMarkup.Token
import TokenMarkup.Token.Json
import TokenMarkup.Token.Order
import TokenMarkup.Wire
import TokenMarkup.Proofs.Acceptance
import TokenMarkup.Proofs.Accounting
import TokenMarkup.Proofs.AllOrNothing
import TokenMarkup.Proofs.Boundary
import TokenMarkup.Proofs.Conversion
import TokenMarkup.Proofs.CutFaults
import TokenMarkup.Proofs.Decode
import TokenMarkup.Proofs.Disjointness
import TokenMarkup.Proofs.Disorder
import TokenMarkup.Proofs.Encodable
import TokenMarkup.Proofs.Fidelity
import TokenMarkup.Proofs.JsonFormats
import TokenMarkup.Proofs.JsonGrammar
import TokenMarkup.Proofs.JsonReading
import TokenMarkup.Proofs.JsonWriting
import TokenMarkup.Proofs.LegendNames
import TokenMarkup.Proofs.LexemePieces
import TokenMarkup.Proofs.LexemeText
import TokenMarkup.Proofs.LexemeVerdict
import TokenMarkup.Proofs.LineLocality
import TokenMarkup.Proofs.MarkupReading
import TokenMarkup.Proofs.ModifierEquality
import TokenMarkup.Proofs.NoTrap
import TokenMarkup.Proofs.Overlay
import TokenMarkup.Proofs.Partition
import TokenMarkup.Proofs.Precedence
import TokenMarkup.Proofs.Recount
import TokenMarkup.Proofs.ReverseTables
import TokenMarkup.Proofs.RoundTrip
import TokenMarkup.Proofs.RunIntake
import TokenMarkup.Proofs.SourceLanguage
import TokenMarkup.Proofs.SpanCut
import TokenMarkup.Proofs.StageStatistics
import TokenMarkup.Proofs.Steps
import TokenMarkup.Proofs.StreamReading
import TokenMarkup.Proofs.TimingWindows
import TokenMarkup.Proofs.TokenOrder
import TokenMarkup.Proofs.WordTokens
import TokenMarkup.Proofs.Words
import TokenMarkup.Proofs.JsonReading
