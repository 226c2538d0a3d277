import NoteMarkup.Cleaning.Tree
import NoteMarkup.Command.Run
import NoteMarkup.Document.Log
import NoteMarkup.Document.Xml
import NoteMarkup.Event.Markup
import NoteMarkup.Event.Tree
import NoteMarkup.Grammar.Standard
import NoteMarkup.Html.Tree
import NoteMarkup.Json.Forms
import NoteMarkup.Main
import NoteMarkup.Proofs.Outline
import NoteMarkup.Proofs.StandardGrammar
import NoteMarkup.Proofs.Stacking
import NoteMarkup.Proofs.Opening
import NoteMarkup.Proofs.Attributes
import NoteMarkup.Proofs.Lawful
import NoteMarkup.Proofs.Run
import NoteMarkup.Proofs.Conformance
import NoteMarkup.Proofs.EndTag
import NoteMarkup.Proofs.MarkupReader
import NoteMarkup.Proofs.Stretches
import NoteMarkup.Proofs.MarkupRoundTrip
import NoteMarkup.Proofs.CanonicalTree
import NoteMarkup.Proofs.Idempotence
import NoteMarkup.Proofs.Entering
import NoteMarkup.Proofs.Texts
import NoteMarkup.Proofs.Schema
import NoteMarkup.Proofs.Links
import NoteMarkup.Proofs.Ancestry
import NoteMarkup.Proofs.Whitelist
import NoteMarkup.Proofs.Invariants
import NoteMarkup.Proofs.WellFormed
import NoteMarkup.Proofs.Reports
import NoteMarkup.Proofs.XmlReader
import NoteMarkup.Proofs.XmlRoundTrip
import NoteMarkup.Proofs.ReportedText
import NoteMarkup.Proofs.IgnoredInput
import NoteMarkup.Proofs.Melting
import NoteMarkup.Proofs.UnknownElements
import NoteMarkup.Proofs.FilePaths
import NoteMarkup.Proofs.Writing
import NoteMarkup.Proofs.OutputPaths
import NoteMarkup.Proofs.DirectoryRun
import NoteMarkup.Proofs.Ownership
import NoteMarkup.Proofs.Repetition
import NoteMarkup.Proofs.Deduplication
import NoteMarkup.Proofs.KindLinks
import NoteMarkup.Proofs.SoundGrammar
import NoteMarkup.Proofs.OpeningDepth
import NoteMarkup.Proofs.Phrasing
import NoteMarkup.Proofs.LineBreaks
import NoteMarkup.Proofs.Atop
import NoteMarkup.Proofs.CombinedStyles
import NoteMarkup.Proofs.ScriptSchemes
import NoteMarkup.Proofs.EncodedValues
import NoteMarkup.Proofs.TagOrigins
import NoteMarkup.Proofs.WrappedContent
import NoteMarkup.Proofs.ColoredElements
import NoteMarkup.Proofs.TreeOfEvents
import NoteMarkup.Proofs.ColorForms
import NoteMarkup.Proofs.Access
import NoteMarkup.Proofs.OutlinedDrafts
import NoteMarkup.Proofs.Consistency
import NoteMarkup.Proofs.CheckedAccess
import NoteMarkup.Proofs.LineContinuation
import NoteMarkup.Proofs.JsonText
import NoteMarkup.Proofs.NodeJson
import NoteMarkup.Proofs.Nesting
import NoteMarkup.Proofs.Skipping
import NoteMarkup.Proofs.LayoutFree
import NoteMarkup.Proofs.PrettyXml
