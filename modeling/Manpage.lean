import Manpage.Text.Basic
import Manpage.Text.Word
import Manpage.Text.Printable
import Manpage.Roff.Glyph
import Manpage.Roff.Request
import Manpage.Roff.Line
import Manpage.Html.Node
import Manpage.Page
import Manpage.Archive.Gzip
import Manpage.Archive.Bzip2
import Manpage.Archive.Lzma
import Manpage.Archive.Format
import Manpage.Command.Run
import Manpage.Main
import Manpage.Proofs.Markup.Content
import Manpage.Proofs.Roff.RunningText
import Manpage.Proofs.Roff.Lines
import Manpage.Proofs.Markup.Rendered
import Manpage.Proofs.Page.Markup
import Manpage.Proofs.Html.Reading
import Manpage.Proofs.Html.Printing
import Manpage.Proofs.Html.Rebuilding
import Manpage.Proofs.Markup.Tokens
import Manpage.Proofs.Markup.Quotes
import Manpage.Proofs.Page.Tokens
import Manpage.Proofs.Link.Path
import Manpage.Proofs.Link.Linked
import Manpage.Proofs.Link.Anchors
import Manpage.Proofs.Link.Nesting
import Manpage.Proofs.Markup.Tally
import Manpage.Proofs.Roff.Fonts
import Manpage.Proofs.Roff.Weights
import Manpage.Proofs.Roff.Ledger
import Manpage.Proofs.Page.Balance
import Manpage.Proofs.Link.Wrapping
import Manpage.Proofs.Text.Order
import Manpage.Proofs.Link.Lifted
import Manpage.Proofs.Link.Contents
import Manpage.Proofs.Link.Mentions
import Manpage.Proofs.Html.Elements
import Manpage.Proofs.Html.Growth
import Manpage.Proofs.Text.Trim
import Manpage.Proofs.Link.Targets
import Manpage.Proofs.Markup.Heads
import Manpage.Proofs.Page.Targets
import Manpage.Proofs.Roff.OptionLines
import Manpage.Proofs.Link.Descriptions
import Manpage.Proofs.Page.OptionList
import Manpage.Proofs.Link.Idempotence
import Manpage.Proofs.Text.Lines
import Manpage.Proofs.Roff.Continuation
import Manpage.Proofs.Charset.Utf8
import Manpage.Proofs.Page.Reading
import Manpage.Proofs.Roff.LastLine
import Manpage.Proofs.Page.Comments
import Manpage.Proofs.Page.UnknownRequests
import Manpage.Proofs.Roff.Delivery
import Manpage.Proofs.Files.Tree
import Manpage.Proofs.Files.Growth
import Manpage.Proofs.Files.Path
import Manpage.Proofs.Command.Schedule
import Manpage.Proofs.Command.Stdout
import Manpage.Proofs.Command.Output
import Manpage.Proofs.Page.Preformatted
import Manpage.Proofs.Html.Construction
import Manpage.Proofs.Html.Scanning
import Manpage.Proofs.Markup.PlainText
import Manpage.Proofs.Markup.StartTags
import Manpage.Proofs.Page.Backslashes
import Manpage.Proofs.Page.Complete
import Manpage.Proofs.Roff.FontTags
import Manpage.Proofs.Markup.Displayed
import Manpage.Proofs.Page.HangingParagraph
import Manpage.Proofs.Roff.NestedItems
import Manpage.Proofs.Roff.References
import Manpage.Proofs.Roff.CommandName
import Manpage.Proofs.Roff.Notes
import Manpage.Proofs.Roff.Spacing
import Manpage.Proofs.Roff.Terms
import Manpage.Proofs.Roff.OptionalParts
import Manpage.Proofs.Link.DisplayOrder
import Manpage.Proofs.Charset.Recognition
import Manpage.Proofs.Charset.Order
import Manpage.Proofs.Files.ManualPath
import Manpage.Proofs.Files.Pages
import Manpage.Proofs.Files.OutputName
import Manpage.Proofs.Files.Spelling
import Manpage.Proofs.Page.LineEndings
import Manpage.Proofs.Markup.SpaceRuns
import Manpage.Proofs.Roff.InPlace
