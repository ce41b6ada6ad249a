import Manpage.Html.Printer
import Manpage.Link.Contents
import Manpage.Roff.Line

/-!
# Pages

A manual page as a whole: its text, its HTML with and without option links, and the list of the
links inside it.

## Main definitions

* `Page.markup`: the page as fragments of markup.
* `Page.rawHtml`: the HTML without option links.
* `Page.html`: the HTML with option links.
* `Page.contents`: the links inside the page, as they are listed.
-/

namespace Manpage.Page

open Markup (Fragment)
open Html (Document)

/-- What is written before the first line. -/
def start : List Fragment := [.opening .html, .opening .body]

/-- The page with the given logical lines, as fragments of markup. -/
def markup (lines : List (List Char)) : List Fragment :=
  let (s, text) := State.feedAll {} lines
  start ++ text ++ s.finish

/-- The page whose lines come from a source that can fail, as HTML without option links. -/
def ofLines {ε : Type} (items : List (Except ε (List Char))) : Except ε (List Char) :=
  (Continuation.attempt (Continuation.logicalLines items)).map (Markup.render ∘ markup)

/-- The logical lines of a page's text. -/
def logicalLines (text : List Char) : List (List Char) :=
  (Continuation.logicalLines ((Text.lines text).map .ok)).filterMap
    fun item : Except Empty (List Char) => item.toOption

/-- The HTML of a page's text, without option links. -/
def rawHtml (text : List Char) : List Char :=
  Markup.render (markup (logicalLines text))

/-- The document of the HTML `raw`, with its option links. -/
def linked (raw : List Char) : Document :=
  let d := Document.parse raw
  { d with body := Link.linkOptions d.body }

/-- The HTML `raw` with its option links. -/
def linkHtml (raw : List Char) : List Char :=
  (linked raw).print

/-- The HTML of a page's text, with option links. -/
def html (text : List Char) : List Char :=
  linkHtml (rawHtml text)

/-- The links inside a page, as they are listed. -/
def contents (text : List Char) : List (List Char) :=
  Link.displayOrder (Link.links (linked (rawHtml text)).body)

end Manpage.Page
