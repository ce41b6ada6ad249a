import Manpage.Text.Printable

/-!
# Requests

The requests a page can make on its control lines.  Names are matched without regard to case;
every other name is unknown and its line is skipped.

## Main definitions

* `Request`: the requests that are understood.
* `Request.ofName?`, `Request.parse`: the request of a name.
* `Request.endsIndent`: the requests before which a hanging indent ends.
* `quotedArguments`: the arguments that double quotes split a text into.
-/

namespace Manpage

/-- The requests that are understood. -/
inductive Request where
  /-- Title of the page. -/
  | th
  /-- Title of the page, in the semantic dialect. -/
  | dt
  /-- Command-line flags. -/
  | fl
  /-- A command-line argument. -/
  | ar
  /-- Optional flags and arguments. -/
  | op
  /-- A list item, which makes the request named by its argument. -/
  | it
  /-- Start of a list. -/
  | bl
  /-- End of a list. -/
  | el
  /-- A section. -/
  | sh
  /-- A paragraph. -/
  | pp
  /-- A paragraph. -/
  | lp
  /-- A paragraph. -/
  | p
  /-- The name of the command. -/
  | nm
  /-- The description of the command. -/
  | nd
  /-- Start of a relative indent. -/
  | rs
  /-- End of a relative indent. -/
  | re
  /-- A hanging paragraph whose term is the next line. -/
  | tp
  /-- An indented paragraph, with or without a term. -/
  | ip
  /-- Bold text. -/
  | b
  /-- Italic text. -/
  | i
  /-- Bold and roman words, or a reference to another page, or a line break. -/
  | br
  /-- Bold italic text. -/
  | bi
  /-- Roman and italic words. -/
  | ri
  /-- Roman and bold words. -/
  | rb
  /-- Italic and roman words. -/
  | ir
  /-- Italic and bold words. -/
  | ib
  /-- A condition's other branch. -/
  | ie
  /-- No hyphenation. -/
  | nh
  /-- Adjustment of lines. -/
  | ad
  /-- Vertical space. -/
  | sp
  /-- Start of preformatted text. -/
  | nf
  /-- End of preformatted text. -/
  | fi
  /-- The page is a reference to another page. -/
  | so
  deriving DecidableEq, Repr

namespace Request

/-- Every request. -/
def all : List Request :=
  [th, dt, fl, ar, op, it, bl, el, sh, pp, lp, p, nm, nd, rs, re, tp, ip, b, i, br, bi, ri, rb, ir,
    ib, ie, nh, ad, sp, nf, fi, so]

/-- The name of a request, in lower case. -/
def name : Request → String
  | th => "th"
  | dt => "dt"
  | fl => "fl"
  | ar => "ar"
  | op => "op"
  | it => "it"
  | bl => "bl"
  | el => "el"
  | sh => "sh"
  | pp => "pp"
  | lp => "lp"
  | p => "p"
  | nm => "nm"
  | nd => "nd"
  | rs => "rs"
  | re => "re"
  | tp => "tp"
  | ip => "ip"
  | b => "b"
  | i => "i"
  | br => "br"
  | bi => "bi"
  | ri => "ri"
  | rb => "rb"
  | ir => "ir"
  | ib => "ib"
  | ie => "ie"
  | nh => "nh"
  | ad => "ad"
  | sp => "sp"
  | nf => "nf"
  | fi => "fi"
  | so => "so"

/-- The request called `name`, whatever the case of its letters. -/
def ofName? (name : List Char) : Option Request :=
  all.find? fun r => r.name.toList == name.map Char.toLower

/-- The requests before which a hanging indent ends. -/
def endsIndent : Request → Bool
  | th | dt | sh | pp | lp | p | tp | ip | sp => true
  | _ => false

/-- A name that no request has. -/
structure Unknown where
  /-- The name as the page gave it. -/
  name : String
  deriving DecidableEq, Repr

/-- The wording of an unknown name. -/
def Unknown.message (u : Unknown) : String :=
  String.join ["unimplemented control: ", String.ofList (Text.quoted u.name.toList)]

/-- The request called `name`, or the reason why there is none. -/
def parse (name : String) : Except Unknown Request :=
  match ofName? name.toList with
  | some request => .ok request
  | none => .error ⟨name⟩

end Request

/-- The arguments that double quotes split `cs` into: what stands between two quotes is one
argument, and blank pieces do not count. -/
def quotedArguments (cs : List Char) : List (List Char) :=
  (Text.pieces (· == '"') cs).filter (!Text.isBlankText ·)

end Manpage
