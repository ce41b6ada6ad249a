/-!
# Glyphs

Characters that a page calls by name, as in `\(co` or `\[sum]`.  Each name stands for one
character; a name that is not in the tables stands for no text at all.

## Main definitions

* `Glyph.table`: every name with its character.
* `Glyph.char?`: the character of a name.
* `Glyph.text`: the text a name contributes to the page.
-/

namespace Manpage.Glyph

/-- Letters outside the basic alphabet and ligatures. -/
def letters : List (String × Char) := [
  ("-D", 'Ð'), ("Sd", 'ð'), ("TP", 'Þ'), ("Tp", 'þ'), ("ss", 'ß'), ("AE", 'Æ'), ("ae", 'æ'),
  ("OE", 'Œ'), ("oe", 'œ'), (".i", 'ı'), ("fi", 'ﬁ'), ("fl", 'ﬂ'), ("ff", 'ﬀ'), ("Fi", 'ﬃ'),
  ("Fl", 'ﬄ')]

/-- Letters with an accent: the name is the accent followed by the letter. -/
def accented : List (String × Char) := [
  ("'A", 'Á'), ("'E", 'É'), ("'I", 'Í'), ("'O", 'Ó'), ("'U", 'Ú'), ("'Y", 'Ý'), ("'a", 'á'),
  ("'e", 'é'), ("'i", 'í'), ("'o", 'ó'), ("'u", 'ú'), ("'y", 'ý'), (":A", 'Ä'), (":E", 'Ë'),
  (":I", 'Ï'), (":O", 'Ö'), (":U", 'Ü'), (":Y", 'Ÿ'), (":a", 'ä'), (":e", 'ë'), (":i", 'ï'),
  (":o", 'ö'), (":u", 'ü'), (":y", 'ÿ'), ("^A", 'Â'), ("^E", 'Ê'), ("^I", 'Î'), ("^O", 'Ô'),
  ("^U", 'Û'), ("^a", 'â'), ("^e", 'ê'), ("^i", 'î'), ("^o", 'ô'), ("^u", 'û'), ("`A", 'À'),
  ("`E", 'È'), ("`I", 'Ì'), ("`O", 'Ò'), ("`U", 'Ù'), ("`a", 'à'), ("`e", 'è'), ("`i", 'ì'),
  ("`o", 'ò'), ("`u", 'ù'), ("~A", 'Ã'), ("~N", 'Ñ'), ("~O", 'Õ'), ("~a", 'ã'), ("~n", 'ñ'),
  ("~o", 'õ'), ("vS", 'Š'), ("vs", 'š'), ("vZ", 'Ž'), ("vz", 'ž'), (",C", 'Ç'), (",c", 'ç'),
  ("/L", 'Ł'), ("/l", 'ł'), ("/O", 'Ø'), ("/o", 'ø'), ("oA", 'Å'), ("oa", 'å')]

/-- Greek letters: a star, or a plus for a variant form, followed by the Latin letter. -/
def greek : List (String × Char) := [
  ("*A", 'Α'), ("*B", 'Β'), ("*C", 'Ξ'), ("*D", 'Δ'), ("*E", 'Ε'), ("*F", 'Φ'), ("*G", 'Γ'),
  ("*H", 'Θ'), ("*I", 'Ι'), ("*K", 'Κ'), ("*L", 'Λ'), ("*M", 'Μ'), ("*N", 'Ν'), ("*O", 'Ο'),
  ("*P", 'Π'), ("*Q", 'Ψ'), ("*R", 'Ρ'), ("*S", 'Σ'), ("*T", 'Τ'), ("*U", 'Υ'), ("*W", 'Ω'),
  ("*X", 'Χ'), ("*Y", 'Η'), ("*Z", 'Ζ'), ("*a", 'α'), ("*b", 'β'), ("*c", 'ξ'), ("*d", 'δ'),
  ("*e", 'ε'), ("*f", 'φ'), ("+f", 'ϕ'), ("*g", 'γ'), ("*h", 'θ'), ("+h", 'ϑ'), ("*i", 'ι'),
  ("*k", 'κ'), ("*l", 'λ'), ("*m", 'μ'), ("*n", 'ν'), ("*o", 'ο'), ("*p", 'π'), ("+p", 'ϖ'),
  ("*q", 'ψ'), ("*r", 'ρ'), ("*s", 'σ'), ("*t", 'τ'), ("*u", 'υ'), ("*w", 'ω'), ("*x", 'χ'),
  ("*y", 'η'), ("*z", 'ζ'), ("ts", 'ς')]

/-- Accents that stand alone. -/
def accents : List (String × Char) := [
  ("a\"", '\x22'), ("a-", '¯'), ("a.", '˙'), ("a^", '^'), ("aa", '\x27'), ("ga", '\x60'),
  ("ab", '˘'), ("ac", '¸'), ("ad", '¨'), ("ah", 'ˇ'), ("ao", '˚'), ("a~", '~'), ("ho", '˛'),
  ("ha", '^'), ("ti", '∼')]

/-- Quotation marks. Most of them are written as the plain ASCII mark. -/
def quotes : List (String × Char) := [
  ("Bq", '\x22'), ("bq", '\x27'), ("lq", '\x22'), ("rq", '\x22'), ("oq", '\x27'), ("cq", '’'),
  ("aq", '‘'), ("dq", '\x22'), ("Fo", '«'), ("Fc", '»'), ("fo", '‹'), ("fc", '›')]

/-- Punctuation, dashes and brackets. -/
def punctuation : List (String × Char) := [
  ("r!", '¡'), ("r?", '¿'), ("em", '-'), ("en", '-'), ("hy", '-'), ("lB", '['), ("rB", ']'),
  ("lC", '\x7b'), ("rC", '\x7d'), ("la", '<'), ("ra", '>'), ("mi", '-')]

/-- Arrows. -/
def arrows : List (String × Char) := [
  ("<-", '←'), ("->", '→'), ("<>", '↔'), ("da", '↓'), ("ua", '↑'), ("lA", '⇐'), ("rA", '⇒'),
  ("hA", '⇔'), ("dA", '⇓'), ("uA", '⇑')]

/-- Lines, bars and slashes. -/
def rules : List (String × Char) := [
  ("an", '─'), ("or", '|'), ("ba", '|'), ("br", '│'), ("ru", '_'), ("ul", '_'), ("bv", '│'),
  ("bb", '¦'), ("sl", '/'), ("rs", '\\')]

/-- Marks in text, legal signs, currencies, units and playing cards. -/
def signs : List (String × Char) := [
  ("ci", '◯'), ("bu", '•'), ("dd", '‡'), ("dg", '†'), ("lz", '◊'), ("sq", '□'), ("ps", '¶'),
  ("sc", '§'), ("lh", '☜'), ("rh", '☞'), ("at", '@'), ("sh", '#'), ("CR", '␍'), ("co", '©'),
  ("rg", '®'), ("tm", '™'), ("Do", '$'), ("ct", '¢'), ("eu", '€'), ("Eu", '€'), ("Ye", '¥'),
  ("Po", '£'), ("Cs", '¤'), ("Fn", 'ƒ'), ("de", '°'), ("%0", '‰'), ("fm", '′'), ("sd", '″'),
  ("mc", 'µ'), ("Of", 'ª'), ("Om", 'º'), ("CL", '♣'), ("SP", '♠'), ("HE", '♥'), ("DI", '♦')]

/-- Logic, fractions, superscripts and mathematical symbols. -/
def mathematics : List (String × Char) := [
  ("AN", '∧'), ("OR", '∨'), ("no", '¬'), ("te", '∃'), ("fa", '∀'), ("st", '∋'), ("3d", '∴'),
  ("tf", '∴'), ("12", '½'), ("14", '¼'), ("34", '¾'), ("S1", '¹'), ("S2", '²'), ("S3", '³'),
  ("pl", '+'), ("+-", '±'), ("t+-", '±'), ("pc", '·'), ("md", '⋅'), ("mu", '×'), ("tmu", '×'),
  ("c*", '⊗'), ("c+", '⊕'), ("di", '÷'), ("tdi", '÷'), ("f/", '⁄'), ("**", '∗'), ("<=", '≤'),
  (">=", '≥'), ("!=", '≠'), ("eq", '='), ("==", '≡'), ("=~", '≅'), ("ap", '∼'), ("~~", '≈'),
  ("~=", '≈'), ("pt", '∝'), ("es", '∅'), ("mo", '∈'), ("nm", '∉'), ("nb", '⊄'), ("sb", '⊂'),
  ("sp", '⊃'), ("ib", '⊆'), ("ip", '⊇'), ("ca", '∩'), ("cu", '∪'), ("/_", '∠'), ("pp", '⊥'),
  ("is", '∫'), ("sum", '∑'), ("product", '∏'), ("gr", '∇'), ("sr", '√'), ("rn", '‾'),
  ("if", '∞'), ("Ah", 'ℵ'), ("Im", 'ℑ'), ("Re", 'ℜ'), ("wp", '℘'), ("pd", '∂')]

/-- Every name with its character.  No name occurs twice. -/
def table : List (String × Char) :=
  letters ++ accented ++ greek ++ accents ++ quotes ++ punctuation ++ arrows ++ rules ++ signs ++
    mathematics

/-- The character called `name`, if there is one. -/
def char? (name : List Char) : Option Char :=
  table.lookup (String.ofList name)

/-- The text that a reference to `name` stands for: its character, or nothing. -/
def text (name : List Char) : List Char :=
  (char? name).toList

end Manpage.Glyph
