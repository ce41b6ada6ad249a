import Manpage.Proofs.Markup.Rendered

/-!
# The plain text of written text

Written text is read back by dropping the tags of fonts and taking each reference for its
character; `&nbsp;` stands for a space. Running text is read back fragment by fragment, since a
fragment is always read as a whole.

## Main definitions

* `plainText`: what written text stands for
* `Fragment.plain`: what a fragment of running text stands for

## Main results

* `plainText_chars`: a fragment is read as a whole
* `plainText_render`: running text is read fragment by fragment
* `plainText_render_escape`: escaped text is read back as the text
-/

namespace Manpage.Markup

/-! ## Reading -/

/-- The character of the numeric reference whose digits `cs` starts with, and what follows it;
without a number that a semicolon ends, the ampersand before stands for itself. -/
def readNumber (cs : List Char) : List Char × List Char :=
  match cs.takeWhile Char.isDigit, cs.dropWhile Char.isDigit with
  | d :: ds, ';' :: rest => ([Char.ofNat (Nat.ofDigitChars 10 (d :: ds) 0)], rest)
  | _, _ => (['&'], '#' :: cs)

/-- What the text `c :: cs` starts with: the characters that this stands for, and what follows. -/
def readFirst (c : Char) (cs : List Char) : List Char × List Char :=
  match c, cs with
  | '<', 'b' :: '>' :: rest => ([], rest)
  | '<', '/' :: 'b' :: '>' :: rest => ([], rest)
  | '<', 'i' :: '>' :: rest => ([], rest)
  | '<', '/' :: 'i' :: '>' :: rest => ([], rest)
  | '&', 'l' :: 't' :: ';' :: rest => (['<'], rest)
  | '&', 'g' :: 't' :: ';' :: rest => (['>'], rest)
  | '&', 'a' :: 'm' :: 'p' :: ';' :: rest => (['&'], rest)
  | '&', 'n' :: 'b' :: 's' :: 'p' :: ';' :: rest => ([' '], rest)
  | '&', '#' :: rest => readNumber rest
  | c, rest => ([c], rest)

theorem length_readNumber_le (cs : List Char) : (readNumber cs).2.length ≤ cs.length + 1 := by
  have hdrop := (List.dropWhile_sublist (l := cs) Char.isDigit).length_le
  unfold readNumber
  split
  · next heq =>
    rw [heq, List.length_cons] at hdrop
    dsimp only
    omega
  · exact Nat.le_refl _

theorem length_readFirst_le (c : Char) (cs : List Char) :
    (readFirst c cs).2.length ≤ cs.length := by
  unfold readFirst
  split
  case h_9 rest => exact length_readNumber_le rest
  all_goals grind

/-- **What written text stands for**, with the tags of fonts dropped and the references read. -/
def plainText : List Char → List Char
  | [] => []
  | c :: cs => (readFirst c cs).1 ++ plainText (readFirst c cs).2
termination_by cs => cs.length
decreasing_by exact Nat.lt_succ_of_le (length_readFirst_le c cs)

/-! ## Fragments -/

/-- What a fragment of running text stands for. -/
def Fragment.plain : Fragment → List Char
  | char c => [c]
  | less => ['<']
  | greater => ['>']
  | ampersand => ['&']
  | blank => [' ']
  | code n => [Char.ofNat n]
  | newline => ['\n']
  | opening _ | closing _ | lineBreak | pageStart | sectionStart | sectionClass | divisionEnd
  | anchorStart | valueEnd | anchorEnd => []

theorem plain_ofChar (c : Char) : (Fragment.ofChar c).plain = [c] := by
  unfold Fragment.ofChar
  split_ifs with hless hgreater hampersand hcode
  · rw [hless]
    rfl
  · rw [hgreater]
    rfl
  · rw [hampersand]
    rfl
  · exact congrArg (· :: []) (Char.ofNat_toNat c)
  · rfl

/-- Escaped text stands for the text, character by character. -/
theorem plain_escape (cs : List Char) : (escape cs).flatMap Fragment.plain = cs := by
  fun_induction escape cs with
  | case1 => rfl
  | case2 cs ih => exact congrArg (' ' :: ·) ih
  | case3 c cs _ ih => rw [List.flatMap_cons, plain_ofChar, ih, List.singleton_append]

section Reading

variable {newlines : Bool} {f : Fragment} {fs : List Fragment} {c : Char} (cs : List Char)

theorem plainText_cons_of_ne (hless : c ≠ '<') (hampersand : c ≠ '&') :
    plainText (c :: cs) = c :: plainText cs := by
  have hfirst : readFirst c cs = ([c], cs) := by
    unfold readFirst
    split
    all_goals first | exact absurd rfl hless | exact absurd rfl hampersand | rfl
  rw [plainText, hfirst]
  rfl

/-- A decimal reference is read as the character with its number. -/
theorem readNumber_toDigits (n : Nat) :
    readNumber (Nat.toDigits 10 n ++ ';' :: cs) = ([Char.ofNat n], cs) := by
  have hdigit : ∀ d ∈ Nat.toDigits 10 n, d.isDigit :=
    fun d hd => Nat.isDigit_of_mem_toDigits (by decide) (by decide) hd
  have htake : (Nat.toDigits 10 n ++ ';' :: cs).takeWhile Char.isDigit = Nat.toDigits 10 n := by
    rw [List.takeWhile_append_of_pos hdigit, List.takeWhile_cons_of_neg (by decide),
      List.append_nil]
  have hdrop : (Nat.toDigits 10 n ++ ';' :: cs).dropWhile Char.isDigit = ';' :: cs := by
    rw [List.dropWhile_append_of_pos hdigit, List.dropWhile_cons_of_neg (by decide)]
  obtain ⟨d, ds, hds⟩ := List.exists_cons_of_ne_nil (Nat.toDigits_ne_nil (n := n) (b := 10))
  have hvalue : Nat.ofDigitChars 10 (d :: ds) 0 = n := by
    rw [← hds, Nat.ofDigitChars_ten_toDigits]
  unfold readNumber
  rw [htake, hdrop, hds]
  show ([Char.ofNat (Nat.ofDigitChars 10 (d :: ds) 0)], cs) = _
  rw [hvalue]

/-- **A fragment of running text is read as a whole**, whatever follows it. -/
theorem plainText_chars (h : f.isInline newlines) :
    plainText (f.chars ++ cs) = f.plain ++ plainText cs := by
  cases f with
  | char c =>
    exact plainText_cons_of_ne cs (ne_of_isPlain h (by decide)) (ne_of_isPlain h (by decide))
  | newline => exact plainText_cons_of_ne cs (by decide) (by decide)
  | code n =>
    have hnumber : readFirst '&' ('#' :: (Nat.toDigits 10 n ++ [';'] ++ cs)) =
        ([Char.ofNat n], cs) := by
      rw [List.append_assoc]
      exact readNumber_toDigits cs n
    rw [Fragment.chars, List.cons_append, List.cons_append, plainText, hnumber]
    rfl
  | less | greater | ampersand | blank =>
    rw [Fragment.chars, List.cons_append, plainText]
    rfl
  | opening e | closing e =>
    cases e with
    | b | i =>
      rw [Fragment.chars, List.cons_append, plainText]
      rfl
    | _ => exact absurd h Bool.false_ne_true
  | _ => exact absurd h Bool.false_ne_true

/-- **Running text is read fragment by fragment.** -/
theorem plainText_render (h : IsInline newlines fs) :
    plainText (render fs) = fs.flatMap Fragment.plain := by
  induction fs with
  | nil => exact plainText.eq_1
  | cons f fs ih =>
    obtain ⟨hf, hrest⟩ := isInline_cons.mp h
    rw [render_cons, plainText_chars _ hf, ih hrest, List.flatMap_cons]

/-- Escaped text is read back as the text, so different texts are escaped differently. -/
theorem plainText_render_escape (cs : List Char) : plainText (render (escape cs)) = cs := by
  have hinline : IsInline false (escape cs) := isInline_escape cs
  rw [plainText_render hinline, plain_escape]

end Reading

end Manpage.Markup
