import Manpage.Html.Token

/-!
# Reading references and tags

What the reader of documents makes of a text that starts with a reference, with an attribute or
with a tag. A quoted value ends at its first quote, and nowhere else.

## Main definitions

* `Token.startedTag`: the tokens of a text that starts in a start tag

## Main results

* `Reference.read_decimal`: a decimal reference is read as the character of its number
* `Token.scan_startTag`, `Token.scan_endTag`: whole tags
* `Token.scan_quoted`: a start tag whose first attribute has a quoted value
-/

namespace Manpage.Html

/-! ## References -/

namespace Reference

theorem digit?_ten {c : Char} (h : c.isDigit) : digit? 10 c = some (c.toNat - '0'.toNat) := by
  have hbound : c.toNat ≤ 57 := by
    rw [Char.isDigit, Bool.and_eq_true, decide_eq_true_eq, decide_eq_true_eq] at h
    exact UInt32.le_iff_toNat_le.mp h.2
  simp only [digit?, h, if_true]
  rw [Option.filter_some, if_pos]
  have : '0'.toNat = 48 := rfl
  rw [decide_eq_true_eq]
  omega

/-- The decimal digits of a number spell it. -/
theorem number_toDigits (n : Nat) : number 10 (Nat.toDigits 10 n) = n := by
  have hdigit : ∀ c ∈ Nat.toDigits 10 n, c.isDigit :=
    fun c hc => Nat.isDigit_of_mem_toDigits (by decide) (by decide) hc
  have hfold : ∀ {ds : List Char} {m : Nat}, (∀ d ∈ ds, d.isDigit) →
      ds.foldl (fun k d => 10 * k + (digit? 10 d).getD 0) m = Nat.ofDigitChars 10 ds m := by
    intro ds m hds
    rw [Nat.ofDigitChars_eq_foldl]
    induction ds generalizing m with
    | nil => rfl
    | cons d ds ih =>
      obtain ⟨hd, hds⟩ := List.forall_mem_cons.mp hds
      rw [List.foldl_cons, List.foldl_cons, digit?_ten hd, Option.getD_some]
      exact ih hds
  rw [number, hfold hdigit]
  exact Nat.ofDigitChars_ten_toDigits

theorem numeric?_toDigits (n : Nat) (cs : List Char) :
    numeric? 10 (Nat.toDigits 10 n ++ ';' :: cs) = some (codePoint n, cs) := by
  have hdigit : ∀ c ∈ Nat.toDigits 10 n, (digit? 10 c).isSome := by
    intro c hc
    rw [digit?_ten (Nat.isDigit_of_mem_toDigits (by decide) (by decide) hc)]
    rfl
  have hcut : (Nat.toDigits 10 n ++ ';' :: cs).takeWhile (fun c => (digit? 10 c).isSome) =
      Nat.toDigits 10 n := by
    rw [List.takeWhile_append_of_pos hdigit, List.takeWhile_cons_of_neg (by decide),
      List.append_nil]
  unfold numeric?
  split
  · next h => exact absurd (hcut.symm.trans h) Nat.toDigits_ne_nil
  · rw [hcut, number_toDigits, List.drop_left]
    rfl

/-- **A decimal reference** is read as the character of its number. -/
theorem read_decimal (inValue : Bool) (n : Nat) (cs : List Char) :
    read inValue ('#' :: (Nat.toDigits 10 n ++ ';' :: cs)) = (codePoint n, cs) := by
  obtain ⟨d, ds, hds⟩ := List.exists_cons_of_ne_nil (Nat.toDigits_ne_nil (n := n) (b := 10))
  have hd : d.isDigit :=
    Nat.isDigit_of_mem_toDigits (by decide) (by decide) (hds ▸ List.mem_cons_self)
  have hnumeric := numeric?_toDigits n cs
  have hlower : d ≠ 'x' := by rintro rfl; exact absurd hd (by decide)
  have hupper : d ≠ 'X' := by rintro rfl; exact absurd hd (by decide)
  rw [hds, List.cons_append] at hnumeric ⊢
  rw [read, read?, hnumeric, Option.getD_some]
  · intro rest h
    exact hlower (List.cons.inj h).1
  · intro rest h
    exact hupper (List.cons.inj h).1

end Reference

/-! ## Attributes -/

namespace Token

section Value

variable {q c : Char} (cs : List Char)

theorem quotedValue_quote : quotedValue q (q :: cs) = ([], cs) := by
  rw [quotedValue, if_pos rfl]

theorem quotedValue_reference (hq : q ≠ '&') :
    quotedValue q ('&' :: cs) =
      ((Reference.read true cs).1 :: (quotedValue q (Reference.read true cs).2).1,
        (quotedValue q (Reference.read true cs).2).2) := by
  rw [quotedValue, if_neg hq.symm, if_pos rfl]

theorem quotedValue_char (hquote : c ≠ q) (hampersand : c ≠ '&') :
    quotedValue q (c :: cs) =
      (orReplacement c :: (quotedValue q cs).1, (quotedValue q cs).2) := by
  rw [quotedValue, if_neg hquote, if_neg hampersand]

/-- Plain characters of a value are read as they stand. -/
theorem quotedValue_append {value : List Char}
    (h : value.all fun c => c != q && c != '&' && c != '\x00') :
    quotedValue q (value ++ cs) = (value ++ (quotedValue q cs).1, (quotedValue q cs).2) := by
  induction value with
  | nil => rfl
  | cons c value ih =>
    simp only [List.all_cons, Bool.and_eq_true, bne_iff_ne] at h
    obtain ⟨⟨⟨hquote, hampersand⟩, hnul⟩, hvalue⟩ := h
    rw [List.cons_append, quotedValue_char _ hquote hampersand, ih hvalue, orReplacement,
      if_neg hnul]
    rfl

end Value

theorem attributes?_close (cs : List Char) : attributes? ('>' :: cs) = some ([], cs) := by
  rw [attributes?, if_pos rfl]

theorem attributes?_separator {c : Char} (hc : isSpace c || c == '/') (hclose : c ≠ '>')
    (cs : List Char) : attributes? (c :: cs) = attributes? cs := by
  rw [attributes?, if_neg hclose, if_pos hc]

/-- **An attribute with a quoted value**: the value ends at the first quote, and the attributes
that follow it are read from there on. -/
theorem attributes?_quoted (c : Char) (name : List Char) (hc : isAttributeNameChar c)
    (hname : name.all isAttributeNameChar) (cs : List Char) :
    attributes? (c :: (name ++ '=' :: '"' :: cs)) =
      (attributes? (quotedValue '"' cs).2).map fun p =>
        (⟨String.ofList ((c :: name).map nameChar), String.ofList (quotedValue '"' cs).1⟩ :: p.1,
          p.2) := by
  have hread : readAttribute c (name ++ '=' :: '"' :: cs) =
      (⟨String.ofList ((c :: name).map nameChar), String.ofList (quotedValue '"' cs).1⟩,
        (quotedValue '"' cs).2) := by
    have htake : (name ++ '=' :: '"' :: cs).takeWhile isAttributeNameChar = name := by
      rw [List.takeWhile_append_of_pos (List.all_eq_true.mp hname),
        List.takeWhile_cons_of_neg (by decide), List.append_nil]
    have hdrop : (name ++ '=' :: '"' :: cs).dropWhile isAttributeNameChar = '=' :: '"' :: cs := by
      rw [List.dropWhile_append_of_pos (List.all_eq_true.mp hname),
        List.dropWhile_cons_of_neg (by decide)]
    have hvalue : valueAfterName ('=' :: '"' :: cs) = quotedValue '"' cs := rfl
    rw [readAttribute, htake, hdrop, hvalue, List.map_cons]
  simp only [isAttributeNameChar, Bool.not_eq_true', Bool.or_eq_false_iff, beq_eq_false_iff_ne]
    at hc
  obtain ⟨⟨⟨hspace, hslash⟩, hclose⟩, -⟩ := hc
  rw [attributes?, if_neg hclose, if_neg (by simp [hspace, hslash]), hread]

/-- The first attribute of a tag is kept. -/
theorem head?_distinctNames (a : Attribute) (others : List Attribute) :
    (distinctNames (a :: others)).head? = some a := by
  have hfold : ∀ {kept : List Attribute} (as : List Attribute), kept.head? = some a →
      (as.foldl (fun kept b => if kept.any (·.name == b.name) then kept else kept ++ [b])
        kept).head? = some a := by
    intro kept as
    induction as generalizing kept with
    | nil => exact id
    | cons b as ih =>
      intro hkept
      rw [List.foldl_cons]
      apply ih
      split
      · exact hkept
      · rw [List.head?_append, hkept, Option.some_or]
  exact hfold others rfl

/-- The names of attributes are the same after those that come again are dropped. -/
theorem forall_mem_distinctNames {p : String → Prop} {attributes : List Attribute} :
    (∀ a ∈ distinctNames attributes, p a.name) ↔ ∀ a ∈ attributes, p a.name := by
  have hfold : ∀ (as kept : List Attribute),
      (∀ a ∈ as.foldl (fun kept b =>
        if kept.any (·.name == b.name) then kept else kept ++ [b]) kept, p a.name) ↔
      (∀ a ∈ kept, p a.name) ∧ ∀ a ∈ as, p a.name := by
    intro as
    induction as with
    | nil => simp
    | cons b as ih =>
      intro kept
      rw [List.foldl_cons, ih, List.forall_mem_cons]
      split
      · next h =>
        obtain ⟨c, hc, hname⟩ := List.any_eq_true.mp h
        rw [beq_iff_eq] at hname
        constructor
        · rintro ⟨hkept, has⟩
          exact ⟨hkept, hname ▸ hkept c hc, has⟩
        · rintro ⟨hkept, -, has⟩
          exact ⟨hkept, has⟩
      · rw [List.forall_mem_append, List.forall_mem_singleton, and_assoc]
  rw [distinctNames, hfold attributes []]
  simp

/-! ## Tags -/

/-- The name of a tag ends at the first character that cannot be part of it. -/
theorem tag?_append {name : List Char} {c : Char} (hname : name.all isTagNameChar)
    (hc : ¬ isTagNameChar c) (cs : List Char) :
    tag? (name ++ c :: cs) = (attributes? (c :: cs)).map fun p =>
      ((.ofName (String.ofList (name.map nameChar)), distinctNames p.1), p.2) := by
  have hall := List.all_eq_true.mp hname
  rw [tag?, List.takeWhile_append_of_pos hall, List.dropWhile_append_of_pos hall,
    List.takeWhile_cons_of_neg hc, List.dropWhile_cons_of_neg hc, List.append_nil]

/-- A tag without attributes. -/
theorem tag?_close (name : List Char) (hname : name.all isTagNameChar) (cs : List Char) :
    tag? (name ++ '>' :: cs) = some ((.ofName (String.ofList (name.map nameChar)), []), cs) := by
  rw [tag?_append hname (by decide), attributes?_close]
  rfl

section Scan

variable {c d : Char} {tag : Tag} {attributes : List Attribute} {cs rest : List Char}

theorem scan_char (hampersand : c ≠ '&') (hless : c ≠ '<') :
    scan (c :: cs) = .char c :: scan cs := by
  rw [scan, next.eq_def, if_neg hampersand, if_neg hless]
  rfl

theorem scan_reference (h : Reference.read false cs = (c, rest)) :
    scan ('&' :: cs) = .char c :: scan rest := by
  rw [scan, next.eq_def, if_pos rfl, h]
  rfl

theorem next_startTag (hd : d.isAlpha) :
    next '<' (d :: cs) =
      match tag? (d :: cs) with
      | some ((tag, attributes), rest) => ([.startTag tag attributes], rest)
      | none => ([], []) := by
  have hslash : d ≠ '/' := by rintro rfl; exact absurd hd (by decide)
  unfold next
  rw [if_neg (by decide), if_pos rfl]
  split
  · next h => exact absurd (List.cons.inj h).1 hslash
  · next h =>
    obtain ⟨rfl, rfl⟩ := List.cons.inj h
    exact if_pos hd
  · next h => exact absurd h (List.cons_ne_nil _ _)

/-- A start tag gives one token. -/
theorem scan_startTag (hd : d.isAlpha) (h : tag? (d :: cs) = some ((tag, attributes), rest)) :
    scan ('<' :: d :: cs) = .startTag tag attributes :: scan rest := by
  rw [scan, next_startTag hd, h]
  rfl

/-- A start tag that does not end gives no token, and nor does the text after it. -/
theorem scan_of_tag?_eq_none (hd : d.isAlpha) (h : tag? (d :: cs) = none) :
    scan ('<' :: d :: cs) = [] := by
  rw [scan, next_startTag hd, h]
  exact scan.eq_1

/-- An end tag gives one token. -/
theorem scan_endTag (hd : d.isAlpha) (h : tag? (d :: cs) = some ((tag, attributes), rest)) :
    scan ('<' :: '/' :: d :: cs) = .endTag tag :: scan rest := by
  rw [scan, next, if_neg (by decide), if_pos rfl]
  simp only [if_pos hd, h]
  rfl

end Scan

/-! ## Tags with a quoted value -/

/-- The tokens of a text that starts in a start tag, behind its first attribute. A tag that does
not end gives no token. -/
def startedTag (tag : Tag) (first : Attribute) (text : List Char) : List Token :=
  match attributes? text with
  | some (others, rest) => .startTag tag (distinctNames (first :: others)) :: scan rest
  | none => []

section StartedTag

variable {tag : Tag} {first : Attribute} {text rest : List Char} {others : List Attribute}

theorem startedTag_of_attributes? (h : attributes? text = some (others, rest)) :
    startedTag tag first text =
      .startTag tag (distinctNames (first :: others)) :: scan rest := by
  rw [startedTag, h]

/-- **The first attribute of a start tag** is the one that was read first. -/
theorem startedTag_ne {other : Tag} {a : Attribute} {ts : List Token} (h : first ≠ a) :
    startedTag tag first text ≠ .startTag other (a :: others) :: ts := by
  intro heq
  unfold startedTag at heq
  split at heq
  · obtain ⟨-, hsame⟩ := startTag.inj (List.cons.inj heq).1
    have hhead := congrArg List.head? hsame
    rw [head?_distinctNames, List.head?_cons] at hhead
    exact h (Option.some.inj hhead)
  · exact absurd heq (List.cons_ne_nil _ _).symm

/-- **A start tag whose first attribute has a quoted value**: the rest of the tag is read from the
first quote on. -/
theorem scan_quoted (n : Char) (name : List Char) (k : Char) (key : List Char) (hn : n.isAlpha)
    (hname : (n :: name).all isTagNameChar) (hkey : (k :: key).all isAttributeNameChar)
    (cs : List Char) :
    scan ('<' :: n :: (name ++ ' ' :: k :: (key ++ '=' :: '"' :: cs))) =
      startedTag (.ofName (String.ofList ((n :: name).map nameChar)))
        ⟨String.ofList ((k :: key).map nameChar), String.ofList (quotedValue '"' cs).1⟩
        (quotedValue '"' cs).2 := by
  rw [List.all_cons, Bool.and_eq_true] at hkey
  obtain ⟨hk, hkey⟩ := hkey
  have htag := tag?_append hname (c := ' ') (by decide) (k :: (key ++ '=' :: '"' :: cs))
  rw [attributes?_separator (by decide) (by decide), attributes?_quoted k key hk hkey,
    List.cons_append] at htag
  cases hrest : attributes? (quotedValue '"' cs).2 with
  | none =>
    rw [hrest] at htag
    rw [scan_of_tag?_eq_none hn htag, startedTag, hrest]
  | some p =>
    rw [hrest] at htag
    rw [scan_startTag hn htag, startedTag_of_attributes? hrest]

end StartedTag

end Token

end Manpage.Html
