import Manpage.Proofs.Charset.Utf8
import Manpage.Source

/-!
# Recognizing UTF-8

A page in plain UTF-8 is read as it stands. Of the bytes that start archives, those of gzip and xz
start no text at all: the one has a byte from the middle of a character where a character has to
start, the other a byte that occurs in no character. Only bzip2 starts with letters, and a text is
taken for it exactly if it starts with these letters. What is left is decoded without a guess about
the character set, whatever the codecs, and loses one byte order mark at its front.

## Main results

* `Utf8.encode_prefix_encode_iff`: bytes of one text in front of those of another
* `Archive.Format.sniff_encode`: the format of a text
* `Codecs.forall_decode?_eq_iff`: when no guess is made
* `Codecs.decode?_eq_none_iff`: when a character set cannot be read
* `Source.readBytes_encode`: what the bytes of a text are read as
-/

namespace Manpage

variable {start text : List Char} {bytes : Bytes}

namespace Utf8

/-! ## First bytes -/

/-- No character's bytes start those of another one. -/
theorem eq_of_utf8EncodeChar_append {c d : Char} {rest more : Bytes}
    (h : String.utf8EncodeChar c ++ rest = String.utf8EncodeChar d ++ more) : c = d := by
  have hdecode : ∀ (e : Char) (after : Bytes),
      (String.utf8EncodeChar e ++ after).toByteArray.utf8DecodeChar? 0 = some e := by
    intro e after
    rw [List.toByteArray_append]
    exact ByteArray.utf8DecodeChar?_utf8EncodeChar_append
  exact Option.some.inj ((hdecode c rest).symm.trans (h ▸ hdecode d more))

/-- **The bytes of one text start those of another** exactly if the text starts the other. -/
theorem encode_prefix_encode_iff : encode start <+: encode text ↔ start <+: text := by
  constructor
  · intro h
    induction start generalizing text with
    | nil => exact List.nil_prefix
    | cons c start ih =>
      cases text with
      | nil =>
        rw [encode_nil, List.prefix_nil, encode_eq_nil_iff] at h
        exact absurd h (List.cons_ne_nil c start)
      | cons d text =>
        obtain ⟨rest, hrest⟩ := h
        rw [encode_cons, encode_cons, List.append_assoc] at hrest
        obtain rfl := eq_of_utf8EncodeChar_append hrest
        exact List.prefix_cons_inj c |>.mpr (ih ⟨rest, List.append_cancel_left hrest⟩)
  · rintro ⟨rest, rfl⟩
    exact ⟨encode rest, (encode_append start rest).symm⟩

/-- The bytes of a text start with a byte that can start a character. -/
theorem isUTF8FirstByte_of_prefix_encode {b : UInt8} (h : b :: bytes <+: encode text) :
    b.IsUTF8FirstByte := by
  cases text with
  | nil =>
    rw [encode_nil] at h
    exact absurd (List.prefix_nil.mp h) (List.cons_ne_nil b bytes)
  | cons c text =>
    have hbyte := UInt8.isUTF8FirstByte_getElem_zero_utf8EncodeChar (c := c)
    obtain ⟨first, rest, hfirst⟩ :=
      List.exists_cons_of_ne_nil (String.utf8EncodeChar_ne_nil (c := c))
    simp only [hfirst, List.getElem_cons_zero] at hbyte
    rw [encode_cons, hfirst, List.cons_append, List.cons_prefix_cons] at h
    exact h.1 ▸ hbyte

end Utf8

namespace Archive.Format

/-- The first bytes tell the format of an archive. -/
theorem sniff_eq (bytes : Bytes) :
    sniff bytes =
      if [0x1F, 0x8B] <+: bytes then gzip
      else if [0x42, 0x5A, 0x68] <+: bytes then bzip2
      else if [0xFD, 0x37, 0x7A, 0x58, 0x5A, 0x00] <+: bytes then xz
      else plain := by
  simp only [← List.isPrefixOf_iff_prefix]
  rw [sniff, signatures, List.find?_cons, List.find?_cons, List.find?_cons, List.find?_nil]
  dsimp only
  cases List.isPrefixOf [0x1F, 0x8B] bytes <;> cases List.isPrefixOf [0x42, 0x5A, 0x68] bytes <;>
    cases List.isPrefixOf [0xFD, 0x37, 0x7A, 0x58, 0x5A, 0x00] bytes <;> rfl

/-- **The format of a text** is told by its first letters: it is taken for a bzip2 archive if it
starts with the letters that start one, and for plain text otherwise. -/
theorem sniff_encode (text : List Char) :
    sniff (Utf8.encode text) = if "BZh".toList <+: text then bzip2 else plain := by
  have hfirst : Utf8.encode ['\x1f'] = [0x1F] := by
    rw [Utf8.encode_eq_flatMap]
    rfl
  have hletters : Utf8.encode "BZh".toList = [0x42, 0x5A, 0x68] := by
    rw [Utf8.encode_eq_flatMap]
    rfl
  have hgzip : ¬ [0x1F, 0x8B] <+: Utf8.encode text := by
    intro h
    have hstart : [0x1F] <+: Utf8.encode text := (List.prefix_append [0x1F] [0x8B]).trans h
    rw [← hfirst, Utf8.encode_prefix_encode_iff] at hstart
    obtain ⟨rest, rfl⟩ := hstart
    rw [Utf8.encode_append, hfirst] at h
    have hrest : [0x8B] <+: Utf8.encode rest := (List.prefix_append_right_inj [0x1F]).mp h
    exact absurd (Utf8.isUTF8FirstByte_of_prefix_encode hrest) (by decide)
  have hbzip2 : [0x42, 0x5A, 0x68] <+: Utf8.encode text ↔ "BZh".toList <+: text := by
    rw [← hletters, Utf8.encode_prefix_encode_iff]
  have hxz : ¬ [0xFD, 0x37, 0x7A, 0x58, 0x5A, 0x00] <+: Utf8.encode text := by
    intro h
    exact absurd (Utf8.isUTF8FirstByte_of_prefix_encode h) (by decide)
  rw [sniff_eq, if_neg hgzip, if_neg hxz]
  simp only [hbzip2]

end Archive.Format

/-! ## Reading without a guess -/

/-- Of the byte order marks that a text starts with, the first is dropped. -/
theorem Text.dropMark_eq (text : List Char) :
    dropMark text = if text.head? = some '\uFEFF' then text.tail else text := by
  fun_cases dropMark text with
  | case1 cs => rfl
  | case2 cs h =>
    rw [if_neg]
    intro hhead
    obtain ⟨rest, rfl⟩ := List.head?_eq_some_iff.mp hhead
    exact h rest rfl

namespace Codecs

theorem decode?_encode (codecs : Codecs) (text : List Char) :
    codecs.decode? (Utf8.encode text) = some (Text.dropMark text) := by
  rw [decode?, Utf8.decode?_encode]

/-- **A character set cannot be read** exactly if the bytes are no text's UTF-8 and nothing reads
the character set that is guessed. -/
theorem decode?_eq_none_iff {codecs : Codecs} :
    codecs.decode? bytes = none ↔
      (¬ ∃ text, bytes = Utf8.encode text) ∧ codecs.decoder? (codecs.guess bytes) = none := by
  rw [decode?]
  cases hdecode : Utf8.decode? bytes with
  | some text => simpa using fun hnone => absurd (Utf8.decode?_eq_some_iff.mp hdecode) (hnone text)
  | none =>
    have hbytes : ¬ ∃ text, bytes = Utf8.encode text := by
      rintro ⟨text, rfl⟩
      rw [Utf8.decode?_encode] at hdecode
      cases hdecode
    rw [Option.map_eq_none_iff]
    exact (and_iff_right hbytes).symm

/-- **No guess is made** about the bytes of a text, and one is made about all other bytes. -/
theorem forall_decode?_eq_iff :
    (∀ codecs other : Codecs, codecs.decode? bytes = other.decode? bytes) ↔
      ∃ text, bytes = Utf8.encode text := by
  constructor
  · intro h
    refine Classical.byContradiction fun hbytes => ?_
    have hnone : bare.decode? bytes = none := decode?_eq_none_iff.mpr ⟨hbytes, rfl⟩
    have hsome := (h { bare with decoder? := fun _ => some fun _ => [] } bare).trans hnone
    exact absurd (decode?_eq_none_iff.mp hsome).2 (Option.some_ne_none _)
  · rintro ⟨text, rfl⟩ codecs other
    rw [decode?_encode, decode?_encode]

end Codecs

namespace Source

/-- **The bytes of a text are read as the text**, less the byte order mark that it starts with, and
without a guess about their character set, unless the text starts like a bzip2 archive. -/
theorem readBytes_encode (codecs : Codecs) (h : ¬ "BZh".toList <+: text) (name : Path) :
    readBytes codecs (Utf8.encode text) name =
        .ok (if text.head? = some '\uFEFF' then text.tail else text) ∧
      ∀ other : Codecs,
        readBytes other (Utf8.encode text) name = readBytes codecs (Utf8.encode text) name := by
  have hread : ∀ any : Codecs,
      readBytes any (Utf8.encode text) name = .ok (Text.dropMark text) := by
    intro any
    rw [readBytes, Archive.Format.sniff_encode, if_neg h, decode]
    dsimp only [Codecs.unpack]
    rw [Codecs.decode?_encode]
  rw [← Text.dropMark_eq]
  exact ⟨hread codecs, fun other => (hread other).trans (hread codecs).symm⟩

/-- Of two byte order marks the second stays, and the letters of bzip2 behind a mark are text. -/
theorem readBytes_encode_marks :
    ¬ "BZh".toList <+: "\uFEFF\uFEFFBZh".toList ∧
      readBytes .bare (Utf8.encode "\uFEFF\uFEFFBZh".toList) "-".toList =
        .ok "\uFEFFBZh".toList := by
  have hstart : ¬ "BZh".toList <+: "\uFEFF\uFEFFBZh".toList := by decide
  exact ⟨hstart, (readBytes_encode .bare hstart "-".toList).1⟩

end Source

end Manpage
