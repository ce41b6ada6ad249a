import Manpage.Charset.Utf8
import Manpage.Proofs.Text.Lines

/-!
# UTF-8 and lines

What bytes encode is told by their encodings: bytes are decoded to the text that encodes to them.
The byte of a line feed is part of no other character, so a text and its bytes are cut into lines at
the same places, and bytes encode a text exactly if each of their lines does.

## Main results

* `decode?_eq_some_iff`: what bytes are decoded to
* `lines_encode`: the lines of the bytes of a text
* `exists_encode_of_forall_lines`: bytes whose lines are all read encode a text
-/

namespace Manpage.Utf8

/-! ## Bytes and texts -/

theorem toList_loop (bytes : ByteArray) (i : Nat) (read : List UInt8) :
    ByteArray.toList.loop bytes i read = read.reverse ++ bytes.data.toList.drop i := by
  fun_induction ByteArray.toList.loop bytes i read with
  | case1 i read h ih =>
    have hi : i < bytes.data.toList.length := by simpa using h
    rw [ih, List.drop_eq_getElem_cons hi]
    simp [ByteArray.get!, h]
  | case2 i read h =>
    rw [List.drop_eq_nil_of_le (by simpa using Nat.le_of_not_lt h), List.append_nil]

theorem toList_toByteArray (bytes : Bytes) : bytes.toByteArray.toList = bytes := by
  rw [ByteArray.toList, toList_loop, List.toList_data_toByteArray]
  rfl

/-- The bytes of a text are those of its characters. -/
theorem encode_eq_flatMap (text : List Char) :
    encode text = text.flatMap String.utf8EncodeChar := by
  rw [encode, String.toUTF8_eq_toByteArray, String.toByteArray_ofList, List.utf8Encode,
    toList_toByteArray]

@[simp] theorem encode_nil : encode [] = [] :=
  encode_eq_flatMap []

theorem encode_cons (c : Char) (text : List Char) :
    encode (c :: text) = String.utf8EncodeChar c ++ encode text := by
  rw [encode_eq_flatMap, encode_eq_flatMap, List.flatMap_cons]

theorem encode_append (text more : List Char) :
    encode (text ++ more) = encode text ++ encode more := by
  rw [encode_eq_flatMap, encode_eq_flatMap, encode_eq_flatMap, List.flatMap_append]

theorem toByteArray_encode (text : List Char) : (encode text).toByteArray = text.utf8Encode := by
  rw [encode_eq_flatMap, List.utf8Encode]

theorem decode?_encode (text : List Char) : decode? (encode text) = some text := by
  have hvalid : (encode text).toByteArray.IsValidUTF8 := ⟨text, toByteArray_encode text⟩
  have hstring : String.fromUTF8 (encode text).toByteArray hvalid = String.ofList text :=
    String.toByteArray_inj.mp ((toByteArray_encode text).trans String.toByteArray_ofList.symm)
  rw [decode?, String.fromUTF8?, dif_pos hvalid, Option.map_some, hstring, String.toList_ofList]

/-- **What bytes are decoded to** is the text that encodes to them. -/
theorem decode?_eq_some_iff {bytes : Bytes} {text : List Char} :
    decode? bytes = some text ↔ bytes = encode text := by
  constructor
  · intro h
    rw [decode?, Option.map_eq_some_iff] at h
    obtain ⟨s, hs, rfl⟩ := h
    rw [String.fromUTF8?] at hs
    split at hs
    · next hvalid =>
      obtain rfl := Option.some.inj hs
      refine (List.toByteArray_inj.mp ?_).symm
      rw [toByteArray_encode, String.utf8Encode_toList]
      rfl
    · exact absurd hs (Option.some_ne_none _).symm
  · rintro rfl
    exact decode?_encode text

/-! ## Bytes of ASCII -/

theorem encode_eq_nil_iff {text : List Char} : encode text = [] ↔ text = [] := by
  cases text with
  | nil => simp
  | cons c text => simp [encode_cons, String.utf8EncodeChar_ne_nil]

/-- A character of ASCII is encoded as its own byte. -/
theorem utf8EncodeChar_of_lt {c : Char} (hc : c.toNat < 128) :
    String.utf8EncodeChar c = [UInt8.ofNat c.toNat] := by
  have hcode : c.val.toNat ≤ 127 := Nat.le_of_lt_succ hc
  rw [String.utf8EncodeChar.eq_1, if_pos hcode]
  rfl

/-- No other character has a byte of ASCII. -/
theorem le_of_mem_utf8EncodeChar {c : Char} (hc : 128 ≤ c.toNat) :
    ∀ b ∈ String.utf8EncodeChar c, 128 ≤ b.toNat := by
  have hcode : ¬ c.val.toNat ≤ 127 := Nat.not_le.mpr hc
  rw [String.utf8EncodeChar.eq_1, if_neg hcode]
  split_ifs
  all_goals
    simp only [List.forall_mem_cons, List.not_mem_nil, false_imp_iff, implies_true, and_true,
      UInt8.toNat_ofNat']
    omega

/-- **The byte of a line feed** is part of no other character. -/
theorem newline_mem_utf8EncodeChar_iff {c : Char} : 10 ∈ String.utf8EncodeChar c ↔ c = '\n' := by
  constructor
  · intro h
    have hc : c.toNat < 128 := Nat.lt_of_not_le fun hother =>
      absurd (le_of_mem_utf8EncodeChar hother 10 h) (by decide)
    rw [utf8EncodeChar_of_lt hc, List.mem_singleton] at h
    have hcode := congrArg UInt8.toNat h
    rw [UInt8.toNat_ofNat', Nat.mod_eq_of_lt (by omega)] at hcode
    exact Char.toNat_inj.mp hcode.symm
  · rintro rfl
    decide

/-! ## Lines -/

/-- **A text and its bytes** are cut at the same line feeds. -/
theorem pieces_encode (text : List Char) :
    Text.pieces (· == 10) (encode text) = (Text.pieces (· == '\n') text).map encode := by
  induction text with
  | nil => simp [Text.pieces]
  | cons c text ih =>
    rw [encode_cons, Text.pieces]
    by_cases hc : c = '\n'
    · subst hc
      have hbyte : String.utf8EncodeChar '\n' = [10] := rfl
      rw [hbyte, List.singleton_append, Text.pieces, ih, if_pos (beq_self_eq_true _),
        if_pos (beq_self_eq_true _), List.map_cons, encode_nil]
    · have hbytes : ∀ b ∈ String.utf8EncodeChar c, (b == 10) = false := by
        intro b hb
        rw [beq_eq_false_iff_ne]
        rintro rfl
        exact hc (newline_mem_utf8EncodeChar_iff.mp hb)
      obtain ⟨piece, rest, hpieces⟩ :=
        List.exists_cons_of_ne_nil (Text.pieces_ne_nil (· == '\n') text)
      rw [Text.pieces_append hbytes, ih, if_neg (by simpa using hc), hpieces, List.map_cons,
        List.modifyHead_cons, List.map_cons, encode_cons]

theorem linesOfPieces_encode (ps : List (List Char)) :
    linesOfPieces (ps.map encode) = (Text.linesOfPieces ps).map .ok := by
  have hline : ∀ cs, line (encode cs) = .ok cs := fun cs => by rw [line, decode?_encode]
  fun_induction Text.linesOfPieces ps with
  | case1 => rfl
  | case2 => simp [linesOfPieces]
  | case3 last hlast =>
    rw [List.map_singleton, linesOfPieces, if_neg (mt encode_eq_nil_iff.mp hlast), hline]
    rfl
  | case4 piece rest hrest ih =>
    obtain ⟨next, more, rfl⟩ := List.exists_cons_of_ne_nil hrest
    rw [List.map_cons, List.map_cons, linesOfPieces, hline, ← List.map_cons, ih]
    · rfl
    · simp

/-- **The lines of the bytes of a text** are its lines. -/
theorem lines_encode (text : List Char) : lines (encode text) = (Text.lines text).map .ok := by
  rw [lines, pieces_encode, linesOfPieces_encode, Text.lines]

/-- Texts with line feeds between them are encoded one by one. -/
theorem encode_intercalate (texts : List (List Char)) :
    encode (['\n'].intercalate texts) = [(10 : UInt8)].intercalate (texts.map encode) := by
  have hnewline : encode ['\n'] = [10] := by
    rw [encode_cons, encode_nil]
    rfl
  induction texts with
  | nil => simp
  | cons text texts ih =>
    cases texts with
    | nil => rw [List.map_singleton, List.intercalate_singleton, List.intercalate_singleton]
    | cons next texts =>
      rw [List.intercalate_cons_cons, encode_append, encode_append, ih, hnewline,
        List.map_cons, List.map_cons, List.map_cons, List.intercalate_cons_cons]

/-- The pieces of bytes whose lines are all read encode texts. -/
theorem exists_map_encode {ps : List Bytes} (h : ∀ e, .error e ∉ linesOfPieces ps) :
    ∃ texts : List (List Char), ps = texts.map encode := by
  have hline : ∀ {b : Bytes}, (∀ e, line b ≠ .error e) → ∃ cs, b = encode cs := by
    intro b hb
    cases hdecode : decode? b with
    | some cs => exact ⟨cs, decode?_eq_some_iff.mp hdecode⟩
    | none => exact absurd (by rw [line, hdecode]) (hb .notUtf8)
  fun_induction linesOfPieces ps with
  | case1 => exact ⟨[], rfl⟩
  | case2 => exact ⟨[[]], by simp⟩
  | case3 last hlast =>
    obtain ⟨cs, rfl⟩ := hline fun e he => h e (he ▸ List.mem_singleton_self _)
    exact ⟨[cs], rfl⟩
  | case4 piece rest hrest ih =>
    obtain ⟨cs, rfl⟩ := hline fun e he => h e (List.mem_cons.mpr (Or.inl (by rw [he]; rfl)))
    obtain ⟨texts, rfl⟩ := ih fun e he => h e (List.mem_cons_of_mem _ he)
    exact ⟨cs :: texts, rfl⟩

/-- **Bytes whose lines are all read** encode a text. -/
theorem exists_encode_of_forall_lines {bytes : Bytes} (h : ∀ e, .error e ∉ lines bytes) :
    ∃ text, bytes = encode text := by
  obtain ⟨texts, htexts⟩ := exists_map_encode h
  refine ⟨['\n'].intercalate texts, ?_⟩
  rw [encode_intercalate, ← htexts, Text.pieces_eq_splitOnP, ← List.splitOn_eq_splitOnP,
    List.intercalate_splitOn]

end Manpage.Utf8
