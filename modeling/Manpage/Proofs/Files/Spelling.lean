import Manpage.Proofs.Charset.Utf8
import Manpage.Proofs.Files.OutputName

/-!
# Names and their bytes

A file system keeps the bytes of a name, whatever they encode. For the name of a page's output it
makes no difference if a path is read by its characters or by its bytes: all that counts in it is
ASCII, and in UTF-8 such a character is its byte, which is part of no other character. So what is
known of paths of characters holds of paths of bytes, with each byte as a character of its own, also
where they are no UTF-8.

## Main definitions

* `Path.IsSpelling`: spellings of characters that leave ASCII as it is
* `Path.ofBytes`: a path of bytes

## Main results

* `Path.fileName?_flatMap`: the name of a file, spelled
* `Source.outputName?_flatMap`, `Source.outputName?_ofBytes`: the name of a page's output, spelled
-/

namespace Manpage

namespace Path

/-- **Spellings of characters** that leave ASCII as it is and use none of it for other
characters. -/
structure IsSpelling (spell : Char → List Char) : Prop where
  ascii : ∀ c, c.toNat < 128 → spell c = [c]
  ne_nil : ∀ c, spell c ≠ []
  other : ∀ c, 128 ≤ c.toNat → ∀ d ∈ spell c, 128 ≤ d.toNat

/-- Texts of ASCII. -/
def IsAscii (text : List Char) : Prop :=
  ∀ c ∈ text, c.toNat < 128

instance : DecidablePred IsAscii := fun text =>
  decidable_of_iff (text.all fun c => c.toNat < 128) (by simp [IsAscii])

/-- A path of bytes: each of them counts as a character. -/
def ofBytes (bytes : Bytes) : Path :=
  bytes.map Char.ofUInt8

namespace IsSpelling

variable {spell : Char → List Char} {text front back : List Char} {c : Char}

theorem eq_nil_iff (h : IsSpelling spell) : text.flatMap spell = [] ↔ text = [] := by
  cases text with
  | nil => simp
  | cons c text => simp [h.ne_nil c]

/-- A character of ASCII stands in a spelled text if it stands in the text. -/
theorem mem_iff (h : IsSpelling spell) (hc : c.toNat < 128) :
    c ∈ text.flatMap spell ↔ c ∈ text := by
  rw [List.mem_flatMap]
  constructor
  · rintro ⟨d, hd, hcd⟩
    by_cases hascii : d.toNat < 128
    · rw [h.ascii d hascii, List.mem_singleton] at hcd
      exact hcd ▸ hd
    · exact absurd hc (Nat.not_lt.mpr (h.other d (Nat.not_lt.mp hascii) c hcd))
  · intro hmem
    exact ⟨c, hmem, by rw [h.ascii c hc]; exact List.mem_singleton_self c⟩

theorem flatMap_of_isAscii (h : IsSpelling spell) (hascii : IsAscii text) :
    text.flatMap spell = text := by
  induction text with
  | nil => rfl
  | cons c text ih =>
    obtain ⟨hc, htext⟩ := List.forall_mem_cons.mp hascii
    rw [List.flatMap_cons, h.ascii c hc, ih htext, List.singleton_append]

/-- ASCII at the end of a spelled text stands at the end of the text. -/
theorem exists_of_flatMap_eq_append (h : IsSpelling spell) (hback : IsAscii back)
    (heq : text.flatMap spell = front ++ back) :
    ∃ base, text = base ++ back ∧ base.flatMap spell = front := by
  induction back using List.reverseRecOn generalizing text with
  | nil => exact ⟨text, (List.append_nil text).symm, heq.trans (List.append_nil front)⟩
  | append_singleton back d ih =>
    obtain ⟨hinit, hd⟩ := List.forall_mem_append.mp hback
    have hd : d.toNat < 128 := hd d (List.mem_singleton_self d)
    cases text using List.reverseRecOn with
    | nil => simp at heq
    | append_singleton text c =>
      rw [List.flatMap_append, List.flatMap_singleton, ← List.append_assoc] at heq
      have hmem : d ∈ spell c := by
        have hlast := congrArg List.getLast? heq
        rw [List.getLast?_append_of_ne_nil _ (h.ne_nil c), List.getLast?_concat] at hlast
        exact List.mem_of_getLast? hlast
      have hc : c.toNat < 128 := Nat.lt_of_not_le fun hother =>
        absurd hd (Nat.not_lt.mpr (h.other c hother d hmem))
      rw [h.ascii c hc] at heq hmem
      obtain rfl := List.mem_singleton.mp hmem
      obtain ⟨base, rfl, hbase⟩ := ih hinit (List.append_cancel_right heq)
      exact ⟨base, List.append_assoc base back [d], hbase⟩

/-- Only ASCII itself is spelled as ASCII. -/
theorem flatMap_eq_iff (h : IsSpelling spell) (hback : IsAscii back) :
    text.flatMap spell = back ↔ text = back := by
  constructor
  · intro heq
    rw [← List.nil_append back] at heq
    obtain ⟨base, rfl, hbase⟩ := h.exists_of_flatMap_eq_append hback heq
    rw [h.eq_nil_iff.mp hbase, List.nil_append]
  · rintro rfl
    exact h.flatMap_of_isAscii hback

end IsSpelling

/-! ## Names of files -/

variable {spell : Char → List Char}

theorem isHere_flatMap (h : IsSpelling spell) (component : List Char) :
    isHere (component.flatMap spell) = isHere component := by
  have hperiod : component.flatMap spell = ['.'] ↔ component = ['.'] :=
    h.flatMap_eq_iff (by decide)
  rw [Bool.eq_iff_iff, isHere, isHere, Bool.or_eq_true, Bool.or_eq_true, beq_iff_eq, beq_iff_eq,
    beq_iff_eq, beq_iff_eq, h.eq_nil_iff, hperiod]

theorem isAbove_flatMap (h : IsSpelling spell) (component : List Char) :
    isAbove (component.flatMap spell) = isAbove component := by
  have hperiods : component.flatMap spell = ['.', '.'] ↔ component = ['.', '.'] :=
    h.flatMap_eq_iff (by decide)
  rw [Bool.eq_iff_iff, isAbove, isAbove, beq_iff_eq, beq_iff_eq, hperiods]

/-- A spelled path has the spelled components. -/
theorem components_flatMap (h : IsSpelling spell) (path : Path) :
    components (path.flatMap spell) = (components path).map (List.flatMap spell) := by
  have hslash : ∀ piece : List Char, '/' ∉ piece → '/' ∉ piece.flatMap spell := by
    intro piece
    exact mt (h.mem_iff (by decide)).mp
  rw [components, components]
  induction path using Text.pieces_induction '/' with
  | last piece hpiece =>
    rw [Text.pieces_of_notMem hpiece, Text.pieces_of_notMem (hslash piece hpiece)]
    rfl
  | cons piece rest hpiece ih =>
    rw [List.flatMap_append, List.flatMap_cons, h.ascii '/' (by decide), List.singleton_append,
      Text.pieces_append_sep (hslash piece hpiece), Text.pieces_append_sep hpiece, ih,
      List.map_cons]

/-- **The name of a file, spelled**, is that of its spelled path. -/
theorem fileName?_flatMap (h : IsSpelling spell) (path : Path) :
    fileName? (path.flatMap spell) = (fileName? path).map (List.flatMap spell) := by
  have hhere : ((!isHere ·) ∘ List.flatMap spell) = (!isHere ·) := by
    funext component
    exact congrArg not (isHere_flatMap h component)
  have habove : ((!isAbove ·) ∘ List.flatMap spell) = (!isAbove ·) := by
    funext component
    exact congrArg not (isAbove_flatMap h component)
  rw [fileName?, fileName?, components_flatMap h, ← List.map_reverse, List.find?_map, hhere,
    Option.filter_map, habove]

/-! ## Bytes -/

theorem toNat_ofUInt8 (b : UInt8) : (Char.ofUInt8 b).toNat = b.toNat :=
  UInt8.toNat_toUInt32 b

/-- **The bytes of characters** in UTF-8 are a spelling. -/
theorem isSpelling_utf8EncodeChar : IsSpelling fun c => ofBytes (String.utf8EncodeChar c) where
  ascii c hc := by
    have hcode : Char.ofUInt8 (UInt8.ofNat c.toNat) = c := by
      rw [← Char.toNat_inj, toNat_ofUInt8, UInt8.toNat_ofNat', Nat.mod_eq_of_lt (by omega)]
    rw [Utf8.utf8EncodeChar_of_lt hc, ofBytes, List.map_singleton, hcode]
  ne_nil c := by
    rw [ofBytes, Ne, List.map_eq_nil_iff]
    exact String.utf8EncodeChar_ne_nil
  other c hc d hd := by
    obtain ⟨b, hb, rfl⟩ := List.mem_map.mp hd
    rw [toNat_ofUInt8]
    exact Utf8.le_of_mem_utf8EncodeChar hc b hb

theorem ofBytes_encode (text : List Char) :
    ofBytes (Utf8.encode text) = text.flatMap fun c => ofBytes (String.utf8EncodeChar c) := by
  rw [Utf8.encode_eq_flatMap, ofBytes, List.map_flatMap]
  rfl

end Path

namespace Source

variable {spell : Char → List Char}

/-- **The name of a page's output, spelled**, is that for the page's spelled path. -/
theorem outputName?_flatMap (h : Path.IsSpelling spell) (path : Path) :
    outputName? (path.flatMap spell) = (outputName? path).map (List.flatMap spell) := by
  have hhtml : ∀ name : List Char, name.flatMap spell ++ ".html".toList =
      (name ++ ".html".toList).flatMap spell := by
    intro name
    have hascii : Path.IsAscii ".html".toList := by decide
    rw [List.flatMap_append, h.flatMap_of_isAscii hascii]
  have hascii : ∀ ending ∈ archiveEndings, Path.IsAscii ('.' :: ending) := by decide
  have hspelled := Path.fileName?_flatMap h path
  cases hname : path.fileName? with
  | none =>
    rw [hname] at hspelled
    rw [outputName?, outputName?, hname, hspelled]
    rfl
  | some name =>
    rw [hname, Option.map_some] at hspelled
    by_cases harchive : ∃ base ending, base ≠ [] ∧ ending ∈ archiveEndings ∧
      name = base ++ '.' :: ending
    · obtain ⟨base, ending, hbase, hending, rfl⟩ := harchive
      rw [List.flatMap_append, h.flatMap_of_isAscii (hascii ending hending)] at hspelled
      rw [outputName?_archive hname hbase hending,
        outputName?_archive hspelled (mt h.eq_nil_iff.mp hbase) hending, hhtml]
      rfl
    · have hplain : ∀ base ending, base ≠ [] → ending ∈ archiveEndings →
          name ≠ base ++ '.' :: ending := by
        intro base ending hbase hending heq
        exact harchive ⟨base, ending, hbase, hending, heq⟩
      rw [outputName?_plain hname hplain, outputName?_plain hspelled, hhtml]
      · rfl
      · intro base ending hbase hending heq
        obtain ⟨base, hbase', rfl⟩ := h.exists_of_flatMap_eq_append (hascii ending hending) heq
        exact hplain base ending (mt h.eq_nil_iff.mpr hbase) hending hbase'

/-- The name of a page's output has the bytes that it has by the bytes of the path. -/
theorem outputName?_ofBytes (path : Path) :
    outputName? (Path.ofBytes (Utf8.encode path)) =
      (outputName? path).map fun name => Path.ofBytes (Utf8.encode name) := by
  simp only [Path.ofBytes_encode]
  exact outputName?_flatMap Path.isSpelling_utf8EncodeChar path

end Source

end Manpage
