import Manpage.Proofs.Charset.Utf8
import Mathlib.Tactic.ByContra
import Mathlib.Tactic.SplitIfs

/-!
# The order of bytes

Texts are in the same order whether their characters are compared or their bytes. The first byte of
a character grows with the number of its bytes, and characters of as many bytes have their code
points cut into digits there, the greatest first.

## Main results

* `utf8EncodeChar_append_lt`: the bytes of two characters
* `encode_lt_encode_iff`: the bytes of two texts
-/

namespace Manpage.Utf8

/-- Numbers of four digits are compared digit by digit. -/
theorem digits_lt {v w : Nat} (h : v < w) :
    v / 262144 < w / 262144 ∨ v / 262144 = w / 262144 ∧
      (v / 4096 % 64 < w / 4096 % 64 ∨ v / 4096 % 64 = w / 4096 % 64 ∧
        (v / 64 % 64 < w / 64 % 64 ∨ v / 64 % 64 = w / 64 % 64 ∧ v % 64 < w % 64)) := by
  have hv : v / 262144 = v / 4096 / 64 := by omega
  have hw : w / 262144 = w / 4096 / 64 := by omega
  have hv' : v / 4096 = v / 64 / 64 := by omega
  have hw' : w / 4096 = w / 64 / 64 := by omega
  rw [hv, hw, hv', hw']
  generalize hv₁ : v / 64 = v₁
  generalize hw₁ : w / 64 = w₁
  generalize hv₂ : v₁ / 64 = v₂
  generalize hw₂ : w₁ / 64 = w₂
  omega

/-- **The bytes of two characters** are in the order of the characters, whatever follows them. -/
theorem utf8EncodeChar_append_lt {c d : Char} (h : c < d) (rest more : Bytes) :
    String.utf8EncodeChar c ++ rest < String.utf8EncodeChar d ++ more := by
  have hlt : c.val.toNat < d.val.toNat := UInt32.lt_iff_toNat_lt.mp (Char.lt_def.mp h)
  have hmax : d.val.toNat < 1114112 := by
    have hvalid := d.valid
    simp only [UInt32.isValidChar, Nat.isValidChar] at hvalid
    omega
  rw [String.utf8EncodeChar.eq_1, String.utf8EncodeChar.eq_1]
  generalize c.val.toNat = v at hlt
  generalize d.val.toNat = w at hlt hmax
  have hdigits := digits_lt hlt
  have hv : v / 262144 % 8 = v / 262144 := Nat.mod_eq_of_lt (by omega)
  have hw : w / 262144 % 8 = w / 262144 := Nat.mod_eq_of_lt (by omega)
  have hbyte : ∀ n < 256, (UInt8.ofNat n).toNat = n := fun n hn => by
    rw [UInt8.toNat_ofNat', Nat.mod_eq_of_lt hn]
  -- the cases are the numbers of bytes of the two characters
  split_ifs <;>
    simp (disch := omega) only [List.cons_append, List.nil_append, List.cons_lt_cons_iff,
      UInt8.lt_iff_toNat_lt, ← UInt8.toNat_inj, hbyte, hv, hw] <;>
    omega

theorem encode_lt_encode {a b : List Char} (h : a < b) : encode a < encode b := by
  induction a generalizing b with
  | nil =>
    cases b with
    | nil => exact absurd h (List.lt_irrefl [])
    | cons d b =>
      obtain ⟨byte, bytes, hbytes⟩ :=
        List.exists_cons_of_ne_nil fun hnil => List.cons_ne_nil d b (encode_eq_nil_iff.mp hnil)
      rw [encode_nil, hbytes]
      exact List.nil_lt_cons byte bytes
  | cons c a ih =>
    cases b with
    | nil => exact absurd h (List.not_lt_nil _)
    | cons d b =>
      rw [encode_cons, encode_cons]
      rcases List.cons_lt_cons_iff.mp h with hlt | ⟨rfl, hlt⟩
      · exact utf8EncodeChar_append_lt hlt _ _
      · exact List.append_left_lt (ih hlt)

/-- **The bytes of two texts** are in the order of the texts. -/
theorem encode_lt_encode_iff {a b : List Char} : encode a < encode b ↔ a < b := by
  refine ⟨fun h => ?_, encode_lt_encode⟩
  by_contra hnot
  rcases List.le_iff_lt_or_eq.mp (List.not_lt.mp hnot) with hlt | rfl
  · exact List.lt_asymm h (encode_lt_encode hlt)
  · exact List.lt_irrefl _ h

end Manpage.Utf8
