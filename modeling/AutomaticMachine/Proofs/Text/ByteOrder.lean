/-
The order of texts is the order of their bytes.

Texts are compared character by character, but they are kept as bytes, and a
character takes from one to four of them.  A larger character begins with a
larger byte, or else with the same bytes and then a larger one
(`utf8EncodeChar_append_lt`), so a list of texts that increases also increases
byte by byte (`bytes_lt_bytes_iff`).
-/
import Mathlib.Tactic.SplitIfs

namespace AutomaticMachine

namespace Text

/-- The bytes of a text. -/
def bytes (x : String) : List UInt8 := x.toUTF8.data.toList

theorem bytes_eq (x : String) : bytes x = x.toList.flatMap String.utf8EncodeChar := by
  have hencoded : x.toUTF8 = x.toList.utf8Encode := by
    rw [← String.toByteArray_ofList, String.ofList_toList]
    rfl
  rw [bytes, hencoded, List.utf8Encode]
  simp

theorem toNat_lt (c : Char) : c.val.toNat < 0x110000 := by
  rcases c.valid with h | ⟨-, h⟩
  · omega
  · exact h

/-- Of two numbers the smaller one has the smaller digit where they first differ, in base 64. -/
theorem digits_lt {m n : Nat} (h : m < n) :
    m / 262144 < n / 262144 ∨ m / 262144 = n / 262144 ∧
      (m / 4096 % 64 < n / 4096 % 64 ∨ m / 4096 % 64 = n / 4096 % 64 ∧
        (m / 64 % 64 < n / 64 % 64 ∨ m / 64 % 64 = n / 64 % 64 ∧ m % 64 < n % 64)) := by
  have hdigits : ∀ k, k = (k / 262144 * 64 + k / 4096 % 64) * 4096 + k / 64 % 64 * 64 + k % 64 := by
    intro k
    omega
  have hm := hdigits m
  have hn := hdigits n
  omega

theorem ofNat_cons_lt_iff {m n : Nat} (hm : m < 256) (hn : n < 256) {l l' : List UInt8} :
    UInt8.ofNat m :: l < UInt8.ofNat n :: l' ↔ m < n ∨ m = n ∧ l < l' := by
  have heq : UInt8.ofNat m = UInt8.ofNat n ↔ m = n := by
    rw [← UInt8.toNat_inj, UInt8.toNat_ofNat_of_lt' hm, UInt8.toNat_ofNat_of_lt' hn]
  rw [List.cons_lt_cons_iff, UInt8.ofNat_lt_iff_lt hm hn, heq]

/-- The bytes of a larger character are larger, whatever follows. -/
theorem utf8EncodeChar_append_lt {c d : Char} (h : c < d) (l l' : List UInt8) :
    String.utf8EncodeChar c ++ l < String.utf8EncodeChar d ++ l' := by
  have hlt : c.val.toNat < d.val.toNat := h
  have hd := toNat_lt d
  have hc := toNat_lt c
  have hdigits := digits_lt hlt
  -- The first of four bytes has room for the whole leading digit.
  have hlead : ∀ k, k < 0x110000 → k / 262144 % 8 = k / 262144 := by
    intro k hk
    omega
  simp only [String.utf8EncodeChar, hlead _ hc, hlead _ hd]
  split_ifs <;>
    simp (disch := omega) only [List.cons_append, List.nil_append, ofNat_cons_lt_iff] <;>
    omega

theorem flatMap_utf8EncodeChar_lt {l l' : List Char} (h : List.Lex (· < ·) l l') :
    l.flatMap String.utf8EncodeChar < l'.flatMap String.utf8EncodeChar := by
  induction h with
  | @nil c l =>
    obtain ⟨b, r, hb⟩ := List.exists_cons_of_ne_nil (String.utf8EncodeChar_ne_nil (c := c))
    rw [List.flatMap_cons, hb]
    exact List.nil_lt_cons _ _
  | cons _ ih =>
    rw [List.flatMap_cons, List.flatMap_cons]
    exact List.append_left_lt ih
  | rel hlt =>
    rw [List.flatMap_cons, List.flatMap_cons]
    exact utf8EncodeChar_append_lt hlt _ _

theorem bytes_lt_bytes {x y : String} (h : x < y) : bytes x < bytes y := by
  rw [bytes_eq, bytes_eq]
  exact flatMap_utf8EncodeChar_lt h

/-- The smaller text is the one with the smaller bytes. -/
theorem bytes_lt_bytes_iff {x y : String} : bytes x < bytes y ↔ x < y := by
  constructor
  · intro h
    refine Decidable.byContradiction ?_
    intro hxy
    by_cases hyx : y < x
    · exact List.lt_asymm h (bytes_lt_bytes hyx)
    · obtain rfl := String.le_antisymm (String.not_lt.mp hyx) (String.not_lt.mp hxy)
      exact List.lt_irrefl _ h
  · exact bytes_lt_bytes

end Text

end AutomaticMachine
