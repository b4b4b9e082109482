import Mathlib.Data.List.Basic
import Mathlib.Data.String.Basic
import TimeTrials.Proofs.Text.ValidBytes

/-!
# Texts compare as their bytes do

Names are compared by code points, and outside the program a name is its bytes.  That the two orders are
one is a property of the format: a leading byte grows with the number of bytes it asks for, and behind
equal leading bytes the payload bits come in order, the highest first.

* `utf8EncodeChar_lt`: the bytes of two characters are told apart within the characters, whatever
  follows them.
* `encode_lt_encode_iff`: so the same holds of texts.
-/

namespace TimeTrials.Text.Utf8

/-- The first byte that differs decides. -/
theorem cons_ofNat_lt_cons_ofNat {n m : Nat} (hn : n < 256) (hm : m < 256) {r s : Bytes} :
    UInt8.ofNat n :: r < UInt8.ofNat m :: s ↔ n < m ∨ n = m ∧ r < s := by
  rw [List.cons_lt_cons_iff, UInt8.lt_iff_toNat_lt, ← UInt8.toNat_inj, toNat_ofNat_of_lt hn,
    toNat_ofNat_of_lt hm]

/-- A smaller character has smaller bytes, and the bytes after it do not matter. -/
theorem utf8EncodeChar_lt {c d : Char} (h : c < d) (r s : Bytes) :
    String.utf8EncodeChar c ++ r < String.utf8EncodeChar d ++ s := by
  have hlt : c.val.toNat < d.val.toNat := h
  have hd : d.val.toNat < 0x110000 := by
    have := d.valid
    simp only [UInt32.isValidChar, Nat.isValidChar] at this
    omega
  rw [String.utf8EncodeChar, String.utf8EncodeChar]
  generalize c.val.toNat = v at hlt
  generalize d.val.toNat = w at hlt hd
  -- Six bits at a time, so that the quotients of one character are quotients of each other.
  have hdigits (n : Nat) : n / 4096 = n / 64 / 64 ∧ n / 262144 = n / 64 / 64 / 64 := by omega
  rw [(hdigits v).1, (hdigits v).2, (hdigits w).1, (hdigits w).2]
  split_ifs <;>
  · simp only [List.cons_append, List.nil_append]
    simp (disch := omega) only [cons_ofNat_lt_cons_ofNat]
    omega

theorem flatMap_utf8EncodeChar_lt {cs ds : List Char} (h : cs < ds) :
    cs.flatMap String.utf8EncodeChar < ds.flatMap String.utf8EncodeChar := by
  induction h with
  | @nil d ds =>
    obtain ⟨b, rest, hb⟩ := List.exists_cons_of_ne_nil (String.utf8EncodeChar_ne_nil (c := d))
    rw [List.flatMap_nil, List.flatMap_cons, hb, List.cons_append]
    exact List.nil_lt_cons b _
  | @rel c cs d ds hlt =>
    rw [List.flatMap_cons, List.flatMap_cons]
    exact utf8EncodeChar_lt hlt _ _
  | @cons c cs ds hlt ih =>
    rw [List.flatMap_cons, List.flatMap_cons]
    exact List.append_left_lt ih

/-- **Bytes keep the order of texts**, and so do texts that of their bytes. -/
theorem encode_lt_encode_iff {a b : String} : encode a < encode b ↔ a < b := by
  have hmono {a b : String} (h : a < b) : encode a < encode b :=
    flatMap_utf8EncodeChar_lt (String.lt_iff_toList_lt.mp h)
  refine ⟨fun h => ?_, hmono⟩
  rcases lt_trichotomy a b with hlt | rfl | hgt
  · exact hlt
  · exact absurd h (List.lt_irrefl _)
  · exact absurd h (List.lt_asymm (hmono hgt))

end TimeTrials.Text.Utf8
