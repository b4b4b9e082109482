import Mathlib.Data.List.TakeWhile
import Mathlib.Tactic.SplitIfs
import TimeTrials.Text.Utf8

/-!
# Encoded text reads back

A text is written as bytes by the core function on characters and read by the chunks of
`Text.Utf8`, and the two have nothing in common but the format.  This file joins them.

* `chunk_utf8EncodeChar`: whatever follows, the bytes of a character are one chunk, and the chunk is
  that character.  There is one case for each number of bytes.  The range of scalar values excludes
  surrogates, and that is what keeps the byte after `0xed` below `0xa0`.
* `chunks_encode`: the chunks of encoded text are its characters.
* `firstInvalid?_encode`, `decodeLossy_encode`: encoded text is valid, and it reads back.
-/

namespace TimeTrials.Text.Utf8

/-! ## Bytes by their values -/

theorem toNat_ofNat_of_lt {n : Nat} (h : n < 256) : (UInt8.ofNat n).toNat = n :=
  UInt8.toNat_ofNat_of_lt' h

/-- A byte that carries six payload bits continues a character. -/
theorem isTail_ofNat {n : Nat} (h : n < 64) : isTail (UInt8.ofNat (n + 0x80)) = true := by
  have hb : (UInt8.ofNat (n + 0x80)).toNat = n + 0x80 := toNat_ofNat_of_lt (by omega)
  rw [isTail, Bool.and_eq_true, decide_eq_true_eq, decide_eq_true_eq, UInt8.le_iff_toNat_le,
    UInt8.le_iff_toNat_le, hb]
  exact ⟨Nat.le_add_left _ _, Nat.add_le_add_right (Nat.le_of_lt_succ h) _⟩

theorem payload_ofNat {n : Nat} (h : n < 64) : payload (UInt8.ofNat (n + 0x80)) = n := by
  rw [payload, toNat_ofNat_of_lt (by omega)]
  omega

theorem lead?_two : ∀ n : Fin 0x20, 2 ≤ n.val →
    lead? (UInt8.ofNat (n + 0xc0)) = some ⟨1, 0x80, 0xbf⟩ := by
  decide

theorem lead?_three : ∀ n : Fin 0x10, lead? (UInt8.ofNat (n + 0xe0)) =
    some ⟨2, if n.val = 0 then 0xa0 else 0x80, if n.val = 0xd then 0x9f else 0xbf⟩ := by
  decide

theorem lead?_four : ∀ n : Fin 5, lead? (UInt8.ofNat (n + 0xf0)) =
    some ⟨3, if n.val = 0 then 0x90 else 0x80, if n.val = 4 then 0x8f else 0xbf⟩ := by
  decide

/-! ## One character -/

/-- A chunk of more than one byte, once its lead is known. -/
theorem chunk_of_lead? {n m tails : Nat} {low high : UInt8} (rest : Bytes)
    (hn : 0x80 ≤ n ∧ n < 256) (hl : lead? (UInt8.ofNat n) = some ⟨tails + 1, low, high⟩)
    (hm : m < 64) (hb : low.toNat ≤ m + 0x80 ∧ m + 0x80 ≤ high.toNat) :
    chunk (UInt8.ofNat n) (UInt8.ofNat (m + 0x80) :: rest) =
      readTails tails 2 (n % Nat.pow 2 (5 - tails) * 64 + m) rest := by
  have hn' : ¬ UInt8.ofNat n < 0x80 := by
    rw [UInt8.lt_iff_toNat_lt, toNat_ofNat_of_lt hn.2]
    exact Nat.not_lt.mpr hn.1
  have hb' : low ≤ UInt8.ofNat (m + 0x80) ∧ UInt8.ofNat (m + 0x80) ≤ high := by
    rw [UInt8.le_iff_toNat_le, UInt8.le_iff_toNat_le, toNat_ofNat_of_lt (by omega)]
    exact hb
  unfold chunk
  rw [if_neg hn', hl]
  simp only [hb', decide_true, Bool.and_self, if_true, payload_ofNat hm, leadBits,
    toNat_ofNat_of_lt hn.2, Nat.add_sub_cancel, Nat.reduceSubDiff]

theorem readTails_succ {n : Nat} (h : n < 64) (tails size bits : Nat) (rest : Bytes) :
    readTails (tails + 1) size bits (UInt8.ofNat (n + 0x80) :: rest) =
      readTails tails (size + 1) (bits * 64 + n) rest := by
  rw [readTails, if_pos (isTail_ofNat h), payload_ofNat h]

/-- The bytes of a character are a chunk that is this character. -/
theorem chunk_utf8EncodeChar (c : Char) (rest : Bytes) :
    ∃ b tail, String.utf8EncodeChar c = b :: tail ∧
      chunk b (tail ++ rest) = ⟨some c, tail.length + 1⟩ := by
  have valid : c.toNat < 0xd800 ∨ (0xdfff < c.toNat ∧ c.toNat < 0x110000) := c.valid
  have back : Char.ofNat c.toNat = c := Char.ofNat_toNat c
  have hv : c.val.toNat = c.toNat := rfl
  rw [String.utf8EncodeChar]
  simp only [hv]
  generalize c.toNat = v at *
  split_ifs with h₁ h₂ h₃
  · have lt : UInt8.ofNat v < 0x80 := by
      rw [UInt8.lt_iff_toNat_lt, toNat_ofNat_of_lt (by omega)]
      exact Nat.lt_succ_of_le h₁
    refine ⟨_, _, rfl, ?_⟩
    unfold chunk
    rw [if_pos lt, toNat_ofNat_of_lt (by omega), back]
    rfl
  · have hl := lead?_two ⟨v / 64 % 32, Nat.mod_lt _ (by omega)⟩ (by dsimp only; omega)
    have bits : (v / 64 % 32 + 0xc0) % Nat.pow 2 (5 - 0) * 64 + v % 64 = v := by
      simp only [Nat.pow_eq]
      omega
    refine ⟨_, _, rfl, ?_⟩
    rw [List.cons_append, List.nil_append,
      chunk_of_lead? rest (by omega) hl (by omega) (by simp; omega), bits, readTails, back]
    rfl
  · have hl := lead?_three ⟨v / 4096 % 16, Nat.mod_lt _ (by omega)⟩
    have bits : ((v / 4096 % 16 + 0xe0) % Nat.pow 2 (5 - 1) * 64 + v / 64 % 64) * 64 + v % 64 =
        v := by
      simp only [Nat.pow_eq]
      omega
    have bounds : (if v / 4096 % 16 = 0 then 0xa0 else 0x80 : UInt8).toNat ≤ v / 64 % 64 + 0x80 ∧
        v / 64 % 64 + 0x80 ≤ (if v / 4096 % 16 = 0xd then 0x9f else 0xbf : UInt8).toNat := by
      split_ifs <;> simp <;> omega
    refine ⟨_, _, rfl, ?_⟩
    rw [List.cons_append, List.cons_append, List.nil_append,
      chunk_of_lead? _ (by omega) hl (by omega) bounds, readTails_succ (by omega), bits,
      readTails, back]
    rfl
  · have hl := lead?_four ⟨v / 262144 % 8, by omega⟩
    have bits : (((v / 262144 % 8 + 0xf0) % Nat.pow 2 (5 - 2) * 64 + v / 4096 % 64) * 64 +
        v / 64 % 64) * 64 + v % 64 = v := by
      simp only [Nat.pow_eq]
      omega
    have bounds : (if v / 262144 % 8 = 0 then 0x90 else 0x80 : UInt8).toNat ≤
          v / 4096 % 64 + 0x80 ∧
        v / 4096 % 64 + 0x80 ≤ (if v / 262144 % 8 = 4 then 0x8f else 0xbf : UInt8).toNat := by
      split_ifs <;> simp <;> omega
    refine ⟨_, _, rfl, ?_⟩
    rw [List.cons_append, List.cons_append, List.cons_append, List.nil_append,
      chunk_of_lead? _ (by omega) hl (by omega) bounds, readTails_succ (by omega),
      readTails_succ (by omega), bits, readTails, back]
    rfl

/-! ## Whole texts -/

/-- The chunk that stands for a character in encoded text. -/
def charChunk (c : Char) : Chunk := ⟨some c, (String.utf8EncodeChar c).length⟩

theorem chunks_utf8EncodeChar_append (c : Char) (rest : Bytes) :
    chunks (String.utf8EncodeChar c ++ rest) = charChunk c :: chunks rest := by
  obtain ⟨b, tail, hc, hchunk⟩ := chunk_utf8EncodeChar c rest
  rw [charChunk, hc, List.cons_append, chunks, hchunk]
  simp only [Nat.add_sub_cancel, List.drop_left, List.length_cons]

theorem chunks_encode (text : String) : chunks (encode text) = text.toList.map charChunk := by
  rw [encode]
  induction text.toList with
  | nil => rw [List.flatMap_nil, chunks, List.map_nil]
  | cons c rest ih => rw [List.flatMap_cons, chunks_utf8EncodeChar_append, ih, List.map_cons]

/-- Encoded text has no invalid byte. -/
theorem firstInvalid?_encode (text : String) : firstInvalid? (encode text) = none := by
  have all : ∀ c ∈ text.toList.map charChunk, c.char?.isSome = true := by
    intro c hc
    obtain ⟨a, -, rfl⟩ := List.mem_map.mp hc
    rfl
  rw [firstInvalid?, chunks_encode]
  rw [List.takeWhile_eq_self_iff.mpr all, if_pos rfl]

/-- Encoded text reads back. -/
theorem decodeLossy_encode (text : String) : decodeLossy (encode text) = text := by
  rw [decodeLossy, chunks_encode, List.map_map]
  have id : ((fun c : Chunk => c.char?.getD '\ufffd') ∘ charChunk) = id := rfl
  rw [id, List.map_id, String.ofList_toList]

end TimeTrials.Text.Utf8
