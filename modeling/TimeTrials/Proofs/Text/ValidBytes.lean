import Mathlib.Data.List.Basic
import TimeTrials.Proofs.Text.Utf8

/-!
# Valid bytes are encoded text

Encoding goes from characters to bytes.  This is the way back: a chunk that is a character takes up the
very bytes that this character is written with, and bytes made of such chunks are the bytes of a text.
The bounds that a leading byte sets for the byte after it are what excludes a second spelling, a
surrogate and a value past the last code point.

* `utf8EncodeChar_two` and its siblings: the bytes of a character put together from payload bits, one
  statement for each number of bytes.
* `utf8EncodeChar_of_lead`: the same for whatever a leading byte asks for.
* `eq_utf8EncodeChar_of_chunk`: one character.
* `firstInvalid?_eq_none_iff`: a byte sequence has no invalid byte exactly when it is encoded text.
-/

namespace TimeTrials.Text.Utf8

/-! ## Characters from payload bits -/

theorem val_ofNat_of_valid {v : Nat} (h : v < 0xd800 ∨ (0xdfff < v ∧ v < 0x110000)) :
    (Char.ofNat v).val.toNat = v := by
  have hchar : v.isValidChar := h
  rw [Char.ofNat, dif_pos hchar]
  rfl

/-- A byte is the one of its value. -/
theorem ofNat_eq_of_toNat {b : UInt8} {n : Nat} (h : b.toNat = n) : UInt8.ofNat n = b := by
  rw [← h, UInt8.ofNat_toNat]

theorem isTail_iff {b : UInt8} : isTail b = true ↔ 0x80 ≤ b.toNat ∧ b.toNat ≤ 0xbf := by
  rw [isTail, Bool.and_eq_true, decide_eq_true_eq, decide_eq_true_eq, UInt8.le_iff_toNat_le,
    UInt8.le_iff_toNat_le]
  rfl

section

variable {b b₁ b₂ b₃ : UInt8}

theorem utf8EncodeChar_one (hb : b.toNat < 0x80) :
    String.utf8EncodeChar (Char.ofNat b.toNat) = [b] := by
  have hval := val_ofNat_of_valid (v := b.toNat) (by omega)
  rw [String.utf8EncodeChar]
  simp only [hval]
  rw [if_pos (by omega), UInt8.ofNat_toNat]

theorem utf8EncodeChar_two (hb : 0xc2 ≤ b.toNat ∧ b.toNat ≤ 0xdf) (hb₁ : isTail b₁ = true) :
    String.utf8EncodeChar (Char.ofNat (b.toNat % 32 * 64 + payload b₁)) = [b, b₁] := by
  rw [isTail_iff] at hb₁
  have hval := val_ofNat_of_valid (v := b.toNat % 32 * 64 + b₁.toNat % 64) (by omega)
  rw [String.utf8EncodeChar]
  simp only [payload, hval]
  rw [if_neg (by omega), if_pos (by omega), ofNat_eq_of_toNat (b := b) (by omega),
    ofNat_eq_of_toNat (b := b₁) (by omega)]

theorem utf8EncodeChar_three (hb : 0xe0 ≤ b.toNat ∧ b.toNat ≤ 0xef)
    (hb₁ : isTail b₁ = true) (hlow : b.toNat = 0xe0 → 0xa0 ≤ b₁.toNat)
    (hhigh : b.toNat = 0xed → b₁.toNat ≤ 0x9f) (hb₂ : isTail b₂ = true) :
    String.utf8EncodeChar
      (Char.ofNat ((b.toNat % 16 * 64 + payload b₁) * 64 + payload b₂)) = [b, b₁, b₂] := by
  rw [isTail_iff] at hb₁ hb₂
  have hval := val_ofNat_of_valid
    (v := (b.toNat % 16 * 64 + b₁.toNat % 64) * 64 + b₂.toNat % 64) (by omega)
  rw [String.utf8EncodeChar]
  simp only [payload, hval]
  rw [if_neg (by omega), if_neg (by omega), if_pos (by omega),
    ofNat_eq_of_toNat (b := b) (by omega), ofNat_eq_of_toNat (b := b₁) (by omega),
    ofNat_eq_of_toNat (b := b₂) (by omega)]

theorem utf8EncodeChar_four (hb : 0xf0 ≤ b.toNat ∧ b.toNat ≤ 0xf4)
    (hb₁ : isTail b₁ = true) (hlow : b.toNat = 0xf0 → 0x90 ≤ b₁.toNat)
    (hhigh : b.toNat = 0xf4 → b₁.toNat ≤ 0x8f) (hb₂ : isTail b₂ = true)
    (hb₃ : isTail b₃ = true) :
    String.utf8EncodeChar (Char.ofNat
      (((b.toNat % 8 * 64 + payload b₁) * 64 + payload b₂) * 64 + payload b₃)) =
        [b, b₁, b₂, b₃] := by
  rw [isTail_iff] at hb₁ hb₂ hb₃
  have hval := val_ofNat_of_valid
    (v := ((b.toNat % 8 * 64 + b₁.toNat % 64) * 64 + b₂.toNat % 64) * 64 + b₃.toNat % 64)
    (by omega)
  rw [String.utf8EncodeChar]
  simp only [payload, hval]
  rw [if_neg (by omega), if_neg (by omega), if_neg (by omega),
    ofNat_eq_of_toNat (b := b) (by omega), ofNat_eq_of_toNat (b := b₁) (by omega),
    ofNat_eq_of_toNat (b := b₂) (by omega), ofNat_eq_of_toNat (b := b₃) (by omega)]

end

/-! ## One chunk -/

/-- What a leading byte can be, and what it asks for. -/
theorem lead?_eq_some {b : UInt8} {lead : Lead} (h : lead? b = some lead) :
    (0xc2 ≤ b.toNat ∧ b.toNat ≤ 0xdf ∧ lead = ⟨1, 0x80, 0xbf⟩) ∨
    (0xe0 ≤ b.toNat ∧ b.toNat ≤ 0xef ∧ lead = ⟨2, if b.toNat = 0xe0 then 0xa0 else 0x80,
      if b.toNat = 0xed then 0x9f else 0xbf⟩) ∨
    (0xf0 ≤ b.toNat ∧ b.toNat ≤ 0xf4 ∧ lead = ⟨3, if b.toNat = 0xf0 then 0x90 else 0x80,
      if b.toNat = 0xf4 then 0x8f else 0xbf⟩) := by
  have hall : ∀ n : Fin 256, ∀ lead ∈ lead? (UInt8.ofNat n),
      (0xc2 ≤ n.val ∧ n.val ≤ 0xdf ∧ lead = ⟨1, 0x80, 0xbf⟩) ∨
      (0xe0 ≤ n.val ∧ n.val ≤ 0xef ∧ lead = ⟨2, if n.val = 0xe0 then 0xa0 else 0x80,
        if n.val = 0xed then 0x9f else 0xbf⟩) ∨
      (0xf0 ≤ n.val ∧ n.val ≤ 0xf4 ∧ lead = ⟨3, if n.val = 0xf0 then 0x90 else 0x80,
        if n.val = 0xf4 then 0x8f else 0xbf⟩) := by
    decide +kernel
  have hb := hall ⟨b.toNat, b.toNat_lt⟩
  simp only [UInt8.ofNat_toNat] at hb
  exact hb lead h

/-- The tail bytes of a character that is complete. -/
theorem exists_of_readTails {tails size bits : Nat} {rest : Bytes} {c : Char} {total : Nat}
    (h : readTails tails size bits rest = ⟨some c, total⟩) :
    ∃ tail more, rest = tail ++ more ∧ tail.length = tails ∧ total = size + tails ∧
      (∀ b ∈ tail, isTail b = true) ∧
      c = Char.ofNat (tail.foldl (fun bits b => bits * 64 + payload b) bits) := by
  induction tails generalizing size bits rest with
  | zero =>
    rw [readTails] at h
    obtain ⟨hc, hsize⟩ := Chunk.mk.inj h
    exact ⟨[], rest, rfl, rfl, hsize.symm, by simp, (Option.some.inj hc).symm⟩
  | succ tails ih =>
    cases rest with
    | nil => cases h
    | cons b rest =>
      rw [readTails] at h
      split_ifs at h with hb
      · obtain ⟨tail, more, hrest, hlength, htotal, htails, hc⟩ := ih h
        refine ⟨b :: tail, more, by rw [hrest]; rfl, by simp [hlength], by omega, ?_, hc⟩
        exact List.forall_mem_cons.mpr ⟨hb, htails⟩
      · cases h

/-- Whatever a leading byte asks of the byte after it, that byte continues a character. -/
theorem between_of_bounds {p q : Prop} [Decidable p] [Decidable q] {low high : UInt8} {n : Nat}
    (h : (if p then low else 0x80 : UInt8).toNat ≤ n ∧ n ≤ (if q then high else 0xbf : UInt8).toNat)
    (hlow : 0x80 ≤ low.toNat) (hhigh : high.toNat ≤ 0xbf) :
    0x80 ≤ n ∧ n ≤ 0xbf := by
  obtain ⟨hl, hh⟩ := h
  constructor
  · split_ifs at hl
    · exact hlow.trans hl
    · exact hl
  · split_ifs at hh
    · exact hh.trans hhigh
    · exact hh

/-- A leading byte and the bytes it asks for are those of the character made of their bits. -/
theorem utf8EncodeChar_of_lead {b b₁ : UInt8} {lead : Lead} {tail : Bytes}
    (hlead : lead? b = some lead) (hbounds : lead.low.toNat ≤ b₁.toNat ∧ b₁.toNat ≤ lead.high.toNat)
    (hlength : tail.length = lead.tails - 1) (htails : ∀ b' ∈ tail, isTail b' = true) :
    String.utf8EncodeChar (Char.ofNat (tail.foldl (fun bits b' => bits * 64 + payload b')
      (leadBits lead.tails b * 64 + payload b₁))) = b :: b₁ :: tail := by
  rcases lead?_eq_some hlead with ⟨hl, hh, rfl⟩ | ⟨hl, hh, rfl⟩ | ⟨hl, hh, rfl⟩
  · obtain rfl := List.length_eq_zero_iff.mp hlength
    exact utf8EncodeChar_two ⟨hl, hh⟩ (isTail_iff.mpr hbounds)
  · obtain ⟨b₂, rfl⟩ := List.length_eq_one_iff.mp hlength
    have hlow : b.toNat = 0xe0 → 0xa0 ≤ b₁.toNat := fun heq => by simpa [heq] using hbounds.1
    have hhigh : b.toNat = 0xed → b₁.toNat ≤ 0x9f := fun heq => by simpa [heq] using hbounds.2
    have hb₁ : isTail b₁ = true :=
      isTail_iff.mpr (between_of_bounds hbounds (by decide) (by decide))
    exact utf8EncodeChar_three ⟨hl, hh⟩ hb₁ hlow hhigh (htails b₂ (by simp))
  · obtain ⟨b₂, b₃, rfl⟩ := List.length_eq_two.mp hlength
    have hlow : b.toNat = 0xf0 → 0x90 ≤ b₁.toNat := fun heq => by simpa [heq] using hbounds.1
    have hhigh : b.toNat = 0xf4 → b₁.toNat ≤ 0x8f := fun heq => by simpa [heq] using hbounds.2
    have hb₁ : isTail b₁ = true :=
      isTail_iff.mpr (between_of_bounds hbounds (by decide) (by decide))
    exact utf8EncodeChar_four ⟨hl, hh⟩ hb₁ hlow hhigh (htails b₂ (by simp)) (htails b₃ (by simp))

/-- The bytes of a chunk that is a character are those that the character is written with. -/
theorem eq_utf8EncodeChar_of_chunk {b : UInt8} {rest : Bytes} {c : Char} {size : Nat}
    (h : chunk b rest = ⟨some c, size⟩) :
    ∃ tail more, rest = tail ++ more ∧ size = tail.length + 1 ∧
      String.utf8EncodeChar c = b :: tail := by
  unfold chunk at h
  split_ifs at h with hascii
  · obtain ⟨hc, hsize⟩ := Chunk.mk.inj h
    refine ⟨[], rest, rfl, hsize.symm, ?_⟩
    rw [← Option.some.inj hc]
    exact utf8EncodeChar_one (UInt8.lt_iff_toNat_lt.mp hascii)
  · split at h
    · next lead b₁ rest' hlead =>
      split_ifs at h with hbounds
      · obtain ⟨tail, more, rfl, hlength, rfl, htails, rfl⟩ := exists_of_readTails h
        rw [Bool.and_eq_true, decide_eq_true_eq, decide_eq_true_eq, UInt8.le_iff_toNat_le,
          UInt8.le_iff_toNat_le] at hbounds
        refine ⟨b₁ :: tail, more, rfl, ?_, utf8EncodeChar_of_lead hlead hbounds hlength htails⟩
        rw [List.length_cons, hlength]
        omega
      · cases h
    · cases h

/-! ## All chunks -/

/-- Bytes all of whose chunks are characters are the bytes of a text. -/
theorem exists_encode_of_chunks {bytes : Bytes}
    (h : ∀ c ∈ chunks bytes, c.char?.isSome = true) : ∃ text, bytes = encode text := by
  fun_induction chunks bytes with
  | case1 => exact ⟨"", rfl⟩
  | case2 b rest c ih =>
    obtain ⟨hfirst, hrest⟩ := List.forall_mem_cons.mp h
    obtain ⟨text, htext⟩ := ih hrest
    obtain ⟨a, ha⟩ := Option.isSome_iff_exists.mp hfirst
    have hchunk : chunk b rest = ⟨some a, c.size⟩ := by
      rw [← ha]
    obtain ⟨tail, more, rfl, hsize, hencode⟩ := eq_utf8EncodeChar_of_chunk hchunk
    rw [hsize, Nat.add_sub_cancel, List.drop_left] at htext
    refine ⟨String.ofList (a :: text.toList), ?_⟩
    rw [encode, String.toList_ofList, List.flatMap_cons, hencode, htext]
    rfl

/-- Bytes without an invalid one are the bytes of a text. -/
theorem firstInvalid?_eq_none_iff {bytes : Bytes} :
    firstInvalid? bytes = none ↔ ∃ text, bytes = encode text := by
  constructor
  · intro h
    refine exists_encode_of_chunks ?_
    have hlength : ((chunks bytes).takeWhile fun c => c.char?.isSome).length =
        (chunks bytes).length := by
      simp only [firstInvalid?] at h
      by_contra hne
      rw [if_neg hne] at h
      cases h
    exact List.takeWhile_eq_self_iff.mp ((List.takeWhile_prefix _).eq_of_length hlength)
  · rintro ⟨text, rfl⟩
    exact firstInvalid?_encode text

end TimeTrials.Text.Utf8
