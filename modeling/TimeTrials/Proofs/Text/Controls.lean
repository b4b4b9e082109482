import Mathlib.Data.List.TakeWhile
import TimeTrials.Text.Column

/-!
# Control characters and control sequences

A terminal takes a text apart at its control characters.  A line feed ends a line, and an escape character
with a bracket behind it starts a sequence that is not shown at all.  `withoutSequences` is what is left when
all sequences that set a colour are deleted.  The text need not have come from a chart: an escape character
that starts no such sequence stays.

* `Lacks`: a text without a certain character.  Setting it in a column adds no control characters.
* `withoutSequences_append`: up to its first escape character a text is left as it is.
* `withoutSequences_sequenceOf_append`: a sequence goes, whatever is behind it.
* `mem_of_mem_splitOn`: the lines of a text have no characters of their own.
-/

namespace TimeTrials.Text

/-! ## Control characters -/

/-- Whether a character is one of the controls before the space. -/
def IsControl (c : Char) : Prop := c.toNat < 32

/-- The character that starts a control sequence. -/
def escapeChar : Char := '\x1b'

/-- The control characters that take the text of a chart apart: into sequences, and into lines. -/
def dividers : List Char := [escapeChar, '\n']

theorem isControl_of_mem_dividers {c : Char} (h : c ∈ dividers) : IsControl c := by
  have hall : dividers.all (·.toNat < 32) = true := by decide
  have hlt : c.toNat < 32 := of_decide_eq_true (List.all_eq_true.mp hall c h)
  exact hlt

theorem escapeChar_mem_dividers : escapeChar ∈ dividers := List.mem_cons_self

theorem lineEnd_mem_dividers : '\n' ∈ dividers := List.mem_cons_of_mem _ List.mem_cons_self

theorem isControl_escapeChar : IsControl escapeChar :=
  isControl_of_mem_dividers escapeChar_mem_dividers

/-- The text does not have the character. -/
def Lacks (c : Char) (text : String) : Prop := c ∉ text.toList

theorem lacks_append_iff {c : Char} {first second : String} :
    Lacks c (first ++ second) ↔ Lacks c first ∧ Lacks c second := by
  rw [Lacks, String.toList_append, List.mem_append, not_or]
  rfl

theorem Lacks.append {c : Char} {first second : String} (h : Lacks c first) (h' : Lacks c second) :
    Lacks c (first ++ second) :=
  lacks_append_iff.mpr ⟨h, h'⟩

theorem lacks_singleton {c shown : Char} (h : c ≠ shown) : Lacks c (String.singleton shown) := by
  simpa [Lacks] using h

section

variable {c : Char} (hc : IsControl c)

include hc

theorem ne_of_isControl {shown : Char} (h : 32 ≤ shown.toNat) : c ≠ shown := by
  rintro rfl
  exact absurd hc (Nat.not_lt.mpr h)

theorem lacks_of_forall {text : String} (h : ∀ shown ∈ text.toList, 32 ≤ shown.toNat) :
    Lacks c text :=
  fun hmem => ne_of_isControl hc (h c hmem) rfl

/-- For a text that is given. -/
theorem lacks_of_all {text : String} (h : text.toList.all (32 ≤ ·.toNat) = true) : Lacks c text :=
  lacks_of_forall hc fun shown hmem => of_decide_eq_true (List.all_eq_true.mp h shown hmem)

theorem lacks_repeated {shown : Char} (h : 32 ≤ shown.toNat) (n : Nat) :
    Lacks c (repeated n shown) := by
  rw [Lacks, repeated, String.toList_ofList]
  exact fun hmem => ne_of_isControl hc h (List.eq_of_mem_replicate hmem)

theorem lacks_spaces (n : Nat) : Lacks c (spaces n) := lacks_repeated hc (by decide) n

section

variable {text : String} (h : Lacks c text) (width : Nat)

include h

theorem lacks_flushLeft : Lacks c (flushLeft width text) := h.append (lacks_spaces hc _)

theorem lacks_flushRight : Lacks c (flushRight width text) := (lacks_spaces hc _).append h

theorem lacks_centred : Lacks c (centred width text) :=
  ((lacks_spaces hc _).append h).append (lacks_spaces hc _)

end

end

/-! ## Control sequences -/

/-- Whether a character can stand among the numbers of a sequence. -/
def isParameter (c : Char) : Bool := c.isDigit || c == ';'

/-- The sequence that sets a colour, with the numbers it is set by. -/
def sequenceOf (parameters : List Char) : List Char := escapeChar :: '[' :: (parameters ++ ['m'])

/-- What is behind the sequence that a text starts with, if it starts with one that sets a colour: an escape
character, a bracket, numbers, and the letter that ends it. -/
def behindSequence? : List Char → Option (List Char)
  | '\x1b' :: '[' :: rest =>
    match rest.dropWhile isParameter with
    | 'm' :: behind => some behind
    | _ => none
  | _ => none

theorem length_of_behindSequence? {text behind : List Char} (h : behindSequence? text = some behind) :
    behind.length < text.length := by
  unfold behindSequence? at h
  split at h
  · next rest =>
    split at h
    · next behind' hrest =>
      obtain rfl := Option.some.inj h
      have hle := (List.dropWhile_suffix isParameter (l := rest)).length_le
      rw [hrest] at hle
      simp only [List.length_cons] at hle ⊢
      omega
    · cases h
  · cases h

/-- The text without the sequences that set a colour. -/
def withoutSequences : List Char → List Char
  | [] => []
  | c :: rest =>
    match _h : behindSequence? (c :: rest) with
    | some behind => withoutSequences behind
    | none => c :: withoutSequences rest
termination_by text => text.length
decreasing_by
  · exact length_of_behindSequence? _h
  · simp

theorem behindSequence?_of_ne {c : Char} (h : c ≠ escapeChar) (rest : List Char) :
    behindSequence? (c :: rest) = none := by
  unfold behindSequence?
  split
  · next heq => exact absurd (List.cons.inj heq).1 h
  · rfl

theorem sequenceOf_append (parameters behind : List Char) :
    sequenceOf parameters ++ behind = '\x1b' :: '[' :: (parameters ++ 'm' :: behind) := by
  simp [sequenceOf, escapeChar]

theorem escapeChar_mem_sequenceOf (parameters : List Char) : escapeChar ∈ sequenceOf parameters :=
  List.mem_cons_self

/-- A sequence does not end a line. -/
theorem lineEnd_notMem_sequenceOf {parameters : List Char}
    (h : ∀ c ∈ parameters, isParameter c = true) : '\n' ∉ sequenceOf parameters := by
  have hparameters : '\n' ∉ parameters := fun hmem => absurd (h '\n' hmem) (by decide)
  simp [sequenceOf, escapeChar, hparameters]

theorem behindSequence?_sequenceOf_append {parameters : List Char}
    (h : ∀ c ∈ parameters, isParameter c = true) (behind : List Char) :
    behindSequence? (sequenceOf parameters ++ behind) = some behind := by
  have hdropped : (parameters ++ 'm' :: behind).dropWhile isParameter = 'm' :: behind :=
    (List.dropWhile_append_of_pos h).trans rfl
  rw [sequenceOf_append, behindSequence?, hdropped]
  rfl

/-- Up to its first escape character a text is left as it is. -/
theorem withoutSequences_append {shown : List Char} (h : escapeChar ∉ shown) (rest : List Char) :
    withoutSequences (shown ++ rest) = shown ++ withoutSequences rest := by
  induction shown with
  | nil => rfl
  | cons c shown ih =>
    obtain ⟨hc, hshown⟩ := not_or.mp (List.mem_cons.not.mp h)
    rw [List.cons_append, withoutSequences]
    split
    · next behind hbehind =>
      rw [behindSequence?_of_ne (Ne.symm hc)] at hbehind
      cases hbehind
    · rw [ih hshown, List.cons_append]

/-- A sequence goes, whatever is behind it. -/
theorem withoutSequences_sequenceOf_append {parameters : List Char}
    (h : ∀ c ∈ parameters, isParameter c = true) (behind : List Char) :
    withoutSequences (sequenceOf parameters ++ behind) = withoutSequences behind := by
  have hbehind := behindSequence?_sequenceOf_append h behind
  rw [sequenceOf_append] at hbehind ⊢
  rw [withoutSequences]
  split
  · next behind' hbehind' =>
    rw [hbehind] at hbehind'
    obtain rfl := Option.some.inj hbehind'
    rfl
  · next hnone =>
    rw [hbehind] at hnone
    cases hnone

/-! ## Lines -/

/-- What a text is cut into has no characters of its own. -/
theorem mem_of_mem_splitOn {sep : Char} {text piece : List Char} (h : piece ∈ text.splitOn sep)
    {c : Char} (hc : c ∈ piece) : c ∈ text := by
  induction text generalizing piece with
  | nil =>
    rw [List.splitOn_nil, List.mem_singleton] at h
    rwa [h] at hc
  | cons first rest ih =>
    rw [List.splitOn_cons_eq_if_modifyHead] at h
    split_ifs at h
    · rcases List.mem_cons.mp h with rfl | hrest
      · cases hc
      · exact List.mem_cons_of_mem _ (ih hrest hc)
    · obtain ⟨head, others, hsplit⟩ := List.exists_cons_of_ne_nil (List.splitOn_ne_nil sep rest)
      rw [hsplit] at h ih
      rcases List.mem_cons.mp h with rfl | hother
      · rcases List.mem_cons.mp hc with rfl | hhead
        · exact List.mem_cons_self
        · exact List.mem_cons_of_mem _ (ih List.mem_cons_self hhead)
      · exact List.mem_cons_of_mem _ (ih (List.mem_cons_of_mem _ hother) hc)

end TimeTrials.Text
