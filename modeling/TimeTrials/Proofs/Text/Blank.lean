import Mathlib.Data.List.TakeWhile
import TimeTrials.Text.Blank

/-!
# What trimming takes away

Characters are dropped from an end as long as a test holds of them, so the first one of which it does not
hold stays, and with it everything on its other side.

* `dropEndWhile_append`, `dropWhile_append_of_exists`: what stands on the other side is not looked at.
* `dropEndWhile_append_replicate`, `dropEndWhile_append_singleton`: what goes and what stays.
* `IsTrimmed`, `trim_eq_self`: a text with no blank at either end is left as it is.
* `mem_toList_trim`: a blank with something on both sides of it stays.
-/

namespace TimeTrials.Text

/-! ## Dropping from an end -/

/-- What is dropped from the front leaves what stands behind the first character that stays. -/
theorem dropWhile_append_of_exists {test : Char → Bool} {first : List Char}
    (h : ∃ c ∈ first, test c = false) (second : List Char) :
    (first ++ second).dropWhile test = first.dropWhile test ++ second := by
  have hne : first.dropWhile test ≠ [] := by
    obtain ⟨c, hc, htest⟩ := h
    intro hnil
    rw [List.dropWhile_eq_nil_iff.mp hnil c hc] at htest
    cases htest
  rw [List.dropWhile_append, if_neg (by simpa using hne)]

/-- The same from the end. -/
theorem dropEndWhile_append {test : Char → Bool} {second : List Char}
    (h : ∃ c ∈ second, test c = false) (first : List Char) :
    dropEndWhile test (first ++ second) = first ++ dropEndWhile test second := by
  have h' : ∃ c ∈ second.reverse, test c = false := by simpa using h
  rw [dropEndWhile, List.reverse_append, dropWhile_append_of_exists h', List.reverse_append,
    List.reverse_reverse, dropEndWhile]

theorem dropEndWhile_append_replicate {test : Char → Bool} {c : Char} (hc : test c = true)
    (n : Nat) (text : List Char) :
    dropEndWhile test (text ++ List.replicate n c) = dropEndWhile test text := by
  have hdropped : ∀ b ∈ List.replicate n c, test b = true := by
    intro b hb
    rwa [List.eq_of_mem_replicate hb]
  rw [dropEndWhile, List.reverse_append, List.reverse_replicate,
    List.dropWhile_append_of_pos hdropped, dropEndWhile]

theorem dropEndWhile_append_singleton {test : Char → Bool} {c : Char} (hc : test c = false)
    (text : List Char) : dropEndWhile test (text ++ [c]) = text ++ [c] := by
  rw [dropEndWhile, List.reverse_concat, List.dropWhile_cons_of_neg (by simp [hc]),
    List.reverse_cons, List.reverse_reverse]

/-- Nothing is dropped if the last character stays. -/
theorem dropEndWhile_eq_self {test : Char → Bool} {text : List Char}
    (h : ∀ c ∈ text.getLast?, test c = false) : dropEndWhile test text = text := by
  cases hlast : text.getLast? with
  | none => rw [List.getLast?_eq_none_iff.mp hlast]; rfl
  | some c =>
    obtain ⟨before, rfl⟩ := List.getLast?_eq_some_iff.mp hlast
    exact dropEndWhile_append_singleton (h c hlast) before

/-- What is dropped from the end is a run of characters of which the test holds. -/
theorem exists_dropEndWhile (test : Char → Bool) (text : List Char) :
    ∃ dropped, text = dropEndWhile test text ++ dropped ∧ ∀ c ∈ dropped, test c = true := by
  refine ⟨(text.reverse.takeWhile test).reverse, ?_, fun c hc => ?_⟩
  · rw [dropEndWhile, ← List.reverse_append, List.takeWhile_append_dropWhile, List.reverse_reverse]
  · exact List.mem_takeWhile_imp (List.mem_reverse.mp hc)

/-- The last character that is left is one that stays. -/
theorem getLast?_dropEndWhile (test : Char → Bool) (text : List Char) :
    ∀ c ∈ (dropEndWhile test text).getLast?, test c = false := by
  intro c hc
  rw [dropEndWhile, List.getLast?_reverse] at hc
  have hhead := List.head?_dropWhile_not test text.reverse
  rwa [Option.mem_def.mp hc] at hhead

/-! ## Blanks at both ends -/

/-- A text with no blank at either end. -/
def IsTrimmed (text : List Char) : Prop :=
  (∀ c ∈ text.head?, isBlank c = false) ∧ ∀ c ∈ text.getLast?, isBlank c = false

theorem trim_eq_self {text : String} (h : IsTrimmed text.toList) : trim text = text := by
  have hfirst : text.toList.dropWhile isBlank = text.toList := by
    cases hchars : text.toList with
    | nil => rfl
    | cons c rest =>
      have hc : isBlank c = false := h.1 c (by rw [hchars]; rfl)
      rw [List.dropWhile_cons_of_neg (by rw [hc]; decide)]
  rw [trim, hfirst, dropEndWhile_eq_self h.2, String.ofList_toList]

/-- Whatever has something other than blanks on both sides of it is not trimmed away. -/
theorem mem_toList_trim {text : String} {first second : List Char} {c : Char}
    (htext : text.toList = first ++ c :: second) (hfirst : ∃ b ∈ first, isBlank b = false)
    (hsecond : ∃ b ∈ second, isBlank b = false) : c ∈ (trim text).toList := by
  rw [trim, String.toList_ofList, htext, dropWhile_append_of_exists hfirst,
    ← List.singleton_append, ← List.append_assoc, dropEndWhile_append hsecond]
  simp

end TimeTrials.Text
