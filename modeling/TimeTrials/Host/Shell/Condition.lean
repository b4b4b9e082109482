import TimeTrials.Host.FileSystem
import TimeTrials.Number.Literal

/-!
# Conditions of scripts

What `test` and `[` decide: comparisons of texts and of whole numbers, and questions about files.  A
condition that makes no sense is neither true nor false but has a complaint.
-/

namespace TimeTrials.Host.Shell.Condition

/-- Reads a whole number, with a sign perhaps. -/
def number (word : String) : Except String Int :=
  let (negative, digits) := Number.Literal.sign word.toList
  if digits.isEmpty || !digits.all Char.isDigit then .error ("Illegal number: " ++ word)
  else
    let n : Int := Number.Literal.valueOf digits
    .ok (if negative then -n else n)

/-- Compares two whole numbers. -/
def compare (holds : Int → Int → Bool) (a b : String) : Except String Bool := do
  return holds (← number a) (← number b)

/-- The conditions on two words. -/
def binary? : String → Option (String → String → Except String Bool)
  | "=" => some fun a b => .ok (a == b)
  | "!=" => some fun a b => .ok (a != b)
  | "-eq" => some (compare fun a b => a == b)
  | "-ne" => some (compare fun a b => a != b)
  | "-lt" => some (compare fun a b => a < b)
  | "-le" => some (compare fun a b => a ≤ b)
  | "-gt" => some (compare fun a b => b < a)
  | "-ge" => some (compare fun a b => b ≤ a)
  | _ => none

/-- The conditions on one word. -/
def unary? (fs : FileSystem) : String → Option (String → Bool)
  | "-n" => some fun a => !a.isEmpty
  | "-z" => some fun a => a.isEmpty
  | "-e" => some fun a => (fs.open? a).toOption.isSome
  | "-d" => some fun a => (fs.open? a).toOption == some .directory
  | "-f" => some fun a =>
    match fs.open? a with
    | .ok (.file _) => true
    | .ok (.program _) => true
    | _ => false
  | "-s" => some fun a =>
    match fs.open? a with
    | .ok (.file content) => !content.isEmpty
    | .ok .directory => true
    | .ok (.program _) => true
    | _ => false
  | "-r" => some fun a => (fs.open? a).toOption.isSome
  | "-w" => some fun a => (fs.open? a).toOption.isSome
  | "-x" => some fun a =>
    match fs.open? a with
    | .ok (.program _) => true
    | .ok .directory => true
    | _ => false
  | _ => none

/-- A condition without `-a` and `-o`. -/
def simple (fs : FileSystem) : List String → Except String Bool
  | [] => .ok false
  | [a] => .ok (!a.isEmpty)
  | [op, a] =>
    match unary? fs op with
    | some holds => .ok (holds a)
    | none => if op = "!" then .ok a.isEmpty else .error (a ++ ": unexpected operator")
  | [a, op, b] =>
    match binary? op with
    | some holds => holds a b
    | none =>
      if a = "!" then (simple fs [op, b]).map (!·)
      else if a = "(" ∧ b = ")" then .ok (!op.isEmpty)
      else .error (op ++ ": unexpected operator")
  | word :: rest =>
    if word = "!" then (simple fs rest).map (!·) else .error (word ++ ": unexpected operator")

/-- The parts of a list between the elements equal to `separator`. -/
def parts (separator : String) (words : List String) : List (List String) :=
  words.splitOn separator

/-- Whether a condition holds.  `-a` binds tighter than `-o`; three words are one condition. -/
def holds (fs : FileSystem) (words : List String) : Except String Bool := do
  if words.length ≤ 3 then simple fs words
  else
    let alternatives ← (parts "-o" words).mapM fun alternative => do
      let conditions ← (parts "-a" alternative).mapM (simple fs)
      return conditions.all id
    return alternatives.any id

end TimeTrials.Host.Shell.Condition
