import TimeTrials.Host.Shell.State
import TimeTrials.Text.Quoted

/-!
# Expanding words

A word becomes a list of fields.  Text and whatever stands between quotes goes into the field at hand;
the value of anything else is divided at blanks first.  A word in which nothing stands gives no field at
all, unless it has quotes.
-/

namespace TimeTrials.Host.Shell

open Text (Bytes)

/-- The fields of a word so far: the finished ones, and the one at hand if it has been begun. -/
structure Fields where
  finished : List String
  current : Option String

namespace Fields

/-- No fields. -/
def none : Fields := ⟨[], .none⟩

/-- Adds text to the field at hand. -/
def add (fields : Fields) (text : String) : Fields :=
  { fields with current := some (fields.current.getD "" ++ text) }

/-- Ends the field at hand. -/
def close (fields : Fields) : Fields :=
  match fields.current with
  | some field => ⟨fields.finished ++ [field], .none⟩
  | .none => fields

/-- Adds a value that is divided at blanks. -/
def addDivided (fields : Fields) (value : List Char) : Fields :=
  value.foldl
    (fun fields c =>
      if c = ' ' ∨ c = '\t' ∨ c = '\n' then fields.close else fields.add (String.singleton c)) fields

/-- Adds a value. -/
def addValue (fields : Fields) (quoted : Bool) (value : String) : Fields :=
  if quoted then fields.add value else fields.addDivided value.toList

/-- Adds texts that are a field each. -/
def addEach (fields : Fields) : List String → Fields
  | [] => fields
  | [text] => fields.add text
  | text :: rest => ((fields.add text).close).addEach rest

/-- All fields. -/
def toList (fields : Fields) : List String := fields.close.finished

end Fields

/-! ## Patterns -/

/-- A pattern: characters, and whether each of them stands for itself. -/
abbrev Pattern := List (Char × Bool)

/-- Whether a character is in a bracketed set. -/
def inSet (c : Char) : List Char → Bool
  | low :: '-' :: high :: rest => (low ≤ c && c ≤ high) || inSet c rest
  | d :: rest => c == d || inSet c rest
  | [] => false

/-- The characters of a bracketed set, its opening bracket gone, and the pattern after it. -/
def bracketed? (pattern : Pattern) : Option (List Char × Pattern) :=
  let inside := (pattern.drop 1).takeWhile fun p => p.1 != ']'
  let set := (pattern.take 1 ++ inside).map (·.1)
  match pattern.drop set.length with
  | _ :: rest => some (set, rest)
  | [] => none

/-- Whether a bracketed set takes a character. -/
def setTakes (set : List Char) (c : Char) : Bool :=
  match set with
  | '!' :: rest => !inSet c rest
  | set => inSet c set

/-- Whether a text is of a pattern.  The fuel bounds the steps through both. -/
def hasPattern : Nat → Pattern → List Char → Bool
  | 0, _, _ => false
  | _, [], text => text.isEmpty
  | fuel + 1, (p, literal) :: rest, text =>
    if p = '*' ∧ !literal then
      hasPattern fuel rest text
        || match text with
          | [] => false
          | _ :: text => hasPattern fuel ((p, literal) :: rest) text
    else
      match text with
      | [] => false
      | c :: text =>
        if p = '?' ∧ !literal then hasPattern fuel rest text
        else
          match (if p = '[' ∧ !literal then bracketed? rest else none) with
          | some (set, after) => setTakes set c && hasPattern fuel after text
          | none => p == c && hasPattern fuel rest text

/-- A text without its beginning, or its end, that is of a pattern: the longest such part, or the
shortest. -/
def cutText (atEnd longest : Bool) (pattern : Pattern) (text : List Char) : List Char :=
  let lengths := List.range (text.length + 1)
  let lengths := if longest then lengths.reverse else lengths
  let part (n : Nat) := if atEnd then text.drop (text.length - n) else text.take n
  let fits (n : Nat) := hasPattern (pattern.length + n + 1) pattern (part n)
  match lengths.find? fits with
  | some n => if atEnd then text.take (text.length - n) else text.drop n
  | none => text

/-! ## Parts -/

/-- Something a script does: it changes the state, and may end with a complaint. -/
abbrev Task := ExceptT String (StateM State)

/-- What a script has printed, as the value of an expansion: text without the line ends after it. -/
def valueOfOutput (bytes : Bytes) : String :=
  let text := (Text.Utf8.decodeLossy (bytes.filter (· ≠ 0))).toList
  String.ofList (text.reverse.dropWhile (· == '\n')).reverse

/-- Adds the parts of a word to fields.  `capture` runs a script and gives what it prints; the fuel
bounds the parts, those of nested words included. -/
def expandParts (capture : String → StateM State Bytes) : Nat → Word → Fields → Task Fields
  | 0, _, fields => pure fields
  | _, [], fields => pure fields
  | fuel + 1, part :: rest, fields => do
    let s ← get
    let fields ←
      match part with
      | .text text _ => pure (fields.add text)
      | .parameter name use quoted => do
        let value := s.value name
        let isMissing (orEmpty : Bool) : Bool :=
          (s.value? name).isNone || (orEmpty && value.isEmpty)
        match use with
        | .value =>
          if name = "@" ∧ quoted then pure (fields.addEach s.arguments)
          else pure (fields.addValue quoted value)
        | .length => pure (fields.add (toString value.length))
        | .fallback orEmpty word =>
          if isMissing orEmpty then expandParts capture fuel (quotedWord word) fields
          else pure (fields.addValue quoted value)
        | .assignment orEmpty word =>
          if isMissing orEmpty then
            let inner ← expandParts capture fuel (quotedWord word) .none
            let value := "".intercalate inner.toList
            modify (·.assign name value)
            pure (fields.addValue quoted value)
          else pure (fields.addValue quoted value)
        | .replacement orEmpty word =>
          if isMissing orEmpty then pure fields
          else expandParts capture fuel (quotedWord word) fields
        | .cut atEnd longest pattern =>
          let inner ← expandParts capture fuel (quotedWord pattern) .none
          let pattern := ("".intercalate inner.toList).toList.map (·, false)
          pure (fields.addValue quoted (String.ofList (cutText atEnd longest pattern value.toList)))
      | .arithmetic source quoted => do
        let inner ← expandParts capture fuel (quotedWord source) .none
        let expression := "".intercalate inner.toList
        match Arithmetic.evaluate? s.number? expression with
        | some (n, assigned) =>
          if let some name := assigned then modify (·.assign name (toString n))
          pure (fields.addValue quoted (toString n))
        | none => throw ("arithmetic expression: " ++ Text.quoted expression)
      | .output source quoted => do
        let bytes ← capture source
        pure (fields.addValue quoted (valueOfOutput bytes))
    expandParts capture fuel rest fields

/-- The fields of a word. -/
def expandWord (capture : String → StateM State Bytes) (fuel : Nat) (word : Word) :
    Task (List String) := do
  let s ← get
  if word = [.parameter "@" .value true, .text "" true] ∧ s.arguments.isEmpty then return []
  else return (← expandParts capture fuel word .none).toList

/-- The text of a word that is not divided. -/
def expandText (capture : String → StateM State Bytes) (fuel : Nat) (word : Word) : Task String := do
  let whole := word.map fun
    | .text text _ => .text text true
    | .parameter name use _ => .parameter name use true
    | .arithmetic source _ => .arithmetic source true
    | .output source _ => .output source true
  return " ".intercalate (← expandWord capture fuel whole)

/-- The pattern of a word: quoted text and values of quoted expansions stand for themselves. -/
def expandPattern (capture : String → StateM State Bytes) (fuel : Nat) (word : Word) :
    Task Pattern := do
  let parts ← word.mapM fun part => do
    let literal := match part with
      | .text _ quoted => quoted
      | .parameter _ _ quoted => quoted
      | .arithmetic _ quoted => quoted
      | .output _ quoted => quoted
    let text ← expandText capture fuel [part]
    return text.toList.map (·, literal)
  return parts.flatten

end TimeTrials.Host.Shell
