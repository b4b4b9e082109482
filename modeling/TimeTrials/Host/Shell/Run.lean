import TimeTrials.Host.Shell.Condition
import TimeTrials.Host.Shell.Expansion
import TimeTrials.Host.Shell.Printing
import TimeTrials.Host.Shell.Script

/-!
# Running scripts and programs

A command changes the state and says how the script goes on.  Programs that are not part of the shell
are run the same way, on the state of the script that starts them; a script started from a script gets a
name, arguments and variables of its own and leaves the others as they were.

A script can run without end, so running takes fuel, which is spent on nesting and on repetition.
-/

namespace TimeTrials.Host.Shell

open Text (Bytes)

/-- How a script goes on after a command. -/
inductive Flow where
  | next
  /-- It ends. -/
  | exit
  /-- It leaves a function, or ends if it is in none. -/
  | back
  /-- It leaves some loops. -/
  | leave (loops : Nat)
  /-- It leaves some loops and goes on with the loop around them. -/
  | again (loops : Nat)
  deriving DecidableEq

/-- Sets the status and goes on. -/
def done (status : Nat) : StateM State Flow := do
  modify ({ · with status := status })
  return .next

/-- The status that stands for a result. -/
def statusOf (success : Bool) : Nat := if success then 0 else 1

/-- Prints to the script's output and goes on. -/
def print (bytes : Bytes) (status : Nat) : StateM State Flow := do
  modify fun s => s.emit s.output bytes
  done status

/-- Complains, and goes on. -/
def failing (line : Nat) (text : String) (status : Nat) : StateM State Flow := do
  modify fun s => s.complain line text status
  return .next

/-- What a program prints to the error stream, and the status it ends with. -/
def aborting (text : String) (status : Nat) : StateM State Flow := do
  modify fun s => s.emit s.errors (Text.Utf8.encode (text ++ "\n"))
  done status

/-! ## Redirections -/

/-- The wording of a fault in a complaint. -/
def faultText : SystemFault → String
  | .notFound => "No such file"
  | .permissionDenied => "Permission denied"
  | .notADirectory => "Not a directory"
  | .isADirectory => "Is a directory"
  | fault => fault.message

/-- The file that output goes to from now on, emptied unless it is added to. -/
def openSink (path : String) (adding : Bool) : Task Sink := do
  let s ← get
  match path, adding, s.fs.resolve path with
  | "/dev/stdout", _, _ => return s.output
  | "/dev/stderr", _, _ => return s.errors
  | _, true, .ok (.existing location (.file _)) => return .file location
  | _, _, _ =>
    match s.fs.create path with
    | .ok (fs, handle) =>
      set { s with fs := fs }
      return .file handle.location
    | .error .notFound => throw ("cannot create " ++ path ++ ": Directory nonexistent")
    | .error fault => throw ("cannot create " ++ path ++ ": " ++ faultText fault)

/-- Applies a redirection. -/
def redirectTo (stream : Option Nat) (operator target : String) : Task Unit := do
  match operator with
  | "<" =>
    match (← get).fs.read target with
    | .ok content => modify ({ · with input := content })
    | .error fault => throw ("cannot open " ++ target ++ ": " ++ faultText fault)
  | _ =>
    let s ← get
    let sink ←
      match operator, target with
      | ">&", "1" => pure s.output
      | ">&", "2" => pure s.errors
      | ">&", _ => throw "Bad fd number"
      | ">>", _ => openSink target true
      | _, _ => openSink target false
    match stream.getD 1 with
    | 1 => modify ({ · with output := sink })
    | 2 => modify ({ · with errors := sink })
    | _ => pure ()

/-! ## Commands of the shell -/

/-- Splits a line off bytes. -/
def takeLine (bytes : Bytes) : Bytes × Bytes :=
  (bytes.takeWhile (· ≠ 10), (bytes.dropWhile (· ≠ 10)).drop 1)

/-- Gives the fields of a line to variables, all that is left to the last. -/
def assignFields (s : State) : List String → List String → State
  | [], _ => s
  | [name], fields => s.assign name (" ".intercalate fields)
  | name :: names, fields => assignFields (s.assign name (fields.head?.getD "")) names fields.tail

/-- A number that a command is given, or another if it is given none. -/
def countOf (words : List String) (otherwise : Nat) : Option Nat :=
  match words with
  | [] => some otherwise
  | word :: _ => (Number.Whole.parse word).toOption

/-- A word `name=value`. -/
def definition? (word : String) : Option (String × String) :=
  let name := word.toList.takeWhile (· != '=')
  if name.length = word.length then none
  else some (String.ofList name, String.ofList (word.toList.drop (name.length + 1)))

/-- The commands that the shell knows itself. -/
def builtin? (line : Nat) (name : String) (words : List String) : Option (StateM State Flow) :=
  match name with
  | ":" | "true" => some (done 0)
  | "false" => some (done 1)
  | "echo" => some (print (echo words) 0)
  | "printf" => some <|
    match if words.head? = some "--" then words.tail else words with
    | [] => failing line "printf: usage: printf format [arg ...]" 2
    | format :: words =>
      let (bytes, fits) := printf format words
      print bytes (statusOf fits)
  | "test" => some (condition "test" words)
  | "[" => some <|
    if words.getLast? = some "]" then condition "[" words.dropLast
    else failing line "[: missing ]" 2
  | "exit" | "return" => some do
    match countOf words (← get).status with
    | some n =>
      let _ ← done (n % 256)
      return if name = "exit" then .exit else .back
    | none =>
      let _ ← failing line (name ++ ": Illegal number: " ++ (words.head?.getD "")) 2
      return .exit
  | "break" => some do
    let _ ← done 0
    return .leave ((countOf words 1).getD 1)
  | "continue" => some do
    let _ ← done 0
    return .again ((countOf words 1).getD 1 - 1)
  | "shift" => some do
    let count := (countOf words 1).getD 1
    modify fun s => { s with arguments := s.arguments.drop count }
    done 0
  | "set" => some do
    if words.head? = some "--" then modify ({ · with arguments := words.tail })
    done 0
  | "export" | "readonly" | "local" => some do
    for word in words do
      match definition? word with
      | some (variableName, value) =>
        modify (·.assign variableName value)
        if name = "export" then modify (·.handOn variableName)
      | none => if name = "export" then modify (·.handOn word)
    done 0
  | "unset" => some do
    modify fun s => { s with bindings := s.bindings.filter fun v => !words.contains v.1 }
    done 0
  | "read" => some do
    let s ← get
    let (first, rest) := takeLine s.input
    let text := (Text.Utf8.decodeLossy first).toList
    let fields := (Fields.none.addDivided text).toList
    set { assignFields s (words.filter (· ≠ "-r")) fields with input := rest }
    done (statusOf (first.length < s.input.length))
  | _ => none
where
  /-- Decides a condition. -/
  condition (name : String) (words : List String) : StateM State Flow := do
    match Condition.holds (← get).fs words with
    | .ok success => done (statusOf success)
    | .error text => failing line (name ++ ": " ++ text) 2

/-- The content of files one after another; a file that cannot be read is complained about. -/
def concatenate (paths : List String) : StateM State Flow := do
  let mut status := 0
  for path in paths do
    let s ← get
    if path = "-" then
      set { s.emit s.output s.input with input := [] }
    else
      match s.fs.read path with
      | .ok content => set (s.emit s.output content)
      | .error fault =>
        let reason := if fault = .notFound then "No such file or directory" else faultText fault
        let message := "cat: " ++ path ++ ": " ++ reason ++ "\n"
        set (s.emit s.errors (Text.Utf8.encode message))
        status := 1
  done status

/-- The numbers of a sequence, a line each. -/
def sequenceLines (words : List String) : Bytes :=
  let (first, last) : Int × Int :=
    match words.filterMap wholeNumber? with
    | [last] => (1, last)
    | [first, last] => (first, last)
    | _ => (1, 0)
  (List.range (last - first + 1).toNat).flatMap fun (i : Nat) =>
    Text.Utf8.encode (toString (first + (i : Int)) ++ "\n")

/-! ## Running -/

/-- What a shell is asked to run. -/
inductive Source where
  /-- The text of a script, with the name it goes by and its arguments. -/
  | text (script name : String) (arguments : List String)
  | file (path : String) (arguments : List String)
  | input
  /-- The script that was announced is missing. -/
  | missing

/-- Reads the arguments of a shell. -/
def source (shell : String) : List String → Source
  | [] => .input
  | "-c" :: [] => .missing
  | "-c" :: script :: [] => .text script shell []
  | "-c" :: script :: name :: arguments => .text script name arguments
  | path :: arguments => .file path arguments

/-- Runs a command whose changes to variables and arguments do not last. -/
def apart (body : StateM State Flow) : StateM State Flow := do
  let before ← get
  let _ ← body
  modify ({ · with bindings := before.bindings, arguments := before.arguments })
  return .next

/-- Runs a command apart and keeps what it prints. -/
def keeping (body : StateM State Flow) : StateM State Bytes := do
  let before ← get
  let channel := before.nextChannel
  set { before with output := .channel channel, nextChannel := channel + 1 }
  let _ ← apart body
  let bytes := (← get).onChannel channel
  modify fun s =>
    { s.withoutChannel channel with output := before.output, nextChannel := channel }
  return bytes

/-- Runs a command with redirections in force. -/
def redirected (capture : String → StateM State Bytes) (fuel line : Nat) (redirects : List Redirect)
    (body : StateM State Flow) : StateM State Flow := do
  let before ← get
  let applied ← ExceptT.run do
    for redirect in redirects do
      let target ← expandText capture fuel redirect.target
      redirectTo redirect.stream redirect.operator target
  match applied with
  | .error text =>
    modify ({ · with output := before.output, errors := before.errors, input := before.input })
    failing line text 2
  | .ok () =>
    let flow ← body
    let replaced := redirects.any fun r => r.operator == "<"
    modify fun s =>
      { s with
        output := before.output
        errors := before.errors
        input := if replaced then before.input else s.input }
    return flow

mutual

/-- Runs a command. -/
def run : Nat → Command → StateM State Flow
  | 0, _ => return .exit
  | fuel + 1, command =>
    let capture (text : String) : StateM State Bytes :=
      match script? text with
      | some inner => keeping (run fuel inner)
      | none => pure []
    match command with
    | .nothing => return .next
    | .sequence first second => do
      match ← run fuel first with
      | .next => run fuel second
      | flow => return flow
    | .both first second => do
      match ← run fuel first with
      | .next => if (← get).status = 0 then run fuel second else return .next
      | flow => return flow
    | .either first second => do
      match ← run fuel first with
      | .next => if (← get).status = 0 then return .next else run fuel second
      | flow => return flow
    | .negation inner => do
      let flow ← run fuel inner
      modify fun s => { s with status := statusOf (s.status ≠ 0) }
      return flow
    | .pipeline first second => do
      let bytes ← keeping (run fuel first)
      let input := (← get).input
      modify ({ · with input := bytes })
      let _ ← apart (run fuel second)
      modify ({ · with input := input })
      return .next
    | .conditional test body otherwise => do
      match ← run fuel test with
      | .next =>
        if (← get).status = 0 then run fuel body
        else do
          let _ ← done 0
          run fuel otherwise
      | flow => return flow
    | .loop wanted test body => do
      match ← run fuel test with
      | .next =>
        if ((← get).status = 0) = wanted then
          match ← run fuel body with
          | .next => run fuel (.loop wanted test body)
          | .again 0 => run fuel (.loop wanted test body)
          | .again (n + 1) => return .again n
          | .leave (n + 2) => return .leave (n + 1)
          | .leave _ => return .next
          | flow => return flow
        else done 0
      | flow => return flow
    | .iteration name words body => do
      let fields ←
        match words with
        | none => pure (.ok (← get).arguments)
        | some words => ExceptT.run do
          return (← words.mapM (expandWord capture fuel)).flatten
      match fields with
      | .ok [] => return .next
      | .ok (field :: rest) =>
        modify (·.assign name field)
        let again := Command.iteration name (some (rest.map fun f => [.text f true])) body
        match ← run fuel body with
        | .next => run fuel again
        | .again 0 => run fuel again
        | .again (n + 1) => return .again n
        | .leave (n + 2) => return .leave (n + 1)
        | .leave _ => return .next
        | flow => return flow
      | .error text => do
        let _ ← failing 1 text 2
        return .exit
    | .choice _ [] => done 0
    | .choice subject ((patterns, body) :: rest) => do
      let found ← ExceptT.run do
        let text ← expandText capture fuel subject
        let patterns ← patterns.mapM (expandPattern capture fuel)
        let hit := patterns.any fun p => hasPattern (p.length + text.length + 1) p text.toList
        return (text, hit)
      match found with
      | .ok (_, true) => run fuel body
      | .ok (text, false) => run fuel (.choice [.text text true] rest)
      | .error text => do
        let _ ← failing 1 text 2
        return .exit
    | .group inner redirects => redirected capture fuel 1 redirects (run fuel inner)
    | .definition name body => do
      modify fun s => { s with functions := (name, body) :: s.functions }
      done 0
    | .subshell inner redirects => redirected capture fuel 1 redirects (apart (run fuel inner))
    | .simple line assignments words redirects => do
      let expanded ← ExceptT.run do
        let fields := (← words.mapM (expandWord capture fuel)).flatten
        let values ← assignments.mapM fun (name, word) => do
          return (name, ← expandText capture fuel word)
        return (fields, values)
      match expanded with
      | .error text => do
        let _ ← failing line text 2
        return .exit
      | .ok ([], values) =>
        redirected capture fuel line redirects do
          for (name, value) in values do modify (·.assign name value)
          return .next
      | .ok (name :: words, values) =>
        let before ← get
        for (name, value) in values do modify fun s => (s.assign name value).handOn name
        let flow ← redirected capture fuel line redirects (call fuel line name words)
        unless values.isEmpty do
          modify ({ · with bindings := before.bindings, exported := before.exported })
        return flow

/-- Runs what a name stands for: a command of the shell, or a program. -/
def call : Nat → Nat → String → List String → StateM State Flow
  | 0, _, _, _ => return .exit
  | fuel + 1, line, name, words => do
    let before ← get
    match before.functions.lookup name, builtin? line name words, name with
    | some body, _, _ =>
      set { before with arguments := words }
      let flow ← run fuel body
      modify ({ · with arguments := before.arguments })
      return if flow = .back then .next else flow
    | none, some flow, _ => flow
    | none, none, "command" =>
      match words with
      | [] => done 0
      | name :: words => call fuel line name words
    | none, none, "eval" =>
      match script? (" ".intercalate words) with
      | some command => run fuel command
      | none => failing line "Syntax error" 2
    | none, none, "exec" =>
      match words with
      | [] => done 0
      | name :: words => do
        let _ ← call fuel line name words
        return .exit
    | none, none, _ =>
      if name.toList.contains '/' then
        match before.fs.resolve name with
        | .ok (.existing _ (.program program)) => launch fuel name program words
        | .ok (.existing _ _) => failing line (name ++ ": Permission denied") 126
        | _ => failing line (name ++ ": not found") 127
      else if FileSystem.installed.contains name then launch fuel name name words
      else failing line (name ++ ": not found") 127

/-- Runs an installed program that was started under a name. -/
def launch : Nat → String → String → List String → StateM State Flow
  | 0, _, _, _ => return .exit
  | fuel + 1, name, program, words => do
    match program with
    | "true" => done 0
    | "false" => done 1
    | "echo" => print (echoPlain words) 0
    | "printf" =>
      match if words.head? = some "--" then words.tail else words with
      | [] =>
        aborting (name ++ ": missing operand\nTry '" ++ name ++ " --help' for more information.") 1
      | format :: words =>
        let (bytes, fits) := printf format words
        print bytes (statusOf fits)
    | "cat" => concatenate (if words.isEmpty then ["-"] else words)
    | "seq" => print (sequenceLines words) 0
    | "sleep" => done 0
    | "env" =>
      match words.dropWhile fun word => (definition? word).isSome with
      | [] => done 0
      | target :: words =>
        if FileSystem.installed.contains target then launch fuel target target words
        else aborting ("env: '" ++ target ++ "': No such file or directory") 127
    | "test" =>
      match Condition.holds (← get).fs words with
      | .ok success => done (statusOf success)
      | .error text => aborting (name ++ ": " ++ text) 2
    | "[" =>
      match Condition.holds (← get).fs words.dropLast with
      | .ok success => done (statusOf success)
      | .error text => aborting (name ++ ": " ++ text) 2
    | _ =>
      match source name words with
      | .missing => aborting (name ++ ": 0: -c requires an argument") 2
      | .text script scriptName arguments => interpret fuel script scriptName arguments
      | .input => do
        let script := Text.Utf8.decodeLossy (← get).input
        modify ({ · with input := [] })
        interpret fuel script name []
      | .file path arguments =>
        match (← get).fs.read path with
        | .ok content => interpret fuel (Text.Utf8.decodeLossy content) path arguments
        | .error .isADirectory => done 0
        | .error fault =>
          aborting (name ++ ": 0: cannot open " ++ path ++ ": " ++ faultText fault) 2

/-- Runs a script under a name and with arguments of its own. -/
def interpret : Nat → String → String → List String → StateM State Flow
  | 0, _, _, _ => return .exit
  | fuel + 1, script, name, arguments => do
    let before ← get
    set
      { before with
        name := name
        arguments := arguments
        bindings := before.bindings.filter fun v => before.exported.contains v.1
        functions := []
        status := 0 }
    match script? script with
    | some command => let _ ← run fuel command
    | none => modify fun s => s.complain 1 "Syntax error: end of file unexpected" 2
    modify fun s =>
      { s with
        name := before.name
        arguments := before.arguments
        bindings := before.bindings
        exported := before.exported
        functions := before.functions }
    return .next

end

/-- How much fuel a program gets. -/
def fuelLimit : Nat := 1000000

/-- Runs an installed program that was started under a name, and gives the state it leaves. -/
def runProgram (fs : FileSystem) (name program : String) (words : List String) : State :=
  (launch fuelLimit name program words (State.start fs name [])).2

end TimeTrials.Host.Shell
