/-!
# Faults of the host system

What the operating system answers when a file or a program cannot be used.
-/

namespace TimeTrials.Host

/-- Why the host refuses. -/
inductive SystemFault where
  | notFound
  | permissionDenied
  | notADirectory
  | isADirectory
  | noSpace
  | nameTooLong
  /-- A word of a command holds the byte that ends words. -/
  | nulByte
  /-- A path holds that byte. -/
  | nulInPath
  /-- There is no word to start. -/
  | emptyCommand
  /-- The content of a file is not text. -/
  | notText
  /-- Any other answer, in its own words. -/
  | other (text : String)
  deriving DecidableEq

/-- The wording of a fault. -/
def SystemFault.message : SystemFault → String
  | .notFound => "No such file or directory (os error 2)"
  | .permissionDenied => "Permission denied (os error 13)"
  | .notADirectory => "Not a directory (os error 20)"
  | .isADirectory => "Is a directory (os error 21)"
  | .noSpace => "No space left on device (os error 28)"
  | .nameTooLong => "File name too long (os error 36)"
  | .nulByte => "nul byte found in provided data"
  | .nulInPath => "file name contained an unexpected NUL byte"
  | .emptyCommand => "empty command"
  | .notText => "stream did not contain valid UTF-8"
  | .other text => text

end TimeTrials.Host
