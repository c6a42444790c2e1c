/-!
What can go wrong with a log: failures of the system that it is written to or read from, and
texts that are no log.
-/

namespace AccessTrace

/-- A failure of reading or writing outside of the program. -/
inductive IoFailure where
  | notFound
  | isDirectory
  | notDirectory
  | nameTooLong
  | noSpace
  | diskFull
  | flushRefused
  /-- The text read is not valid UTF-8. -/
  | invalidText
  | other (message : String)
deriving DecidableEq, Repr

def IoFailure.message : IoFailure → String
  | notFound => "No such file or directory (os error 2)"
  | isDirectory => "Is a directory (os error 21)"
  | notDirectory => "Not a directory (os error 20)"
  | nameTooLong => "File name too long (os error 36)"
  | noSpace => "No space left on device (os error 28)"
  | diskFull => "disk full"
  | flushRefused => "flush refused"
  | invalidText => "stream did not contain valid UTF-8"
  | other message => message

inductive LogError where
  | openFailed (path : String) (cause : IoFailure)
  | writeFailed (cause : IoFailure)
  /-- The line of this number, counted from one, is no record. -/
  | malformedLine (number : Nat) (text : String)
  /-- After the last whole record there are this many bytes. -/
  | truncated (trailing : Nat)
  | io (cause : IoFailure)
deriving DecidableEq, Repr

def LogError.message : LogError → String
  | openFailed path cause => s!"Failed to open trace log {path}: {cause.message}"
  | writeFailed cause => s!"Failed to write trace batch: {cause.message}"
  | malformedLine number text => s!"Malformed trace log line {number}: {text}"
  | truncated trailing => s!"Truncated binary trace log ({trailing} trailing bytes)"
  | io cause => cause.message

end AccessTrace
