import AccessTrace.Log.Format
import AccessTrace.Text.Blank

/-!
Reading logs back. In a text log, blank lines and header lines are passed over and every other
line has to be a record; the first one that is not is named by its number. In a binary log the
length has to be a whole number of records.
-/

namespace AccessTrace

namespace TextLog

/-- Reads a hexadecimal number after `0x`. -/
def readHex? : List Char → Option Word
  | '0' :: 'x' :: digits => Text.readWord? 16 digits
  | _ => none

def readDirection? : List Char → Option Direction
  | ['r'] => some .read
  | ['w'] => some .write
  | _ => none

/-- Reads the four fields of a line. -/
def readLine? (line : List Char) : Option Record :=
  match Text.pieces ',' line with
  | [origin, direction, size, address] => do
    let origin ← readHex? origin
    let direction ← readDirection? direction
    let size ← Text.readWord? 10 size
    let address ← readHex? address
    return .of direction.isWrite address size origin
  | _ => none

/-- Whether a line, free of blanks at its ends, is passed over. -/
def isSkipped (line : List Char) : Bool :=
  line.isEmpty || "Format:".toList.isPrefixOf line

/-- Reads lines, the first of which has the given number. -/
def readLines (number : Nat) : List (List Char) → Except LogError (List Record)
  | [] => .ok []
  | line :: rest =>
    let line := Text.trim line
    if isSkipped line then readLines (number + 1) rest
    else
      match readLine? line with
      | none => .error (.malformedLine number (String.ofList line))
      | some r => return r :: (← readLines (number + 1) rest)

/-- The lines before the first one that is not UTF-8. -/
def validLines (bytes : List UInt8) : List (List Char) :=
  let lines := (Text.pieces (10 : UInt8) bytes).map fun line => String.fromUTF8? ⟨line.toArray⟩
  (lines.takeWhile (·.isSome)).filterMap fun line => line.map String.toList

/-- Reads a text log. Text that is not UTF-8 is refused, once the lines before it are read. -/
def read (bytes : List UInt8) : Except LogError (List Record) :=
  match String.fromUTF8? ⟨bytes.toArray⟩ with
  | some text => readLines 1 (Text.pieces '\n' text.toList)
  | none => do
    discard <| readLines 1 (validLines bytes)
    throw (.io .invalidText)

end TextLog

namespace BinaryLog

/-- Reads a binary log. -/
def read (bytes : List UInt8) : Except LogError (List Record) :=
  let length := bytes.length
  if length % Record.length ≠ 0 then .error (.truncated (length % Record.length))
  else .ok (Record.readMany (length / Record.length) bytes)

end BinaryLog

def LogFormat.read (format : LogFormat) (bytes : List UInt8) : Except LogError (List Record) :=
  match format with
  | text => TextLog.read bytes
  | binary => BinaryLog.read bytes

end AccessTrace
