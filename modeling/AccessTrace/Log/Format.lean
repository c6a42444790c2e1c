import AccessTrace.Log.Error
import AccessTrace.Record.Layout

/-!
The two formats of a log. A text log has a header line and one line for each record; a binary log
is nothing but records in their memory layout.
-/

namespace AccessTrace

inductive LogFormat where
  | text
  | binary
deriving DecidableEq, Repr

def LogFormat.name : LogFormat → String
  | text => "text"
  | binary => "binary"

def LogFormat.title : LogFormat → String
  | text => "Text"
  | binary => "Binary"

/-- The UTF-8 bytes of a text. -/
def utf8 (text : String) : List UInt8 :=
  text.toUTF8.data.toList

namespace TextLog

/-- The first line of every text log. -/
def headerLine : String :=
  "Format: <instr address>,<(r)ead/(w)rite>,<data size>,<data address>\n"

/-- The line of one record: where the instruction stands, the direction, the size, and where the
access went. -/
def line (r : Record) : String :=
  Text.hexPadded r.origin ++ "," ++ String.singleton r.direction.letter ++ "," ++
    toString r.size.toNat ++ "," ++ Text.hexPadded r.address ++ "\n"

/-- The lines of a batch. -/
def lines (batch : List Record) : String :=
  String.join (batch.map line)

end TextLog

/-- What a log starts with. -/
def LogFormat.header : LogFormat → List UInt8
  | text => utf8 TextLog.headerLine
  | binary => []

/-- The bytes that a batch of records adds to a log. -/
def LogFormat.encode (format : LogFormat) (batch : List Record) : List UInt8 :=
  match format with
  | text => utf8 (TextLog.lines batch)
  | binary => batch.flatMap Record.toBytes

end AccessTrace
