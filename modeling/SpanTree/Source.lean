import SpanTree.Error
import SpanTree.Text.Utf8

/-!
# Sources

What is parsed comes as text, as bytes or as the path of a file; files are read by a
provider, which a host may replace by one of its own. A target may be any bytes. A
pattern must be text, and bytes that are none are refused at the first sequence that
is ill-formed; nothing of them is replaced or dropped.
-/

namespace SpanTree

/-- What is to be parsed. -/
inductive Source where
  | text (s : String)
  /-- raw bytes, which need be no text -/
  | bytes (b : Bytes)
  /-- a file, to be read by the provider -/
  | path (file : String)
  deriving DecidableEq, Repr

/-- Reads the bytes of the file at a path. -/
abbrev SourceProvider := String → Except Error Bytes

namespace Source

/-- The bytes of a source. -/
def read (provider : SourceProvider) : Source → Except Error Bytes
  | text s => .ok (Utf8.encode s)
  | bytes b => .ok b
  | path file => provider file

/-- The text that bytes hold, or the refusal of the first sequence that is no UTF-8. -/
def textOfBytes (b : Bytes) : Except Error String :=
  match Utf8.decode b with
  | .ok s => .ok s
  | .error bad =>
    .error (.unparseablePattern (.ofRange (LineIndex.ofBytes b) bad.start bad.stop) .notUtf8)

/-- The text of a source. -/
def readText (provider : SourceProvider) : Source → Except Error String
  | text s => .ok s
  | bytes b => textOfBytes b
  | path file => do
    let b ← provider file
    textOfBytes b

end Source

end SpanTree
