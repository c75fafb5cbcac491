import ContentCatalog.Failure
import ContentCatalog.Text.Lines

/-!
# Texts on a disk

Files hold bytes.  As a text they are read strictly as UTF-8, with all line ends
made equal, and written as they are.
-/

namespace ContentCatalog.Disk

/-- The characters of a file's bytes. -/
def decodeText (content : ByteArray) : Except Failure (List Char) :=
  match Text.Utf8.decode content.toList with
  | .ok chars => .ok (Text.unifyBreaks chars)
  | .error fault => .error (.encoding fault)

/-- The characters of the file at a place. -/
def readText (disk : Tree) (place : Place) : Except Failure (List Char) := do
  decodeText (← (readBytes disk place).mapError .disk)

end ContentCatalog.Disk
