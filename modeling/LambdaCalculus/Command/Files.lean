import LambdaCalculus.Text.Basic

/-!
# Files

What the program needs to know about files: their bytes, why they cannot be
read, and the name under which the log shows them.
-/

namespace LambdaCalculus

/-- Why a file cannot be read. -/
inductive FileError
  /-- Nothing has the path. -/
  | missing
  /-- The path goes through something that is no directory. -/
  | notDirectory
  /-- The path, or a name in it, is too long. -/
  | nameTooLong
  /-- The system refuses for another reason. -/
  | refused (reason : Text)
  /-- The path leads to something that is no file. -/
  | notRegular
deriving DecidableEq

/-- The text of an error about a path. -/
def FileError.message
    (path : Text) : FileError -> Text
  | .missing => "cannot open '" ++ path ++ "': No such file or directory"
  | .notDirectory => "cannot open '" ++ path ++ "': Not a directory"
  | .nameTooLong => "cannot open '" ++ path ++ "': File name too long"
  | .refused reason => "cannot open '" ++ path ++ "': " ++ reason
  | .notRegular => "cannot read '" ++ path ++ "': not a regular file"

/-- The three bytes that may mark the start of a UTF-8 file. -/
def byteOrderMark : Text := [0xEF, 0xBB, 0xBF]

/-- The text without a byte order mark at its start. -/
def dropByteOrderMark (content : Text) : Text :=
  if byteOrderMark.isPrefixOf content then
    content.drop byteOrderMark.length
  else
    content

/-- The byte that some systems put in front of a line feed. -/
def carriageReturn : UInt8 := 13

/-- The text of a file from its bytes: a byte order mark at the start and all
carriage returns are left out. -/
def fileText (content : Text) : Text :=
  (dropByteOrderMark content).filter (· != carriageReturn)

/-- The files that the program can see. -/
structure Files where
  /-- The bytes of the file with a path. -/
  read : Text -> Except FileError Text
  /-- The name under which the log shows a path. -/
  canonical : Text -> Text

/-- The text of the file with a path. -/
def Files.textOf
    (files : Files)
    (path : Text) : Except FileError Text :=
  (files.read path).map fileText

end LambdaCalculus
