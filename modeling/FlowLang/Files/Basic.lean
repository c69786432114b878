/-!
# Access to files

What reads files is written for any way to reach them.

* `Files` : how files are reached, with effects in some monad.
* `ReadFailure` : why a file could not be read.
* `decodeText` : the text in the bytes of a file.
* `dropByteOrderMark` : what comes behind the mark that some files begin with.
-/

namespace FlowLang

/-- Why a file could not be read. -/
inductive ReadFailure where
  | notFound
  | notADirectory
  | isADirectory
  | nameTooLong
  | notText
  | other (reason : String)
deriving DecidableEq, Repr

/-- The reason in words, as the system gives it. -/
def ReadFailure.message : ReadFailure → String
  | notFound => "No such file or directory (os error 2)"
  | notADirectory => "Not a directory (os error 20)"
  | isADirectory => "Is a directory (os error 21)"
  | nameTooLong => "File name too long (os error 36)"
  | notText => "stream did not contain valid UTF-8"
  | other reason => reason

/-- The text in the bytes of a file, which have to be UTF-8 throughout. -/
def decodeText (bytes : ByteArray) : Except ReadFailure String :=
  match String.fromUTF8? bytes with
  | some text => .ok text
  | none => .error .notText

/-- The characters of a file without a byte order mark in front. -/
def dropByteOrderMark : List Char → List Char
  | '\ufeff' :: cs => cs
  | cs => cs

/-- A way to reach files by their paths. -/
structure Files (m : Type → Type) where
  /-- There is a file at this path, and no directory. -/
  isFile : String → m Bool
  /-- The bytes of the file at this path. -/
  read : String → m (Except ReadFailure ByteArray)

/-- The text of the file at this path. -/
def Files.readText {m : Type → Type} [Monad m] (files : Files m) (path : String) :
    m (Except ReadFailure String) := do
  return (← files.read path).bind decodeText

end FlowLang
