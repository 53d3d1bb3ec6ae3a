import VersionFloor.Text.Utf8

/-!
# Files: what can go wrong with them

Every failure has one of few causes.  Some of them a file tree shows by itself; the others come from
outside, such as rights that are missing, a disk that is full and a device that fails (`Faults`).
-/

namespace VersionFloor

open Text

inductive FileError where
  | notFound
  | inputOutput
  | accessDenied
  | exists
  | notDirectory
  | isDirectory
  | tooLarge
  | noSpace
  | readOnly
  | nameTooLong
  | tooManyLinks
  | quotaExceeded
  | zeroByte
  | notText
  deriving DecidableEq, Repr

def FileError.message : FileError → String
  | .notFound => "No such file or directory (os error 2)"
  | .inputOutput => "Input/output error (os error 5)"
  | .accessDenied => "Permission denied (os error 13)"
  | .exists => "File exists (os error 17)"
  | .notDirectory => "Not a directory (os error 20)"
  | .isDirectory => "Is a directory (os error 21)"
  | .tooLarge => "File too large (os error 27)"
  | .noSpace => "No space left on device (os error 28)"
  | .readOnly => "Read-only file system (os error 30)"
  | .nameTooLong => "File name too long (os error 36)"
  | .tooManyLinks => "Too many levels of symbolic links (os error 40)"
  | .quotaExceeded => "Disk quota exceeded (os error 122)"
  | .zeroByte => "file name contained an unexpected NUL byte"
  | .notText => "stream did not contain valid UTF-8"

/-- how the writing of a file fails -/
inductive WriteFault where
  /-- before anything is done -/
  | refused (e : FileError)
  /-- when the file is there, empty at first, and this many bytes are in it -/
  | broken (written : Nat) (e : FileError)
  deriving DecidableEq, Repr

namespace WriteFault

def error : WriteFault → FileError
  | .refused e => e
  | .broken _ e => e

/-- what the file holds then; absent when nothing was done to it -/
def kept? (content : Bytes) : WriteFault → Option Bytes
  | .refused _ => none
  | .broken written _ => some (content.take written)

end WriteFault

/-- The faults that a file tree does not show, by the names from the root: of directories that are
listed or made, of what is opened to be read, and of files that are written.  A directory that can
be listed is listed to its end. -/
structure Faults where
  listing : List String → Option FileError
  reading : List String → Option FileError
  making : List String → Option FileError
  writing : List String → Option WriteFault

namespace Faults

def none : Faults := ⟨fun _ => .none, fun _ => .none, fun _ => .none, fun _ => .none⟩

end Faults

end VersionFloor
