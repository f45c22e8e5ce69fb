/-!
# File faults

What can go wrong when a file is looked up, read, or written. The codes are those of the system.
-/

namespace CatalogAudit
namespace FileTree

inductive Fault where
  | notFound
  | exists
  | notDirectory
  | isDirectory
  | nameTooLong
  | tooManyLinks
  | notUtf8
  | nulInPath
deriving DecidableEq, Repr

def Fault.code? : Fault → Option Nat
  | .notFound => some 2
  | .exists => some 17
  | .notDirectory => some 20
  | .isDirectory => some 21
  | .nameTooLong => some 36
  | .tooManyLinks => some 40
  | .notUtf8 => none
  | .nulInPath => none

def Fault.description : Fault → String
  | .notFound => "No such file or directory"
  | .exists => "File exists"
  | .notDirectory => "Not a directory"
  | .isDirectory => "Is a directory"
  | .nameTooLong => "File name too long"
  | .tooManyLinks => "Too many levels of symbolic links"
  | .notUtf8 => "stream did not contain valid UTF-8"
  | .nulInPath => "file name contained an unexpected NUL byte"

def Fault.message (f : Fault) : String :=
  match f.code? with
  | some code => f.description ++ " (os error " ++ toString code ++ ")"
  | none => f.description

end FileTree
end CatalogAudit
