/-
  HybridAccess — why the host refuses something.

  Most reasons are numbered errors of the operating system; the number stands
  in their text. The others are found before the operating system is asked, or
  after it has answered.
-/

namespace HybridAccess.Host

/-- Why a file, a program or a socket cannot be used. -/
inductive Failure
  /-- Only a privileged user may do this. -/
  | notPermitted
  /-- There is no such file. -/
  | notFound
  /-- There is a name for a device, but no device. -/
  | noDevice
  /-- The arguments or the environment of a program are too long. -/
  | argumentsTooLong
  /-- The file may not be used like this. -/
  | permissionDenied
  /-- There is such a file already. -/
  | alreadyExists
  /-- A directory is needed and something else is there. -/
  | notADirectory
  /-- Something else is needed and a directory is there. -/
  | isADirectory
  /-- What is written has no room. -/
  | noSpace
  /-- A path, or a name in it, is too long. -/
  | nameTooLong
  /-- A path has a character that ends it. -/
  | terminatedPath
  /-- The words that start a program have a character that ends them. -/
  | terminatedWord
  /-- What was read is no text. -/
  | notText
deriving DecidableEq, Repr

namespace Failure

/-- The name and the number of an error of the operating system. -/
def numbered (name : String) (number : Nat) : String :=
  name ++ s!" (os error {number})"

/-- The text of a reason. -/
def message : Failure → String
  | notPermitted => numbered "Operation not permitted" 1
  | notFound => numbered "No such file or directory" 2
  | noDevice => numbered "No such device or address" 6
  | argumentsTooLong => numbered "Argument list too long" 7
  | permissionDenied => numbered "Permission denied" 13
  | alreadyExists => numbered "File exists" 17
  | notADirectory => numbered "Not a directory" 20
  | isADirectory => numbered "Is a directory" 21
  | noSpace => numbered "No space left on device" 28
  | nameTooLong => numbered "File name too long" 36
  | terminatedPath => "file name contained an unexpected NUL byte"
  | terminatedWord => "nul byte found in provided data"
  | notText => "stream did not contain valid UTF-8"

end Failure

end HybridAccess.Host
