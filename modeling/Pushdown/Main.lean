import Pushdown.Command.Run

/-!
The program. Everything it does is decided by `Pushdown.Command.run`; only reading and printing happen here.
-/

namespace Pushdown

/-- The number by which the system says that a name is too long. -/
def nameTooLongCode : UInt32 := 36

/-- The reason why the system could not read a file. -/
def readErrorOf : IO.Error → ReadError
  | .noFileOrDirectory _ _ _ => .notFound
  -- The number may come with its sign turned.
  | .invalidArgument path code reason =>
    if code = nameTooLongCode ∨ code = -nameTooLongCode then .nameTooLong
    else .other (toString (IO.Error.invalidArgument path code reason))
  -- A folder can be opened like a file, but not read.
  | .inappropriateType _ code _ => if code = 21 then .isDirectory else .notADirectory
  | error => .other (toString error)

/-- The text of a file of the system. -/
def readSystemFile (path : String) : IO (Except ReadError String) := do
  if let some error := pathError? path then return .error error
  try
    let bytes ← IO.FS.readBinFile path
    match String.fromUTF8? bytes with
    | some text => return .ok text
    | none => return .error .notUtf8
  catch error => return .error (readErrorOf error)

/-- Whether a path of the system leads to a file. -/
def isSystemFile (path : String) : IO Bool := do
  try
    let handle ← IO.FS.Handle.mk path .read
    let _ ← handle.read 1
    return true
  catch _ => return false

/-- The files of the system. -/
def systemFiles : FileAccess IO := ⟨readSystemFile, isSystemFile⟩

/-- What is said of a text that is no table. The reader of tables keeps no reasons. -/
def explainRefusal (_ : String) : String := "not a table in JSON form"

end Pushdown

def main (arguments : List String) : IO UInt32 := do
  let folder ← IO.currentDir
  let outcome ← Pushdown.Command.run Pushdown.explainRefusal Pushdown.systemFiles (toString folder) arguments
  IO.print outcome.output
  IO.eprint outcome.errors
  return outcome.exitCode
