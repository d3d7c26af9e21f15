import Pushdown.Text.Path

/-!
Files as the commands see them: a way to read the text of a path, and to ask whether a path leads to a file.

`FileAccess` leaves open where the files are. `FileSet` holds files in memory. Paths are followed from part to part, so
that of several faults in a path the first one counts.
-/

namespace Pushdown

/-- Why a file cannot be read. -/
inductive ReadError where
  | notFound
  | isDirectory
  | notADirectory
  /-- The path, or a name in it, has too many bytes. -/
  | nameTooLong
  /-- The path has a character that ends names where they are stored. -/
  | nulInPath
  | notUtf8
  | other (reason : String)
deriving DecidableEq, Repr

def ReadError.message : ReadError → String
  | notFound => "No such file or directory (os error 2)"
  | isDirectory => "Is a directory (os error 21)"
  | notADirectory => "Not a directory (os error 20)"
  | nameTooLong => "File name too long (os error 36)"
  | nulInPath => "file name contained an unexpected NUL byte"
  | notUtf8 => "stream did not contain valid UTF-8"
  | other reason => reason

/-- The number of bytes that a path can have. -/
def maxPathBytes : Nat := 4095

/-- The number of bytes that a name within a path can have. -/
def maxNameBytes : Nat := 255

/-- What is wrong with a path, whatever files there are. -/
def pathError? (path : String) : Option ReadError :=
  if path.toList.contains '\x00' then some .nulInPath
  else if path.isEmpty then some .notFound
  else if maxPathBytes < path.utf8ByteSize then some .nameTooLong
  else none

/-- Access to files within a monad. -/
structure FileAccess (m : Type → Type) where
  read : String → m (Except ReadError String)
  /-- Whether the path leads to something that is not a folder. -/
  isFile : String → m Bool

/-- Files in memory, by the parts of their paths from the root. The folders that they are in are there as well. -/
structure FileSet where
  files : List (List String × ByteArray)
  /-- Folders that are there even if they are empty. -/
  folders : List (List String)
  /-- The folder where paths begin that do not begin at the root. -/
  current : List String

namespace FileSet

/-- What a path leads to. -/
inductive Found where
  | file (content : ByteArray)
  | folder

/-- Whether there is a folder of this path. -/
def hasFolder (set : FileSet) (path : List String) : Bool :=
  (set.current :: set.folders ++ set.files.map (·.1.dropLast)).any path.isPrefixOf

/-- Follows the parts of a path from a folder. Above the root there is the root again. -/
def walk (set : FileSet) (folder : List String) : List String → Except ReadError Found
  | [] => .ok .folder
  | part :: rest =>
    if part.isEmpty || part = "." then walk set folder rest
    else if part = ".." then walk set folder.dropLast rest
    else if maxNameBytes < part.utf8ByteSize then .error .nameTooLong
    else
      let path := folder ++ [part]
      match set.files.lookup path with
      | some content => if rest.isEmpty then .ok (.file content) else .error .notADirectory
      | none => if set.hasFolder path then walk set path rest else .error .notFound

/-- What a path leads to. -/
def find (set : FileSet) (path : String) : Except ReadError Found :=
  match pathError? path with
  | some error => .error error
  | none => set.walk (if Text.Path.isAbsolute path then [] else set.current) (Text.Path.parts path)

def read (set : FileSet) (path : String) : Except ReadError String :=
  match set.find path with
  | .ok (.file content) =>
    match String.fromUTF8? content with
    | some text => .ok text
    | none => .error .notUtf8
  | .ok .folder => .error .isDirectory
  | .error error => .error error

def isFile (set : FileSet) (path : String) : Bool :=
  match set.find path with
  | .ok (.file _) => true
  | _ => false

/-- Access to the files of a set. -/
def access (set : FileSet) : FileAccess Id := ⟨set.read, set.isFile⟩

/-- The path of the current folder. -/
def currentPath (set : FileSet) : String := "/" ++ "/".intercalate set.current

end FileSet

end Pushdown
