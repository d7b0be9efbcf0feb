import Placement.Keyed
import Placement.Suite.InstanceText

/-!
# Data folders

A folder of instance files as it was found: plain files with their bytes, and empty folders. Looking
up a path and reading it fail for the same reasons as on a file system.
-/

namespace Placement

/-- What a name in a folder stands for. -/
inductive FolderEntry where
  | file (bytes : ByteArray)
  | folder

/-- A folder: where it is, and what is in it. -/
structure Folder where
  path : String
  entries : Keyed FolderEntry

namespace Folder

/-- Why a path cannot be read. -/
inductive ReadFault where
  | notFound
  | notFolder
  | isFolder
  | notText
deriving DecidableEq, Repr

def ReadFault.message : ReadFault → String
  | notFound => "No such file or directory (os error 2)"
  | notFolder => "Not a directory (os error 20)"
  | isFolder => "Is a directory (os error 21)"
  | notText => "stream did not contain valid UTF-8"

/-- Where a walk along a path stands: in the folder itself, at one of its entries, or outside. -/
inductive Place where
  | top
  | at (entry : FolderEntry)
  | outside

/-- Whether a part of a path stays where the walk stands. -/
def stays (part : String) : Bool := part = "" || part = "."

/-- The part of a path that leaves a folder. -/
def leave : String := ".."

/-- Follows one more part of a path. Only a folder can be entered or left. The folders inside are
empty, and nothing is found outside. -/
def follow (f : Folder) : Place → String → Except ReadFault Place
  | .at (.file _), _ => .error .notFolder
  | .at .folder, part =>
    if stays part then .ok (.at .folder) else if part = leave then .ok .top else .error .notFound
  | .top, part =>
    if stays part then .ok .top
    else if part = leave then .ok .outside
    else
      match f.entries[part]? with
      | some entry => .ok (.at entry)
      | none => .error .notFound
  | .outside, part => if stays part || part = leave then .ok .outside else .error .notFound

def parts (path : String) : List String :=
  ((path.toList.splitOn '/').map String.ofList)

/-- What a path within the folder leads to. -/
def find (f : Folder) (path : String) : Except ReadFault Place := (parts path).foldlM f.follow .top

def isFile (f : Folder) (path : String) : Bool :=
  match f.find path with
  | .ok (.at (.file _)) => true
  | _ => false

def readText (f : Folder) (path : String) : Except ReadFault String := do
  match ← f.find path with
  | .at (.file bytes) =>
    match String.fromUTF8? bytes with
    | some text => pure text
    | none => throw .notText
  | _ => throw .isFolder

/-- How a path within the folder is shown. -/
def display (f : Folder) (path : String) : String := f.path ++ "/" ++ path

def loadInstance (f : Folder) (path : String) : Except Failure (Matrix Float × Matrix Float) :=
  match f.readText path with
  | .error fault =>
    .error (Failure.context ("reading " ++ f.display path) (.other fault.message))
  | .ok text => InstanceText.parse text

end Folder

end Placement
