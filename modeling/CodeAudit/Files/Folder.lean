import CodeAudit.Failure
import CodeAudit.Files.Path

namespace CodeAudit

inductive Folder where
  | empty
  | file (name : Text) (content : ByteArray) (others : Folder)
  | sub (name : Text) (inside others : Folder)
  deriving DecidableEq

inductive Entry where
  | file (content : ByteArray)
  | folder (inside : Folder)

structure Visit where
  folder : Text
  name : Text
  content : Except ReadFailure ByteArray

namespace Visit

def path (v : Visit) : Text :=
  Path.inFolder v.folder v.name

end Visit

namespace Folder

def putFile (name : Text) (content : ByteArray) : Folder → Folder
  | empty => file name content empty
  | file n c others =>
    if n = name then file n content others
    else if name < n then file name content (file n c others)
    else file n c (putFile name content others)
  | sub n inside others =>
    if name < n then file name content (sub n inside others)
    else sub n inside (putFile name content others)

def changeSub (name : Text) (f : Folder → Folder) : Folder → Folder
  | empty => sub name (f empty) empty
  | file n c others =>
    if name < n then sub name (f empty) (file n c others)
    else file n c (changeSub name f others)
  | sub n inside others =>
    if n = name then sub n (f inside) others
    else if name < n then sub name (f empty) (sub n inside others)
    else sub n inside (changeSub name f others)

def put : List Text → ByteArray → Folder → Folder
  | [], _, d => d
  | [name], content, d => d.putFile name content
  | name :: path, content, d => d.changeSub name (put path content)

def entry? (name : Text) : Folder → Option Entry
  | empty => none
  | file n content others => if n = name then some (.file content) else others.entry? name
  | sub n inside others => if n = name then some (.folder inside) else others.entry? name

def follow : (above : List Folder) → Folder → List Text → Except ReadFailure Entry
  | _, d, [] => .ok (.folder d)
  | above, d, name :: path =>
    if name = [] ∨ name = ['.'] then follow above d path
    else if name = ['.', '.'] then
      match above with
      | [] => .error .missing
      | a :: above => follow above a path
    else match d.entry? name with
      | none => .error .missing
      | some (.folder inside) => follow (d :: above) inside path
      | some (.file content) => if path.isEmpty then .ok (.file content) else .error .throughFile

/-- What a path leads to, seen from the folder that a tool runs in. Nothing is known of what lies
outside of this folder: an absolute path and one that leads out of it are taken to lead nowhere. -/
def find (d : Folder) (path : Text) : Except ReadFailure Entry :=
  if path.isEmpty || Path.isAbsolute path then .error .missing else follow [] d (Path.parts path)

def read (d : Folder) (path : Text) : Except ReadFailure ByteArray := do
  match ← d.find path with
  | .file content => return content
  | .folder _ => throw .isFolder

def files : Folder → List (Text × ByteArray)
  | empty => []
  | file name content others => (name, content) :: others.files
  | sub _ _ others => others.files

def visitsOf (path : Text) (d : Folder) : List Visit :=
  d.files.map fun (name, content) => ⟨path, name, .ok content⟩

def subPath (path name : Text) : Text :=
  if path.getLast? == some '/' then path ++ name else Path.inFolder path name

def subVisits (path : Text) : Folder → List Visit
  | empty => []
  | file _ _ others => others.subVisits path
  | sub name inside others =>
    visitsOf (subPath path name) inside ++ inside.subVisits (subPath path name) ++
      others.subVisits path

def visits (path : Text) (d : Folder) : List Visit :=
  visitsOf path d ++ d.subVisits path

def walk (d : Folder) (path : Text) : List Visit :=
  match d.find path with
  | .ok (.folder inside) => inside.visits path
  | _ => []

end Folder

end CodeAudit
