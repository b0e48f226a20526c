import RuleTable.Host

/-!
A folder in memory, as the disk of a machine: files by their names, which may lead through folders
below it.
-/

namespace RuleTable

/-- A folder: the files in it and in the folders below. -/
structure Folder where
  files : List (String × String) := []
  deriving Repr

abbrev FolderM := StateM Folder

namespace Folder

inductive Place
  | file (name text : String)
  | folder
  | absent (name : String)
  | fault (trouble : FileTrouble)

/-- The names on a path. A point stays where it is, two points lead back. -/
def names (path : String) : List String :=
  ((path.splitOn "/").filter fun s => !s.isEmpty && s != ".").foldl
    (fun done s => if s == ".." then done.dropLast else done ++ [s]) []

def isFolder (f : Folder) (name : String) : Bool :=
  name.isEmpty || f.files.any fun (n, _) => (name ++ "/").toList.isPrefixOf n.toList

def longestName : Nat := 255

/-- Follows a path. -/
def place (f : Folder) (path : String) : Place :=
  if path.isEmpty then .fault .absent
  else if path.toList.contains '\x00' then .fault (.other "invalid argument")
  else
    let steps := names path
    let name := "/".intercalate steps
    let above := (List.range steps.length).map fun i => "/".intercalate (steps.take i)
    if above.any fun n => (f.files.lookup n).isSome then .fault (.other "not a directory")
    else if above.any fun n => !f.isFolder n then .fault .absent
    else if steps.any (longestName < ·.utf8ByteSize) then .fault (.other "file name too long")
    else
      match f.files.lookup name with
      | some text =>
        if path.endsWith "/" then .fault (.other "not a directory") else .file name text
      | none => if f.isFolder name then .folder else .absent name

def read (f : Folder) (path : String) : Reading :=
  match f.place path with
  | .file _ text => .ok text
  | .folder => .error ⟨"read", path, .isDirectory⟩
  | .absent _ => .error ⟨"open", path, .absent⟩
  | .fault trouble => .error ⟨"open", path, trouble⟩

def put (f : Folder) (name text : String) : Folder :=
  { files := (name, text) :: f.files.filter (·.1 != name) }

/-- Writes a file at a path. A path that ends in a slash cannot be that of a file. -/
def write (f : Folder) (path text : String) : Option WriteFault × Folder :=
  let fails (trouble : FileTrouble) : Option WriteFault × Folder :=
    (some (.create (FileFault.cause ⟨"open", path, trouble⟩)), f)
  match f.place path with
  | .fault trouble => fails trouble
  | .folder => fails .isDirectory
  | .absent name => if path.endsWith "/" then fails .isDirectory else (none, f.put name text)
  | .file name _ => (none, f.put name text)

def host (environment : Environment) : Host FolderM where
  read path := return (← get).read path
  write path text := modifyGet fun f => f.write path text
  environment := environment

end Folder

end RuleTable
