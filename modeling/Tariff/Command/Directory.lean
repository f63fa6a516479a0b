import Tariff.KeyMap

/-!
This module contains the directory a command runs in.
-/

namespace Tariff.Command

structure Directory where
  files : KeyMap String

namespace Directory

/--
The segments of a path. Segments that lead nowhere else are left out.
-/
def segments (path : String) : List String :=
  (path.splitOn "/").filter fun segment => segment != "" && segment != "."

/--
The path of a file in the directory. Paths that are empty, absolute or end in a separator are none.
-/
def name? (path : String) : Option String :=
  if path.isEmpty || path.startsWith "/" || path.endsWith "/" then
    none
  else
    match segments path with
    | [] => none
    | names => some ("/".intercalate names)

def read? (directory : Directory) (path : String) : Option String :=
  (name? path).bind directory.files.find?

/--
Whether a file can be written: it exists already, or its parent is the directory itself or the
parent of another file.
-/
def canWrite (directory : Directory) (path : String) : Bool :=
  match name? path with
  | none => false
  | some name =>
    let parents := (segments name).dropLast
    directory.files.keys.all (fun key => !(name ++ "/").isPrefixOf key)
      && (parents.isEmpty
        || directory.files.keys.any fun key => ("/".intercalate parents ++ "/").isPrefixOf key)

def write? (directory : Directory) (path text : String) : Option Directory := do
  let name ← name? path
  if directory.canWrite path then
    return { files := directory.files.insert name text }
  else
    none

end Directory

end Tariff.Command
