/-
  MetricCube.Settings.FileTree
  ────────────────────────────
  **Files by path.**  A tree of files lists its directories and files by their
  path from the root.  A path is walked name by name: every name but the last
  has to be a directory, and the last a file.  A relative path starts in a
  directory that the tree does not list.

  A name takes at most 255 bytes and a path at most 4095.
-/

namespace MetricCube

/-- Why a file cannot be read. -/
inductive FileFault where
  | missing
  | isDirectory
  | notDirectory
  | nameTooLong
  | nulInName
  | notText
deriving DecidableEq

/-- The wording of a file fault. -/
def FileFault.message : FileFault → String
  | .missing => "No such file or directory (os error 2)"
  | .isDirectory => "Is a directory (os error 21)"
  | .notDirectory => "Not a directory (os error 20)"
  | .nameTooLong => "File name too long (os error 36)"
  | .nulInName => "file name contained an unexpected NUL byte"
  | .notText => "stream did not contain valid UTF-8"

/-- Directories and files by their path from the root. -/
structure FileTree where
  directories : List (List String)
  files : List (List String × ByteArray)

namespace FileTree

/-- The file that is reached by names from a directory; `here` is the directory's path, if the
    tree lists it. -/
def walk (t : FileTree) : (here : Option (List String)) → List String →
    Except FileFault ByteArray
  | _, [] => .error .isDirectory
  | here, name :: names =>
    if name = "" ∨ name = "." then t.walk here names
    else if name = ".." then t.walk (here.map List.dropLast) names
    else if 255 < name.utf8ByteSize then .error .nameTooLong
    else
      match here with
      | none => .error .missing
      | some path =>
        let path := path ++ [name]
        if t.directories.contains path then t.walk (some path) names
        else
          match t.files.find? fun f => f.1 = path with
          | none => .error .missing
          | some f => if names.isEmpty then .ok f.2 else .error .notDirectory

/-- The contents of the file at a path. -/
def read (t : FileTree) (path : String) : Except FileFault ByteArray :=
  if path.toList.contains (Char.ofNat 0) then .error .nulInName
  else if path = "" then .error .missing
  else if 4095 < path.utf8ByteSize then .error .nameTooLong
  else t.walk (if path.toList.head? = some '/' then some [] else none) (path.splitOn "/")

end FileTree

end MetricCube
