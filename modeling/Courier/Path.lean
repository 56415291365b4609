/-!
# Paths under the home directory

A path that starts with `~/` lies under the home directory, if there is one.
-/

namespace Courier

/-- A path below a directory. A path that is absolute by itself stands alone, and nothing needs a
separator after an empty directory or one that ends with it. -/
def joinPath (directory path : String) : String :=
  if path.startsWith "/" then path
  else if directory = "" ∨ directory.endsWith "/" then directory ++ path
  else directory ++ "/" ++ path

/-- The path with a leading `~/` replaced by the home directory. -/
def expandTilde (home : Option String) (path : String) : String :=
  match home, path.toList with
  | some home, '~' :: '/' :: rest => joinPath home (String.ofList rest)
  | _, _ => path

end Courier
