/-
This file joins and shortens the names of files.
-/

import DataSegment.Text

namespace DataSegment.Files

/-- An absolute target replaces the directory; an empty directory leaves the target alone. -/
def join (directory target : Text) : Text :=
  match target.head?, directory.getLast? with
  | some '/', _ => target
  | _, none => target
  | _, some '/' => directory ++ target
  | _, some _ => directory ++ ['/'] ++ target

/-- Drops separators, and single dots behind a separator, off a path that is held with its last
character first. -/
def dropSeparators : Text → Text
  | '/' :: rest => dropSeparators rest
  | '.' :: '/' :: rest => dropSeparators rest
  | path => path

/-- The directory of a file is its path without the last component. -/
def parent (path : Text) : Text :=
  let directory := (dropSeparators (path.reverse.dropWhile (· != '/'))).reverse
  if directory.isEmpty && path.head? == some '/' then ['/'] else directory

end DataSegment.Files
