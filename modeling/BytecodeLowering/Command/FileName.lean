/-!
# File names

* `withExtension`: a name whose extension is exchanged.
* `directory`, `lastPart`: where a file is, and its name there.
* `fileIn?`: the name of the file that a path leads to within a directory.
-/

namespace BytecodeLowering.Command

/-- The name of a file without its directory. -/
def lastPart (path : String) : String :=
  String.ofList (path.toList.reverse.takeWhile (· ≠ '/')).reverse

/-- The directory of a file, with a slash behind it; empty if none is named. -/
def directory (path : String) : String :=
  String.ofList (path.toList.reverse.dropWhile (· ≠ '/')).reverse

/-- A name without the part behind its last dot. A dot in front of a name does not count. -/
def stem (name : String) : String :=
  match name.toList.reverse.dropWhile (· ≠ '.') with
  | _ :: rest => if rest.isEmpty then name else String.ofList rest.reverse
  | [] => name

/-- A name with another extension, or without one if that is empty. Directories have none: neither
the one here, nor the one above, which is what two dots are without the extension behind them. -/
def exchangeExtension (name extension : String) : String :=
  if name = "" ∨ name = "." then name
  else if stem name = "." then ".."
  else stem name ++ if extension.isEmpty then "" else "." ++ extension

/-- A file name with another extension, or without one if that is empty. -/
def withExtension (path extension : String) : String :=
  directory path ++ exchangeExtension (lastPart path) extension

/-- Whether a directory can hold a file of the given name. -/
def isFileName (name : String) : Bool :=
  name ≠ "" && name ≠ "." && name ≠ ".." && name.utf8ByteSize ≤ 255 &&
    name.toList.all fun c => c ≠ '/' && c ≠ '\x00'

/-- A path without steps that stay in a directory. -/
def withoutStays : List Char → List Char
  | '.' :: '/' :: cs => withoutStays cs
  | cs => cs

/-- The name of the file that a path leads to within a directory that has no further ones. -/
def fileIn? (path : String) : Option String :=
  let name := String.ofList (withoutStays path.toList)
  if isFileName name then some name else none

end BytecodeLowering.Command
