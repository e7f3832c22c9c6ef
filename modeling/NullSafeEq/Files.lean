import NullSafeEq.Settings.Failure

/-!
# Files

A snapshot of the files that a run may see. Paths are relative to one working directory or
absolute. A path is followed part by part, and each part before the last has to lead into a
directory.
-/
namespace NullSafeEq

/-- What stands at a path. -/
inductive Node where
  | file (content : List UInt8)
  | directory
  deriving DecidableEq, Repr

/-- Where a path leads. The key of a file is the spelling that all paths to it share. -/
inductive Place where
  | file (key : String) (content : List UInt8)
  | directory
  /-- Nothing, but its directory is there. -/
  | free (key : String)
  deriving DecidableEq, Repr

/-- The nodes by their keys. -/
structure Files where
  nodes : List (String × Node)
  deriving Repr, Inhabited

namespace Files

/-! ### Paths -/

/-- The parts of a path between its slashes. -/
def parts : List Char → List (List Char)
  | [] => [[]]
  | c :: cs =>
    match parts cs with
    | part :: rest => if c = '/' then [] :: part :: rest else (c :: part) :: rest
    | [] => [[c]]

def isAbsolute (path : String) : Bool := path.toList.head? = some '/'

/-- Whether a path says that it leads to a directory. -/
def endsInSlash (path : String) : Bool := path.toList.getLast? = some '/'

/-- What a path starts with: two slashes stay two, any other number is one. -/
def root : List Char → List Char
  | ['/', '/'] => ['/', '/']
  | '/' :: '/' :: c :: _ => if c = '/' then ['/'] else ['/', '/']
  | '/' :: _ => ['/']
  | _ => []

/-- A path without its empty parts and single points. -/
def tidy (path : String) : String :=
  let kept := (parts path.toList).filter fun part => part ≠ [] && part ≠ ['.']
  if kept.isEmpty && !isAbsolute path then "."
  else String.ofList (root path.toList ++ ['/'].intercalate kept)

/-- The key of what some steps lead to, the last step first. -/
def keyOf (absolute : Bool) (steps : List (List Char)) : String :=
  String.ofList ((if absolute then ['/'] else []) ++ ['/'].intercalate steps.reverse)

/-- The steps to the directory around a directory. -/
def outOf (absolute : Bool) : List (List Char) → List (List Char)
  | [] => if absolute then [] else [['.', '.']]
  | last :: before => if last = ['.', '.'] then last :: last :: before else before

/-- The keys of what some parts pass, from a directory on. -/
def keysFrom (absolute : Bool) (here : List (List Char)) : List (List Char) → List String
  | [] => []
  | part :: rest =>
    if part = [] || part = ['.'] then keysFrom absolute here rest
    else if part = ['.', '.'] then keysFrom absolute (outOf absolute here) rest
    else keyOf absolute (part :: here) :: keysFrom absolute (part :: here) rest

/-- The keys of what stands on the way along a path and at its end. -/
def ways (path : String) : List String := keysFrom (isAbsolute path) [] (parts path.toList)

/-! ### Following paths -/

def node? (fs : Files) (key : String) : Option Node := fs.nodes.lookup key

/-- Whether something stands below a key. -/
def hasBelow (fs : Files) (key : String) : Bool :=
  fs.nodes.any fun (k, _) => (key.toList ++ ['/']).isPrefixOf k.toList

/-- Whether a key is that of a directory. -/
def isDirectory (fs : Files) (key : String) : Bool :=
  fs.node? key == some .directory || fs.hasBelow key

/-- The greatest number of octets in a part of a path. -/
def partLimit : Nat := 255

/-- The greatest number of octets in a path. -/
def pathLimit : Nat := 4095

/-- Follow some parts of a path from a directory on. -/
def follow (fs : Files) (path : String) (here : List (List Char)) :
    List (List Char) → Except FileError Place
  | [] => .ok .directory
  | part :: rest =>
    if part = [] || part = ['.'] then fs.follow path here rest
    else if part = ['.', '.'] then fs.follow path (outOf (isAbsolute path) here) rest
    else if partLimit < (String.ofList part).utf8ByteSize then .error (.nameTooLong path)
    else
      let key := keyOf (isAbsolute path) (part :: here)
      if fs.isDirectory key then fs.follow path (part :: here) rest
      else
        match fs.node? key with
        | some (.file content) =>
          if rest.isEmpty then .ok (.file key content) else .error (.notDirectory path)
        | _ => if rest.isEmpty then .ok (.free key) else .error (.notFound path)

/-- Follow a path, or other parts on its account. -/
def seek (fs : Files) (path : String) (parts : List (List Char)) : Except FileError Place :=
  if path.toList.contains '\x00' then .error .nullInPath
  else if path = "" then .error (.notFound path)
  else if pathLimit < path.utf8ByteSize then .error (.nameTooLong path)
  else fs.follow path [] parts

/-- Follow a path. -/
def find (fs : Files) (path : String) : Except FileError Place :=
  fs.seek path (parts path.toList)

/-- Whether a path leads to anything. -/
def contains (fs : Files) (path : String) : Bool :=
  match fs.find path with
  | .ok (.file ..) | .ok .directory => true
  | .ok (.free _) | .error _ => false

/-- The octets of the file at a path. An error names the path as given. -/
def read (fs : Files) (path : String) : Except FileError (List UInt8) := do
  match ← fs.find path with
  | .file _ content => return content
  | .directory => .error (.isDirectory path)
  | .free _ => .error (.notFound path)

/-- Set the node with a key. -/
def set (fs : Files) (key : String) (node : Node) : Files :=
  ⟨fs.nodes.filter (fun (k, _) => k ≠ key) ++ [(key, node)]⟩

/-- Files by any spelling of their paths. -/
def ofList (nodes : List (String × Node)) : Files :=
  nodes.foldl (fun fs (path, node) => fs.set ((ways path).getLastD path) node) ⟨[]⟩

/-- The parts of a path that ends in slashes, without the last name. -/
def container (parts : List (List Char)) : List (List Char) :=
  (parts.reverse.dropWhile (· = [])).tail.reverse ++ [[]]

/-- The files after writing one. Its directory has to be there, and a path that ends in a slash
leads to no file. -/
def write (fs : Files) (path : String) (content : List UInt8) : Except FileError Files := do
  let parts := parts path.toList
  match ← fs.seek path (if endsInSlash path then container parts else parts) with
  | .file key _ | .free key => return fs.set key (.file content)
  | .directory => .error (.isDirectory path)

end Files

end NullSafeEq
