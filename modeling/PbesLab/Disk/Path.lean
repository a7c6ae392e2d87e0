import PbesLab.Text.Pieces

namespace PbesLab

structure Path where
  text : String
deriving DecidableEq

namespace Path

inductive Step
  | root
  | here
  | up
  | down (name : String)
deriving DecidableEq

def isAbsolute (p : Path) : Bool :=
  p.text.toList.head? == some '/'

def endsInSlash (p : Path) : Bool :=
  p.text.toList.getLast? == some '/'

/-- The path without slashes at its end; the root stays. -/
def withoutSlash (p : Path) : Path :=
  match Text.trimRight (· == '/') p.text.toList with
  | [] => p
  | cs => ⟨String.ofList cs⟩

def pieces (p : Path) : List String :=
  (Text.pieces (· == '/') p.text.toList).map String.ofList

def Step.ofPiece? (piece : String) : Option Step :=
  if piece = "" ∨ piece = "." then none
  else if piece = ".." then some up
  else some (down piece)

/-- The steps of a path. Repeated slashes and single dots take no step, except for a dot that a
path starts with. -/
def steps (p : Path) : List Step :=
  (if p.isAbsolute then [.root] else if p.pieces.head? = some "." then [.here] else []) ++
    p.pieces.filterMap Step.ofPiece?

def same (p q : Path) : Bool :=
  p.steps = q.steps

/-- An absolute path leaves the directory aside. -/
def join (dir : Path) (name : Path) : Path :=
  if name.isAbsolute ∨ dir.text = "" then name
  else if dir.endsInSlash then ⟨dir.text ++ name.text⟩
  else ⟨dir.text ++ "/" ++ name.text⟩

/-- The last name in a path that does not end in two dots, and the pieces before it. -/
def splitName? (p : Path) : Option (List String × String) :=
  match p.pieces.reverse.dropWhile fun piece => piece = "" ∨ piece = "." with
  | name :: before => if name = ".." then none else some (before.reverse, name)
  | [] => none

def fileName? (p : Path) : Option String :=
  p.splitName?.map Prod.snd

/-- A name without its last full stop and what follows it. A full stop in front does not count. -/
def stemOf (name : String) : String :=
  match (Text.pieces (· == '.') name.toList).reverse with
  | _ :: piece :: before =>
    let stem := String.ofList (['.'].intercalate (piece :: before).reverse)
    if stem = "" then name else stem
  | _ => name

def stem? (p : Path) : Option String :=
  p.fileName?.map stemOf

def ofPieces (pieces : List String) : Path :=
  ⟨"/".intercalate pieces⟩

/-- Puts an extension in the place of the one that a path has, if any. -/
def withExtension (p : Path) (ext : String) : Path :=
  match p.splitName? with
  | some (before, name) => ofPieces (before ++ [stemOf name ++ "." ++ ext])
  | none => p

end Path

end PbesLab
