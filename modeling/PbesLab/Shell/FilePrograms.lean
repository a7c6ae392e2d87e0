import PbesLab.Disk.Tree
import PbesLab.Shell.Arguments
import PbesLab.Text.Order

namespace PbesLab.Shell

def isDirectory (name : String) : Run Bool := do
  return match (← get).disk.find ⟨name⟩ with
    | .ok .directory => true
    | _ => false

/-- Goes through sources, of which several, or one, may be meant for the directory that stands
last. -/
def transfer (step : String → String → Run Nat) (names : List String) : Run Nat := do
  match names.reverse with
  | target :: source :: more =>
    if ← isDirectory target then
      forAll (source :: more).reverse fun s =>
        step s (Path.join ⟨target⟩ ⟨(Path.mk s).fileName?.getD s⟩).text
    else if more.isEmpty then step source target
    else return 1
  | _ => return 1

def copy (source target : String) : Run Nat := do
  let d := (← get).disk
  match d.find ⟨source⟩, d.locate ⟨source⟩ with
  | .ok (.file content executable), .ok l =>
    if (d.locate ⟨target⟩).toOption = some l then return 1
    change fun d => do return d.storeAs (← d.writable ⟨target⟩) content executable
  | .ok .sink, _ => change fun d => do return d.storeAs (← d.writable ⟨target⟩) .empty false
  | _, _ => return 1

def cp : Program := program "afp" "" 1 fun a => transfer copy a.operands

def move (source target : String) : Run Nat := do
  let d := (← get).disk
  match d.find ⟨source⟩, d.locate ⟨source⟩, d.locate (Path.withoutSlash ⟨target⟩) with
  | .ok entry, .ok l, .ok m =>
    let free := match entry, d.entry? m with
      | .directory, some .directory => (d.names m).isEmpty
      | .directory, some _ | _, some .directory => false
      | _, _ => true
    if l.isPrefixOf m ∨ !free then return 1
    modify fun p => { p with disk := d.relocate l m }
    return 0
  | _, _, _ => return 1

def mv : Program := program "f" "" 1 fun a => transfer move a.operands

def rm : Program := program "frR" "" 1 fun a => do
  if a.operands.isEmpty then return if a.has 'f' then 0 else 1
  forAll a.operands fun name => do
    let d := (← get).disk
    match d.find ⟨name⟩, d.locate ⟨name⟩ with
    | .ok .directory, .ok l =>
      if !(a.has 'r' || a.has 'R') then return 1
      modify fun p => { p with disk := d.dropTree l }
      return 0
    | .ok _, _ => change (·.remove ⟨name⟩)
    | .error _, _ => return if a.has 'f' then 0 else 1

def rmdir : Program := program "" "" 1 fun a => forAll a.operands fun name => do
  let d := (← get).disk
  match d.find ⟨name⟩, d.locate ⟨name⟩ with
  | .ok .directory, .ok l =>
    if !(d.names l).isEmpty then return 1
    modify fun p => { p with disk := d.drop l }
    return 0
  | _, _ => return 1

def pathsTo (name : String) : List String :=
  let pieces := (Path.mk name).withoutSlash.pieces
  (List.range pieces.length).map fun i => "/".intercalate (pieces.take (i + 1))

def makeParents (d : Disk) (name : String) : Except FileFault Disk :=
  ((pathsTo name).filter (· ≠ "")).foldlM (fun d path =>
    match d.find ⟨path⟩ with
    | .ok .directory => .ok d
    | .ok _ => .error .exists
    | .error .notFound => d.makeDirectory ⟨path⟩
    | .error e => .error e) d

def mkdir : Program := program "p" "" 1 fun a => do
  if a.operands.isEmpty then return 1
  forAll a.operands fun name => change fun d =>
    if a.has 'p' then makeParents d name else d.makeDirectory ⟨name⟩

def touch : Program := program "c" "" 1 fun a => do
  if a.operands.isEmpty then return 1
  forAll a.operands fun name => do
    if ((← get).disk.find ⟨name⟩).isOk || a.has 'c' then return 0
    change (·.writeText ⟨name⟩ "")

/-- Whether a mode makes files executable, if it tells. -/
def executableMode? (mode : String) : Option Bool :=
  let cs := mode.toList
  if cs.all Char.isDigit then some (Nat.ofDigitChars 8 cs 0 &&& 73 != 0)
  else
    match cs.dropWhile (· ∈ ['u', 'g', 'o', 'a']) with
    | '+' :: letters => if letters.contains 'x' then some true else none
    | '-' :: letters => if letters.contains 'x' then some false else none
    | _ => none

def chmod : Program
  | mode :: names => do
    if names.isEmpty then return 1
    forAll names fun name => change fun d => do
      let l ← d.locate ⟨name⟩
      let _ ← d.find ⟨name⟩
      return (executableMode? mode).elim d (d.setExecutable l)
  | [] => return 1

def ls : Program := program "aA1" "" 2 fun a => do
  let d := (← get).disk
  let shown (name : String) : Bool := a.has 'a' || a.has 'A' || !name.startsWith "."
  forAll (if a.operands.isEmpty then ["."] else a.operands) fun name => do
    match d.find ⟨name⟩, d.locate ⟨name⟩ with
    | .ok .directory, .ok l =>
      let names := Text.sortedSet ((d.names l).filter shown)
      let names := if a.has 'a' then "." :: ".." :: names else names
      if 1 < a.operands.length then sayText (name ++ ":\n")
      sayText (String.join (names.map (· ++ "\n")))
      return 0
    | .ok _, _ =>
      sayText (name ++ "\n")
      return 0
    | .error _, _ => return 2

def tee : Program := program "a" "" 1 fun a => do
  let bytes ← takeInput
  say bytes
  forAll a.operands fun name => do
    match ← openSink? name (a.has 'a') with
    | some s =>
      modify fun p => p.emit s bytes
      return 0
    | none => return 1

def basename : Program
  | name :: more => do
    let base := match (Path.mk name).withoutSlash.pieces.getLast? with
      | some "" => "/"
      | some n => n
      | none => name
    let suffix := more.headD ""
    let cut := suffix.length < base.length && base.endsWith suffix
    sayText (String.ofList (base.toList.take (base.length - if cut then suffix.length else 0)) ++
      "\n")
    return 0
  | [] => return 1

def dirname : Program
  | name :: _ => do
    let before := (Path.mk name).withoutSlash.pieces.dropLast
    let text := ((Path.ofPieces before).withoutSlash).text
    sayText ((if before.isEmpty then "." else if text = "" then "/" else text) ++ "\n")
    return 0
  | [] => return 1

def filePrograms : List (String × Program) :=
  [("cp", cp), ("mv", mv), ("rm", rm), ("rmdir", rmdir), ("mkdir", mkdir), ("touch", touch),
    ("chmod", chmod), ("ls", ls), ("tee", tee), ("basename", basename), ("dirname", dirname)]

end PbesLab.Shell
