namespace PbesLab.CommandLine

/-- An option by its long and short name. A flag takes no value. -/
structure OptionForm where
  long : String
  short : Option Char
  isFlag : Bool

/-- What the arguments give: options with their values, in order, and all else. -/
structure Given where
  options : List (String × Option String)
  files : List String

namespace Given

def empty : Given :=
  ⟨[], []⟩

def addOption (g : Given) (name : String) (value : Option String) : Given :=
  { g with options := g.options ++ [(name, value)] }

def addFile (g : Given) (name : String) : Given :=
  { g with files := g.files ++ [name] }

def has (g : Given) (name : String) : Bool :=
  g.options.any (·.1 = name)

def value? (g : Given) (name : String) : Option String :=
  (g.options.lookup name).join

def distinct (g : Given) : Bool :=
  let names := g.options.map Prod.fst
  names.eraseDups.length = names.length

end Given

/-- An argument that would be read as an option cannot be a value. -/
def looksLikeOption (arg : String) : Bool :=
  match arg.toList with
  | '-' :: _ :: _ => true
  | _ => false

def findLong? (forms : List OptionForm) (name : String) : Option OptionForm :=
  forms.find? (·.long = name)

def findShort? (forms : List OptionForm) (c : Char) : Option OptionForm :=
  forms.find? (·.short = some c)

/-- How an argument with short options ends: complete, or with an option that lacks its value. -/
inductive ClusterEnd
  | complete
  | needsValue (name : String)

/-- Short options in one argument. What follows an option with a value is the value, with or without
an equals sign. -/
def cluster? (forms : List OptionForm) : List Char → Given → Option (Given × ClusterEnd)
  | [], g => some (g, .complete)
  | c :: cs, g => do
    let form ← findShort? forms c
    if form.isFlag then cluster? forms cs (g.addOption form.long none)
    else
      match cs with
      | [] => some (g, .needsValue form.long)
      | '=' :: value => some (g.addOption form.long (some (String.ofList value)), .complete)
      | value => some (g.addOption form.long (some (String.ofList value)), .complete)

def splitLong (cs : List Char) : String × Option String :=
  let name := cs.takeWhile (· ≠ '=')
  (String.ofList name,
    if name.length < cs.length then some (String.ofList (cs.drop (name.length + 1))) else none)

def given? (forms : List OptionForm) : List String → Given → Option Given
  | [], g => some g
  | arg :: args, g =>
    match arg.toList with
    | ['-', '-'] => some (args.foldl Given.addFile g)
    | '-' :: '-' :: cs => do
      let (name, value) := splitLong cs
      let form ← findLong? forms name
      match form.isFlag, value with
      | true, none => given? forms args (g.addOption name none)
      | true, some _ => none
      | false, some v => given? forms args (g.addOption name (some v))
      | false, none => takeValue name args g
    | '-' :: c :: cs => do
      match ← cluster? forms (c :: cs) g with
      | (g, .complete) => given? forms args g
      | (g, .needsValue name) => takeValue name args g
    | _ => given? forms args (g.addFile arg)
where
  /-- The next argument is the value of an option. -/
  takeValue (name : String) : List String → Given → Option Given
    | [], _ => none
    | v :: args, g =>
      if looksLikeOption v then none else given? forms args (g.addOption name (some v))

end PbesLab.CommandLine
