import PbesLab.Shell.Arithmetic
import PbesLab.Shell.Glob
import PbesLab.Text.Decode

namespace PbesLab.Shell

def Process.separators (p : Process) : List Char :=
  ((p.var? "IFS").map (·.value.toList)).getD [' ', '\t', '\n']

def Process.value? (p : Process) (name : String) : Option String :=
  match name with
  | "#" => some (toString p.params.length)
  | "?" => some (toString p.status)
  | "$" => some (toString p.number)
  | "-" => some ""
  | "0" => some p.script
  | "*" | "@" => if p.params.isEmpty then none else some (" ".intercalate p.params)
  | _ =>
    match Numeral.decimal? name with
    | some n => p.params[n - 1]?
    | none => (p.var? name).map (·.value)

/-- The rest of the braces after the name of a parameter. A flag tells that an empty value counts as
none. -/
inductive Change
  | plain
  /-- A word in the place of no value, which may become the value. -/
  | orElse (empty? keep : Bool) (word : List Char)
  | orFail (empty? : Bool)
  /-- A word in the place of a value. -/
  | ifSet (empty? : Bool) (word : List Char)
  | cut (how : Glob.Cut) (pattern : List Char)
  | malformed

def Change.ofText (text : String) : Change :=
  let (empty?, cs) := match text.toList with
    | ':' :: cs => (true, cs)
    | cs => (false, cs)
  match empty?, cs with
  | false, [] => plain
  | _, '-' :: word => orElse empty? false word
  | _, '=' :: word => orElse empty? true word
  | _, '?' :: _ => orFail empty?
  | _, '+' :: word => ifSet empty? word
  | false, '#' :: '#' :: word => cut ⟨false, true⟩ word
  | false, '#' :: word => cut ⟨false, false⟩ word
  | false, '%' :: '%' :: word => cut ⟨true, true⟩ word
  | false, '%' :: word => cut ⟨true, false⟩ word
  | _, _ => malformed

/-- A character of an expanded word, and what stands between characters. -/
inductive Glyph
  | char (c : Char) (quoted split : Bool)
  /-- An argument begins here, even if it stays empty. -/
  | mark
  /-- An argument ends here. -/
  | gap

def glyphs (quoted split : Bool) (text : String) : List Glyph :=
  text.toList.map fun c => .char c quoted split

/-- Several values as arguments of their own. -/
def separate (quoted : Bool) (values : List String) : List Glyph :=
  [Glyph.gap].intercalate (values.map fun v =>
    (if quoted then [.mark] else []) ++ glyphs quoted (!quoted) v)

def marksOf (gs : List Glyph) : List Mark :=
  gs.filterMap fun
    | .char c quoted _ => some (c, quoted)
    | .mark => none
    | .gap => some (' ', true)

def textOf (gs : List Glyph) : String :=
  Glob.textOf (marksOf gs)

/-- The text that a script writes, without line ends at its end. -/
def outputOf (h : Host) (script : String) : Run String := do
  let (code, bytes) ← capturing (isolated do
    modify fun p => { p with tested := false }
    h.text script)
  modify fun p => { p with outputStatus := code }
  return String.ofList (Text.trimRight (· == '\n') (Text.decodeLossy (bytes.filter (· ≠ 0))))

def valueGlyphs (name : String) (quoted : Bool) : Run (List Glyph) := do
  let p ← get
  if name = "@" ∨ name = "*" ∧ !quoted then return separate quoted p.params
  return glyphs quoted (!quoted) ((p.value? name).getD "")

/-- Expands a change of a parameter, for which words are expanded in a given way. -/
def changed (expandWord : Bool → List Char → Run (List Glyph)) (name : String) (change : Change)
    (quoted : Bool) : Run (List Glyph) := do
  let p ← get
  let value? := p.value? name
  let missing (empty? : Bool) : Bool := value?.elim true fun v => empty? && v == ""
  let refused := p.options.refuseUnset && value?.isNone && name ≠ "@" && name ≠ "*"
  match change with
  | .plain => if refused ∨ name = "" then give else valueGlyphs name quoted
  | .orElse empty? keep word =>
    if !missing empty? then return ← valueGlyphs name quoted
    let gs ← expandWord quoted word
    if keep then assign name (textOf gs)
    return gs
  | .orFail empty? => if missing empty? then give else valueGlyphs name quoted
  | .ifSet empty? word => if missing empty? then return [] else expandWord quoted word
  | .cut how word => do
    if refused then give
    let pattern := marksOf (← expandWord false word)
    let value := Glob.cut how pattern (value?.getD "").toList
    return glyphs quoted (!quoted) (String.ofList value)
  | .malformed => give

/-- Expands the parts of a word; text in it is split only inside braces. The first argument bounds
how deep braces go. -/
def expandParts (h : Host) : Nat → (inBraces : Bool) → Word → Run (List Glyph)
  | 0, _, _ => return []
  | fuel + 1, inBraces, w => do
    let p ← get
    let w := match w, p.params with
      | .text "" true :: .param "@" "" true :: rest, [] => rest
      | _, _ => w
    let expandWord (quoted : Bool) (word : List Char) : Run (List Glyph) :=
      match Lexer.wholeWord? quoted word with
      | some w => expandParts h fuel true w
      | none => give
    w.foldlM (fun before part => do
      let gs ← match part with
        | .text t quoted =>
          pure ((if quoted then [.mark] else []) ++ glyphs quoted (inBraces && !quoted) t)
        | .param name change quoted => changed expandWord name (.ofText change) quoted
        | .length name quoted =>
          let value := ((← get).value? name).getD ""
          pure (glyphs quoted (!quoted) (toString value.utf8ByteSize))
        | .output script quoted => do
          pure (glyphs quoted (!quoted) (← outputOf h script))
        | .arithmetic e quoted => do
          let n ← Arithmetic.evaluate (textOf (← expandWord true e.toList))
          pure (glyphs quoted (!quoted) (toString n))
      return before ++ gs) []

/-- How deep braces in a word can go. -/
def depthOf (w : Word) : Nat :=
  w.foldl (fun n part => match part with
    | .param _ change _ => max n (change.length + 2)
    | .arithmetic e _ => max n (e.length + 2)
    | _ => n) 2

def expandWord (h : Host) (w : Word) : Run (List Glyph) :=
  expandParts h (depthOf w) false w

/-- Arguments under construction: the finished ones backwards, the one that has begun, and whether
white space ended the last one. -/
structure Fields where
  done : List (List Mark) := []
  open? : Option (List Mark) := none
  spaced : Bool := false

namespace Fields

def close (f : Fields) : Fields :=
  match f.open? with
  | some cs => { f with done := cs.reverse :: f.done, open? := none }
  | none => f

/-- Takes a separator. White space beside another separator separates nothing more. -/
def separator (f : Fields) (c : Char) : Fields :=
  if c ∈ [' ', '\t', '\n'] then
    match f.open? with
    | some _ => { f.close with spaced := true }
    | none => f
  else if f.spaced then { f with spaced := false }
  else { f with done := (f.open?.getD []).reverse :: f.done, open? := none }

def step (separators : List Char) (f : Fields) : Glyph → Fields
  | .mark => { f with open? := some (f.open?.getD []), spaced := false }
  | .gap => { f.close with spaced := false }
  | .char c quoted split =>
    if split ∧ c ∈ separators then f.separator c
    else { f with open? := some ((c, quoted) :: f.open?.getD []), spaced := false }

end Fields

def fieldsOf (separators : List Char) (gs : List Glyph) : List (List Mark) :=
  (gs.foldl (Fields.step separators) {}).close.done.reverse

/-- The names of files that an argument stands for, or its text. -/
def filesFor (p : Process) (cs : List Mark) : List String :=
  if p.options.noGlob ∨ !Glob.isWild cs then [Glob.textOf cs]
  else match Glob.paths p.disk cs with
    | [] => [Glob.textOf cs]
    | paths => paths

def expand (h : Host) (w : Word) : Run (List String) := do
  let gs ← expandWord h w
  let p ← get
  return (fieldsOf p.separators gs).flatMap (filesFor p)

/-- A word that stands for one text, such as a value. -/
def expandText (h : Host) (w : Word) : Run String := do
  return textOf (← expandWord h w)

def expandPattern (h : Host) (w : Word) : Run (List Mark) := do
  return marksOf (← expandWord h w)

end PbesLab.Shell
