import PbesLab.Shell.Command

namespace PbesLab.Shell

inductive Token
  | word (w : Word)
  /-- An operator, with the digit directly before a redirection. -/
  | op (stream : Option Nat) (text : String)
  /-- A quotation or substitution that is left open. -/
  | broken

namespace Lexer

def isNameStart (c : Char) : Bool :=
  c.isAlpha || c == '_'

def isNameChar (c : Char) : Bool :=
  c.isAlphanum || c == '_'

/-- Parameters that are named by a single character. -/
def isSpecial (c : Char) : Bool :=
  c ∈ ['@', '*', '#', '?', '-', '$', '!'] || c.isDigit

def endsWord (c : Char) : Bool :=
  c ∈ [' ', '\t', '\n', ';', '&', '|', '<', '>', '(', ')']

/-- The character that closes what has begun. Single quotes quote nothing inside double ones. -/
structure Opening where
  close : Char
  quoted : Bool := false

/-- The text up to a closing character, and the rest after it. Quotations, substitutions and
parentheses inside are passed over as wholes. The first argument bounds the characters. -/
def enclosed? : Nat → Opening → List Char → Option (List Char × List Char)
  | 0, _, _ | _, _, [] => none
  | n + 1, o, c :: cs =>
    let keeping (kept rest : List Char) := do
      let (more, rest) ← enclosed? n o rest
      return (kept ++ more, rest)
    let passing (opening : List Char) (inner : Opening) (cs : List Char) := do
      let (text, rest) ← enclosed? n inner cs
      keeping (opening ++ text ++ [inner.close]) rest
    if c = o.close then some ([], cs)
    else if o.close = '\'' then keeping [c] cs
    else
      match c, cs with
      | '\\', d :: rest => keeping ['\\', d] rest
      | '\'', _ => if o.quoted then keeping [c] cs else passing ['\''] ⟨'\'', false⟩ cs
      | '"', _ => passing ['"'] ⟨'"', true⟩ cs
      | '\x60', _ => passing ['\x60'] ⟨'\x60', false⟩ cs
      | '$', '(' :: rest => passing ['$', '('] ⟨')', false⟩ rest
      | '$', '\x7b' :: rest => passing ['$', '\x7b'] ⟨'\x7d', o.quoted⟩ rest
      | '(', _ => if o.close = ')' then passing ['('] ⟨')', o.quoted⟩ cs else keeping [c] cs
      | _, _ => keeping [c] cs

/-- Takes the backslashes off that protect characters between backquotes. -/
def unprotect (quoted : Bool) : List Char → List Char
  | '\\' :: c :: cs =>
    if c ∈ ['\\', '$', '\x60'] ∨ quoted ∧ c = '"' then c :: unprotect quoted cs
    else '\\' :: c :: unprotect quoted cs
  | c :: cs => c :: unprotect quoted cs
  | [] => []

def prependText (value : String) (quoted : Bool) : Word → Word
  | .text t q :: ps =>
    if q = quoted then .text (value ++ t) q :: ps else .text value quoted :: .text t q :: ps
  | ps => .text value quoted :: ps

def nameOf (cs : List Char) : List Char :=
  match cs with
  | c :: _ =>
    if isNameStart c then cs.takeWhile isNameChar
    else if c.isDigit then cs.takeWhile Char.isDigit
    else if isSpecial c then [c] else []
  | [] => []

/-- What stands between braces: a name after a sign for its length, or before a change. -/
def bracedPart (quoted : Bool) (inner : List Char) : Part :=
  match inner with
  | '#' :: c :: cs => .length (String.ofList (c :: cs)) quoted
  | _ =>
    .param (String.ofList (nameOf inner)) (String.ofList (inner.drop (nameOf inner).length)) quoted

/-- What a dollar sign begins, and the rest. A sign that begins nothing stands for itself. -/
def dollar? (quoted : Bool) (cs : List Char) : Option (Part × List Char) :=
  match cs with
  | '(' :: rest => do
    let (text, rest) ← enclosed? (rest.length + 1) ⟨')', false⟩ rest
    match text, text.getLast? with
    | '(' :: inner, some ')' => return (.arithmetic (String.ofList inner.dropLast) quoted, rest)
    | _, _ => return (.output (String.ofList text) quoted, rest)
  | '\x7b' :: rest => do
    let (text, rest) ← enclosed? (rest.length + 1) ⟨'\x7d', quoted⟩ rest
    return (bracedPart quoted text, rest)
  | c :: rest =>
    if isNameStart c then
      some (.param (String.ofList (cs.takeWhile isNameChar)) "" quoted, cs.dropWhile isNameChar)
    else if isSpecial c then some (.param (String.singleton c) "" quoted, rest)
    else some (.text "$" quoted, cs)
  | [] => some (.text "$" quoted, [])

/-- The parts of quoted text. Quotation marks in it quote nothing more; a flag tells that they stand
for themselves. The first argument bounds the characters. -/
def quotedParts? (keepMarks : Bool) : Nat → List Char → Option Word
  | 0, _ | _, [] => some []
  | n + 1, c :: cs =>
    match c, cs with
    | '\\', d :: rest =>
      if d = '\n' then quotedParts? keepMarks n rest
      else if d ∈ ['$', '\x60', '\\'] ∨ d = '"' ∧ !keepMarks then
        (quotedParts? keepMarks n rest).map (prependText (String.singleton d) true)
      else (quotedParts? keepMarks n cs).map (prependText "\\" true)
    | '$', _ => do
      let (part, rest) ← dollar? true cs
      let more ← quotedParts? keepMarks n rest
      match part with
      | .text t q => return prependText t q more
      | _ => return part :: more
    | '\x60', _ => do
      let (text, rest) ← enclosed? (cs.length + 1) ⟨'\x60', false⟩ cs
      let more ← quotedParts? keepMarks n rest
      return .output (String.ofList (unprotect true text)) true :: more
    | '"', _ =>
      let more := quotedParts? keepMarks n cs
      if keepMarks then more.map (prependText "\"" true) else more
    | _, _ => (quotedParts? keepMarks n cs).map (prependText (String.singleton c) true)

/-- The parts of a word and the rest after it. The flag tells that blanks and operators do not end
it. The first argument bounds the characters. -/
def parts? (whole : Bool) : Nat → List Char → Option (Word × List Char)
  | 0, cs => some ([], cs)
  | _, [] => some ([], [])
  | n + 1, c :: cs =>
    let before (ps : Word) (rest : List Char) : Option (Word × List Char) :=
      (parts? whole n rest).map fun (more, rest) =>
        (ps.foldr (fun p more => match p with
          | .text t q => prependText t q more
          | p => p :: more) more, rest)
    if endsWord c ∧ !whole then some ([], c :: cs)
    else
      match c, cs with
      | '\\', d :: rest =>
        if d = '\n' then parts? whole n rest else before [.text (String.singleton d) true] rest
      | '\'', _ => do
        let (text, rest) ← enclosed? (cs.length + 1) ⟨'\'', false⟩ cs
        before [.text (String.ofList text) true] rest
      | '"', _ => do
        let (text, rest) ← enclosed? (cs.length + 1) ⟨'"', true⟩ cs
        before (.text "" true :: (← quotedParts? false text.length text)) rest
      | '$', _ => do
        let (part, rest) ← dollar? false cs
        before [part] rest
      | '\x60', _ => do
        let (text, rest) ← enclosed? (cs.length + 1) ⟨'\x60', false⟩ cs
        before [.output (String.ofList (unprotect false text)) false] rest
      | _, _ => before [.text (String.singleton c) false] cs

def wholeWord? (quoted : Bool) (text : List Char) : Option Word :=
  if quoted then quotedParts? false text.length text
  else (parts? true text.length text).map Prod.fst

def hereLines (delimiter : List Char) : Nat → List Char → List Char × List Char
  | 0, cs => ([], cs)
  | _, [] => ([], [])
  | n + 1, cs =>
    let line := cs.takeWhile (· ≠ '\n')
    let rest := (cs.dropWhile (· ≠ '\n')).drop 1
    if line = delimiter then ([], rest)
    else
      let (text, rest) := hereLines delimiter n rest
      (line ++ ['\n'] ++ text, rest)

def isQuoted (w : Word) : Bool :=
  w.any fun | .text _ q => q | _ => false

def plainText (w : Word) : String :=
  String.join (w.map fun | .text t _ => t | _ => "")

/-- The texts for some delimiters at the start of the next lines, and the rest. -/
def hereTexts? : List Word → List Char → Option (List Word × List Char)
  | [], cs => some ([], cs)
  | delimiter :: more, cs => do
    let (text, rest) := hereLines (plainText delimiter).toList (cs.length + 1) cs
    let body ← if isQuoted delimiter then some [.text (String.ofList text) true]
      else quotedParts? true text.length text
    let (bodies, rest) ← hereTexts? more rest
    return (body :: bodies, rest)

def operators : List String :=
  ["&&", "||", ";;", ">>", "<<", ">&", "<&", "&", "|", ";", "<", ">", "(", ")"]

def operator? (cs : List Char) : Option (String × List Char) :=
  (operators.find? fun t => t.toList.isPrefixOf cs).map fun t => (t, cs.drop t.length)

/-- The tokens found so far, backwards, the delimiters that wait for their texts, and the texts. -/
structure Progress where
  tokens : List Token := []
  announced : List Word := []
  texts : List Word := []

def Progress.addWord (p : Progress) (w : Word) : Progress :=
  let announced := match p.tokens with
    | .op _ "<<" :: _ => p.announced ++ [w]
    | _ => p.announced
  { p with tokens := .word w :: p.tokens, announced }

def Progress.add (p : Progress) (t : Token) : Progress :=
  { p with tokens := t :: p.tokens }

/-- Puts the texts in the places of their delimiters. -/
def placeTexts : List Token → List Word → List Token
  | .op s "<<" :: .word _ :: ts, text :: texts => .op s "<<" :: .word text :: placeTexts ts texts
  | t :: ts, texts => t :: placeTexts ts texts
  | [], _ => []

def streamDigit? : List Char → Option (Nat × List Char)
  | d :: '<' :: cs => if d.isDigit then some (d.toNat - '0'.toNat, '<' :: cs) else none
  | d :: '>' :: cs => if d.isDigit then some (d.toNat - '0'.toNat, '>' :: cs) else none
  | _ => none

/-- Finds the tokens of a text. The first argument bounds the characters. -/
def scan : Nat → Progress → List Char → Progress
  | 0, p, _ | _, p, [] => p
  | n + 1, p, c :: cs =>
    if c = ' ' ∨ c = '\t' then scan n p cs
    else if c = '#' then scan n p (cs.dropWhile (· ≠ '\n'))
    else if c = '\n' then
      match hereTexts? p.announced cs with
      | none => p.add .broken
      | some (texts, rest) =>
        scan n { p.add (.op none "\n") with announced := [], texts := p.texts ++ texts } rest
    else
      match c, cs with
      | '\\', '\n' :: rest => scan n p rest
      | _, _ =>
        let (stream, rest) := match streamDigit? (c :: cs) with
          | some (d, rest) => (some d, rest)
          | none => (none, c :: cs)
        match operator? rest with
        | some (text, rest) => scan n (p.add (.op stream text)) rest
        | none =>
          match parts? false (cs.length + 1) (c :: cs) with
          | some (w, rest) => scan n (p.addWord w) rest
          | none => p.add .broken

def tokens (text : List Char) : List Token :=
  let p := scan (text.length + 1) {} text
  placeTexts p.tokens.reverse p.texts

end Lexer

end PbesLab.Shell
