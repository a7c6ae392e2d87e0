import PbesLab.Shell.Token

namespace PbesLab.Shell

abbrev Parsed := Option (Command × List Token)

namespace Script

def skipLines : List Token → List Token
  | .op none "\n" :: ts => skipLines ts
  | ts => ts

def startsWith (word : String) : List Token → Bool
  | .word w :: _ => bareText? w == some word
  | .op none text :: _ => text == word
  | _ => false

def expect (word : String) (ts : List Token) : Option (List Token) :=
  if startsWith word ts then some ts.tail else none

/-- The words and operators that end a list of commands. -/
def closers : List String :=
  ["then", "elif", "else", "fi", "do", "done", "esac", "\x7d", ")", ";;"]

def endsList (ts : List Token) : Bool :=
  ts.isEmpty || closers.any (startsWith · ts)

def reserved : List String :=
  ["!", "in"] ++ closers

def isName (text : String) : Bool :=
  match text.toList with
  | [] => false
  | c :: cs => Lexer.isNameStart c && cs.all Lexer.isNameChar

def redirectKind? : String → Option RedirectKind
  | "<" => some .read
  | ">" => some .write
  | ">>" => some .append
  | ">&" | "<&" => some .copy
  | "<<" => some .here
  | _ => none

def redirect? (stream : Option Nat) (text : String) (target : Word) : Option Redirect :=
  (redirectKind? text).map fun kind =>
    ⟨stream.getD (if text.toList.head? = some '<' then 0 else 1), kind, target⟩

/-- The name and the value in a text such as `x=1`. -/
def setting? (text : String) : Option (String × String) :=
  let name := String.ofList (text.toList.takeWhile (· ≠ '='))
  if name.length < text.length ∧ isName name then
    some (name, String.ofList (text.toList.drop (name.length + 1)))
  else none

def assignment? : Word → Option (String × Word)
  | .text t false :: ps => (setting? t).map fun (name, value) => (name, .text value false :: ps)
  | _ => none

structure Simple where
  assignments : List (String × Word) := []
  words : List Word := []
  redirects : List Redirect := []

def Simple.isEmpty (s : Simple) : Bool :=
  s.assignments.isEmpty && s.words.isEmpty && s.redirects.isEmpty

def Simple.addWord (s : Simple) (w : Word) : Simple :=
  match (if s.words.isEmpty then assignment? w else none) with
  | some a => { s with assignments := s.assignments ++ [a] }
  | none => { s with words := s.words ++ [w] }

def simpleParts (s : Simple) : List Token → Simple × List Token
  | .word w :: ts => simpleParts (s.addWord w) ts
  | .op n text :: .word w :: ts =>
    match redirect? n text w with
    | some r => simpleParts { s with redirects := s.redirects ++ [r] } ts
    | none => (s, .op n text :: .word w :: ts)
  | ts => (s, ts)

def redirectsAfter : List Token → List Redirect × List Token
  | .op n text :: .word w :: ts =>
    match redirect? n text w with
    | some r =>
      let (rs, ts) := redirectsAfter ts
      (r :: rs, ts)
    | none => ([], .op n text :: .word w :: ts)
  | ts => ([], ts)

def grouped (c : Command) (ts : List Token) : Command × List Token :=
  let (rs, ts) := redirectsAfter ts
  (if rs.isEmpty then c else .group c rs, ts)

def wordsBefore : List Token → List Word × List Token
  | .word w :: ts =>
    let (ws, ts) := wordsBefore ts
    (w :: ws, ts)
  | ts => ([], ts)

def patterns? : List Token → Option (List Word × List Token)
  | .word w :: .op none ")" :: ts => some ([w], ts)
  | .word w :: .op none "|" :: ts => do
    let (ws, ts) ← patterns? ts
    return (w :: ws, ts)
  | _ => none

def wordsEnd? : List Token → Option (List Token)
  | .op none "\n" :: ts | .op none ";" :: ts => some ts
  | _ => none

def ended? (c : Command) : List Token → Parsed
  | .op none "&" :: ts => some (.background c, ts)
  | ts => (wordsEnd? ts).map fun ts => (c, ts)

-- The first argument of all of these bounds the number of steps.
mutual

def listOf : Nat → (mayBeEmpty : Bool) → List Token → Parsed
  | 0, _, _ => none
  | fuel + 1, mayBeEmpty, ts => do
    let ts := skipLines ts
    if mayBeEmpty && endsList ts then return (.nothing, ts)
    let (first, ts) ← chainOf fuel ts
    match ended? first ts with
    | none => return (first, ts)
    | some (first, rest) =>
      let rest := skipLines rest
      if endsList rest then return (first, rest)
      let (more, ts) ← listOf fuel true rest
      return (.seq first more, ts)

/-- Pipelines joined by `&&` and `||`, which associate to the left. -/
def chainOf : Nat → List Token → Parsed
  | 0, _ => none
  | fuel + 1, ts => do
    let (first, ts) ← pipelineOf fuel ts
    moreOf fuel first ts

def moreOf : Nat → Command → List Token → Parsed
  | 0, _, _ => none
  | fuel + 1, first, ts =>
    match ts with
    | .op none "&&" :: rest => do
      let (second, ts) ← pipelineOf fuel (skipLines rest)
      moreOf fuel (.both first second) ts
    | .op none "||" :: rest => do
      let (second, ts) ← pipelineOf fuel (skipLines rest)
      moreOf fuel (.either first second) ts
    | _ => some (first, ts)

def pipelineOf : Nat → List Token → Parsed
  | 0, _ => none
  | fuel + 1, ts =>
    if startsWith "!" ts then do
      let (body, ts) ← pipedOf fuel ts.tail
      return (.negate body, ts)
    else pipedOf fuel ts

def pipedOf : Nat → List Token → Parsed
  | 0, _ => none
  | fuel + 1, ts => do
    let (first, ts) ← commandOf fuel ts
    match ts with
    | .op none "|" :: rest =>
      let (second, ts) ← pipedOf fuel (skipLines rest)
      return (.pipe first second, ts)
    | _ => return (first, ts)

def commandOf : Nat → List Token → Parsed
  | 0, _ => none
  | fuel + 1, ts =>
    if startsWith "if" ts then do
      let (c, ts) ← branchOf fuel ts.tail
      return grouped c ts
    else if startsWith "while" ts ∨ startsWith "until" ts then do
      let (condition, rest) ← listOf fuel false ts.tail
      let (body, rest) ← bodyOf fuel rest
      return grouped (.loop (startsWith "until" ts) condition body) rest
    else if startsWith "for" ts then do
      let (c, ts) ← eachOf fuel ts.tail
      return grouped c ts
    else if startsWith "case" ts then do
      let (c, ts) ← selectOf fuel ts.tail
      return grouped c ts
    else if startsWith "\x7b" ts then do
      let (c, ts) ← listOf fuel false ts.tail
      let (rs, ts) := redirectsAfter (← expect "\x7d" ts)
      return (.group c rs, ts)
    else if startsWith "(" ts then do
      let (c, ts) ← listOf fuel false ts.tail
      let (rs, ts) := redirectsAfter (← expect ")" ts)
      return (.sub c rs, ts)
    else if reserved.any (startsWith · ts) then none
    else
      let (s, rest) := simpleParts {} ts
      if s.isEmpty then none
      else
        match rest, s.words with
        | .op none "(" :: rest, [w] => do
          let name := Lexer.plainText w
          if !isName name ∨ !s.assignments.isEmpty ∨ !s.redirects.isEmpty then none
          let (body, rest) ← commandOf fuel (skipLines (← expect ")" rest))
          return (.define name body, rest)
        | _, _ => some (.simple s.assignments s.words s.redirects, rest)

def bodyOf : Nat → List Token → Parsed
  | 0, _ => none
  | fuel + 1, ts => do
    let (body, ts) ← listOf fuel false (← expect "do" ts)
    return (body, ← expect "done" ts)

/-- What follows `if` or `elif`, including the final `fi`. -/
def branchOf : Nat → List Token → Parsed
  | 0, _ => none
  | fuel + 1, ts => do
    let (condition, ts) ← listOf fuel false ts
    let (yes, ts) ← listOf fuel false (← expect "then" ts)
    if startsWith "elif" ts then
      let (no, ts) ← branchOf fuel ts.tail
      return (.branch condition yes (some no), ts)
    else if startsWith "else" ts then
      let (no, ts) ← listOf fuel false ts.tail
      return (.branch condition yes (some no), ← expect "fi" ts)
    else return (.branch condition yes none, ← expect "fi" ts)

def eachOf : Nat → List Token → Parsed
  | 0, _ => none
  | fuel + 1, .word w :: ts => do
    let name ← bareText? w
    if !isName name then none
    if startsWith "in" (skipLines ts) then
      let (words, ts) := wordsBefore (skipLines ts).tail
      let (body, ts) ← bodyOf fuel (skipLines (← wordsEnd? ts))
      return (.each name (some words) body, ts)
    else
      let rest := (expect ";" (skipLines ts)).getD ts
      let (body, ts) ← bodyOf fuel (skipLines rest)
      return (.each name none body, ts)
  | _, _ => none

def selectOf : Nat → List Token → Parsed
  | 0, _ => none
  | fuel + 1, .word w :: ts => do
    let (arms, ts) ← armsOf fuel (← expect "in" (skipLines ts))
    return (.select w arms, ts)
  | _, _ => none

def armsOf : Nat → List Token → Option (List (List Word × Command) × List Token)
  | 0, _ => none
  | fuel + 1, ts => do
    let ts := skipLines ts
    if startsWith "esac" ts then return ([], ts.tail)
    let (patterns, ts) ← patterns? ((expect "(" ts).getD ts)
    let (body, ts) ← listOf fuel true ts
    if startsWith "esac" ts then return ([(patterns, body)], ts.tail)
    let (more, ts) ← armsOf fuel (← expect ";;" ts)
    return ((patterns, body) :: more, ts)

end

def lineOf : Nat → List Token → Parsed
  | 0, _ => none
  | fuel + 1, ts => do
    let (first, ts) ← chainOf fuel ts
    let (first, ts) ← match ts with
      | [] | .op none "\n" :: _ => some (first, ts)
      | _ => ended? first ts
    match ts with
    | [] => return (first, [])
    | .op none "\n" :: rest => return (first, rest)
    | _ =>
      let (more, ts) ← lineOf fuel ts
      return (.seq first more, ts)

def line? (ts : List Token) : Parsed :=
  lineOf (12 * ts.length + 12) ts

end Script

end PbesLab.Shell
