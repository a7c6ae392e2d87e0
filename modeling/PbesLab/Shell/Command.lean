namespace PbesLab.Shell

/-- A piece of a word. What is quoted stays one piece. -/
inductive Part
  | text (value : String) (quoted : Bool)
  /-- The value of a parameter, changed as the rest of the braces says. -/
  | param (name : String) (change : String) (quoted : Bool)
  /-- The number of bytes in the value of a parameter. -/
  | length (name : String) (quoted : Bool)
  /-- What a script writes. -/
  | output (script : String) (quoted : Bool)
  | arithmetic (expression : String) (quoted : Bool)

abbrev Word := List Part

inductive RedirectKind
  | read
  | write
  | append
  | copy
  /-- The word is the text that is read. -/
  | here
deriving DecidableEq

structure Redirect where
  stream : Nat
  kind : RedirectKind
  target : Word

inductive Command
  | nothing
  | simple (assignments : List (String × Word)) (words : List Word) (redirects : List Redirect)
  | seq (first second : Command)
  | both (first second : Command)
  | either (first second : Command)
  | negate (body : Command)
  | pipe (first second : Command)
  | background (body : Command)
  | branch (condition yes : Command) (no : Option Command)
  | loop (until? : Bool) (condition body : Command)
  /-- Without words the parameters are gone through. -/
  | each (name : String) (words : Option (List Word)) (body : Command)
  | select (subject : Word) (arms : List (List Word × Command))
  | define (name : String) (body : Command)
  | group (body : Command) (redirects : List Redirect)
  | sub (body : Command) (redirects : List Redirect)

/-- The text of a word without quotes and parameters. -/
def bareText? : Word → Option String
  | [.text t false] => some t
  | _ => none

end PbesLab.Shell
