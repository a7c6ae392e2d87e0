namespace PbesLab

inductive Level
  | debug
  | info
  | warn
deriving DecidableEq

def Level.text : Level → String
  | .debug => "DEBUG"
  | .info => "INFO"
  | .warn => "WARN"

inductive Area
  | program
  | search
  | trial
  | tools
deriving DecidableEq

structure LogLine where
  area : Area
  level : Level
  message : String
deriving DecidableEq

/-- Characters that could steer a terminal: escape, bell, backspace, form feed and delete. -/
def steering : List (Char × String) :=
  [('\x1b', "\\x1b"), ('\x07', "\\x07"), ('\x08', "\\x08"), ('\x0c', "\\x0c"),
    ('\x7f', "\\x7f")]

/-- A character as it is logged. Those that could steer a terminal, among them the second block of
controls, are spelled out; tabs and line ends stay. -/
def loggedChar (c : Char) : String :=
  match steering.lookup c with
  | some t => t
  | none =>
    if 0x80 ≤ c.toNat ∧ c.toNat ≤ 0x9f then
      "\\u\x7b" ++ String.ofList (Nat.toDigits 16 c.toNat) ++ "\x7d"
    else String.singleton c

def LogLine.text (l : LogLine) : String :=
  l.level.text ++ " " ++ String.join (l.message.toList.map loggedChar)

end PbesLab
