namespace PbesLab.Text

def sortedSet (names : List String) : List String :=
  names.eraseDups.mergeSort fun a b => !decide (b < a)

def firstRepeatAfter? (seen : List String) : List String → Option String
  | [] => none
  | x :: xs => if x ∈ seen then some x else firstRepeatAfter? (x :: seen) xs

/-- The first name that occurs before its place. -/
def firstRepeat? (names : List String) : Option String :=
  firstRepeatAfter? [] names

end PbesLab.Text
