namespace PbesLab.Text

def withoutEnding (ending text : String) : String :=
  let cs := text.toList
  if ending.toList.isSuffixOf cs then String.ofList (cs.take (cs.length - ending.toList.length))
  else text

def padded (width : Nat) (text : String) : String :=
  text ++ String.ofList (List.replicate (width - text.length) ' ')

end PbesLab.Text
