import PbesLab.EqSystem.Reader
import PbesLab.ClassTable.Reader
import PbesLab.Disk.Basic

namespace PbesLab

inductive Failure
  | reading (f : ReadFault)
  | table (f : TableFault)
  | file (f : FileFault)
  | notExecutable (tool : String)
  | toolExited (tool : String) (code : Int)
  | testFailed (file : String)
deriving DecidableEq

def Failure.message : Failure → String
  | reading f => f.message
  | table f => f.message
  | file f => "File Error: " ++ f.message
  | notExecutable tool => "Child Error: unable to execute '" ++ tool ++ "'"
  | toolExited tool code =>
    "Child Error: '" ++ tool ++ "' exited with error '" ++ toString code ++ "'"
  | testFailed name => "Test " ++ name ++ " failed"

end PbesLab
