import TernLang.Files.Path

/-!
The messages that a run leaves for whoever looks for the cause of a fault. All are of the level
`debug`.
-/
namespace TernLang

inductive LogEvent where
  | fileGiven (path : String)
  | shellStarted
  | running (path : Path)
  | textRefused (errors : Nat)
  | moduleLoading (name : String) (path : Path)
  | exiting (code : Int)

namespace LogEvent

def debugLevel : Nat := 10

def source : LogEvent → String
  | fileGiven _ | shellStarted => "tern"
  | running _ => "tern.interpreter"
  | textRefused _ => "tern.reader.parser"
  | moduleLoading _ _ => "tern.modules.module_loader"
  | exiting _ => "tern.evaluation.forms.statement_forms"

def message : LogEvent → String
  | fileGiven path => "running file " ++ path
  | shellStarted => "starting interactive shell"
  | running path => "running " ++ path.text
  | textRefused errors => "parse finished with " ++ toString errors ++ " error(s)"
  | moduleLoading name path => "loading module " ++ name ++ " from " ++ path.text
  | exiting code => "exit " ++ toString code

def line (e : LogEvent) : String := "DEBUG " ++ e.source ++ ": " ++ e.message ++ "\n"

end LogEvent
end TernLang
