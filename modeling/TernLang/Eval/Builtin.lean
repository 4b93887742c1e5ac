import TernLang.Run

/-!
The functions every program has. Each checks the number and the types of its arguments itself; only
`puts` writes anything.
-/
namespace TernLang.Builtin

def onSequence (b : Builtin) (onString : List Char → Value) (onArray : List Value → Value) :
    List Value → Value
  | [.str s] => onString s.toList
  | [.array vs] => onArray vs
  | [v] => .fail (.unsupported b v.tag)
  | args => .fail (.builtinCount args.length 1)

def result : Builtin → List Value → Value
  | len, args => onSequence len (fun cs => .int cs.length) (fun vs => .int vs.length) args
  | first, args =>
    onSequence first (fun cs => .str (String.ofList (cs.take 1))) (fun vs => vs.headD .null) args
  | last, args =>
    onSequence last (fun cs => .str (String.ofList cs.getLast?.toList))
      (fun vs => vs.getLastD .null) args
  | tail, args =>
    onSequence tail (fun cs => .str (String.ofList (cs.drop 1))) (fun vs => .array (vs.drop 1)) args
  | push, [.array vs, v] => .array (vs ++ [v])
  | push, [v, _] => .fail (.unsupported push v.tag)
  | push, args => .fail (.builtinCount args.length 2)
  | puts, _ => .null

def printed : Builtin → List Value → String
  | puts, args => String.join (args.map fun v => v.text ++ "\n")
  | _, _ => ""

def apply {m : Type → Type} [Monad m] [MonadRun m] (b : Builtin) (args : List Value) :
    m Value := do
  Run.write (b.printed args)
  MonadRun.answer (b.result args)

end TernLang.Builtin
