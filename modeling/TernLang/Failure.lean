import TernLang.Files.FileSystem
import TernLang.Syntax.Error
import TernLang.Value.Basic

/-!
What goes wrong in a run. A `Failure` is the cause of an error value, which the program's text can
come across; a `Halt` ends the run from outside the language.
-/
namespace TernLang

inductive Failure where
  | typeMismatch (left : TypeTag) (operator : String) (right : TypeTag)
  | noBinary (left : TypeTag) (operator : String) (right : TypeTag)
  | noUnary (operator : String) (right : TypeTag)
  | divisionByZero
  | unbound (name : String)
  | unkeyable (key : TypeTag)
  | notIndexed (left index : TypeTag)
  | outOfBounds (index : Int)
  | strayBreak
  | notCallable (callee : TypeTag)
  | argumentCount (got expected : Nat)
  | builtinCount (got expected : Nat)
  | unsupported (b : Builtin) (argument : TypeTag)
  | unknownNode (form : Stray)
  | moduleNotFound (name : String)
  | circularImport (name : String)
  | moduleUnreadable (path : Path) (why : Unreadable)
  | moduleMalformed (name : String) (errors : List SyntaxError)

def unreadableText (path : Path) (why : Unreadable) : String :=
  "cannot read module " ++ path.text ++ ": " ++ why.reason

def errorLines (errors : List SyntaxError) : String :=
  "\n".intercalate (errors.map SyntaxError.message)

def unkeyableText (key : TypeTag) : String := "unusable as hash key: " ++ key.name

def Failure.message : Failure → String
  | typeMismatch l op r => "type mismatch: " ++ l.name ++ " " ++ op ++ " " ++ r.name
  | noBinary l op r => "unknown operator: " ++ l.name ++ " " ++ op ++ " " ++ r.name
  | noUnary op r => "unknown operator: " ++ op ++ r.name
  | divisionByZero => "division by zero"
  | unbound name => "identifier not found: " ++ name
  | unkeyable key => unkeyableText key
  | notIndexed l i => "index operator not supported: " ++ l.name ++ "[" ++ i.name ++ "]"
  | outOfBounds i => "index out of bounds: " ++ toString i
  | strayBreak => "break outside loop"
  | notCallable f => "not a function: " ++ f.name
  | argumentCount got expected =>
    "wrong number of arguments to fn: got=" ++ toString got ++ ", expected=" ++ toString expected
  | builtinCount got expected =>
    "wrong number of arguments. got=" ++ toString got ++ ", expected=" ++ toString expected
  | unsupported b v => "argument to '" ++ b.name ++ "' not supported, got " ++ v.name
  | unknownNode form => "unknown node: " ++ form.name
  | moduleNotFound name => "module not found: " ++ name
  | circularImport name => "circular import: " ++ name
  | moduleUnreadable path why => unreadableText path why
  | moduleMalformed name errors => "parse errors in " ++ name ++ ":\n" ++ errorLines errors

def Value.fail (f : Failure) : Value := .err f.message

inductive Halt where
  | exit (code : Int)
  | tooDeep
  | unfinished
  | controlBound (value name : String)
  | unkeyable (key : TypeTag)
  | emptyName
  | nulInPath
  | nameTooLong
  | notUtf8
  | unreadable (path : Path) (why : Unreadable)
  | malformed (errors : List SyntaxError)
  | badLimit
  | hugeLimit

def Halt.message : Halt → String
  | exit code => toString code
  | tooDeep => "maximum recursion depth exceeded"
  | unfinished => "unfinished"
  | controlBound value name => "Cannot bind control value " ++ value ++ " to " ++ name
  | unkeyable key => unkeyableText key
  | emptyName => "empty module name"
  | nulInPath => "null character in path"
  | nameTooLong => Unreadable.nameTooLong.reason
  | notUtf8 => "not UTF-8"
  | unreadable path why => unreadableText path why
  | malformed errors => errorLines errors
  | badLimit => "unusable recursion limit"
  | hugeLimit => "recursion limit too large"

def Value.key (v : Value) : Except Halt Key :=
  match v.key? with
  | some k => .ok k
  | none => .error (.unkeyable v.tag)

end TernLang
