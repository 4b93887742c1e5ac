import TernLang.Eval.Builtin
import TernLang.Eval.Module
import TernLang.Eval.Operator

/-!
Evaluation. Each form of node is evaluated by a function that takes the evaluator of its parts as an
argument, wherever that evaluator evaluates them; `eval` ties them together in runs, one level of
nesting at a time.

Control values travel as answers: whatever receives one from a part hands it up at once, until it
reaches the construct that uses it. A loop uses a break, a call and a program use a return.
-/
namespace TernLang

abbrev EvaluatorIn (m : Type → Type) := Node → FrameId → m Value

abbrev Evaluator := EvaluatorIn Run

variable {m : Type → Type} [Monad m] [MonadRun m]

/-- Goes on with a data value; a control value is handed up. -/
def onData (r : m Value) (k : Value → m Value) : m Value := do
  let v ← r
  if v.isControl then pure v else k v

theorem onData_run {r : Run Value} {k : Value → Run Value} {w x : World} {v : Value}
    (run : r w = (.ok v, x)) (data : v.isControl = false) : onData r k w = k v x := by
  unfold onData
  rw [Run.bind_ok run, data]
  rfl

theorem onData_error {r : Run Value} {k : Value → Run Value} {w x : World} {h : Halt}
    (run : r w = (.error h, x)) : onData r k w = (.error h, x) := Run.bind_error run

/-- What is left of a control value where a call or a program ends. -/
def Value.landed : Value → Value
  | .ret v => v
  | .brk => .fail .strayBreak
  | v => v

namespace Eval

def all (rec : EvaluatorIn m) (i : FrameId) : List Expr → m (Except Value (List Value))
  | [] => pure (.ok [])
  | e :: es => do
    let v ← rec (.expr e) i
    if v.isControl then pure (.error v)
    else
      let rest ← all rec i es
      match rest with
      | .ok vs => pure (.ok (v :: vs))
      | .error c => pure (.error c)

def onAll (rec : EvaluatorIn m) (i : FrameId) (es : List Expr) (k : List Value → m Value) :
    m Value := do
  let vs ← all rec i es
  match vs with
  | .ok vs => k vs
  | .error c => pure c

def ident (name : String) (i : FrameId) : Run Value := do
  let s ← Run.store
  match s.get name i with
  | some v => pure v
  | none =>
    match Builtin.ofName? name with
    | some b => pure (.builtin b)
    | none => pure (.fail (.unbound name))

theorem ident_eq (name : String) (i : FrameId) (w : World) :
    ident name i w = (.ok ((w.store.get name i).getD (match Builtin.ofName? name with
      | some b => .builtin b
      | none => .fail (.unbound name))), w) := by
  have look : (Run.store w : Except Halt Store × World) = (.ok w.store, w) := rfl
  unfold ident
  rw [Run.bind_ok look]
  cases w.store.get name i with
  | some v => rfl
  | none =>
    cases Builtin.ofName? name with
    | some b => rfl
    | none => rfl

/-- Adds the pairs of a hash to those it has. A key is checked before its value is evaluated. -/
def pairs (rec : EvaluatorIn m) (i : FrameId) : List (Key × Value) → List (Expr × Expr) → m Value
  | done, [] => pure (.hash done)
  | done, (key, value) :: ps =>
    onData (rec (.expr key) i) fun k =>
      if k.isKey then
        onData (rec (.expr value) i) fun v => do
          let k ← Run.ofExcept k.key
          pairs rec i (putPair k v done) ps
      else pure (.fail (.unkeyable k.tag))

def bindAll (i : FrameId) : List Ident → List Value → Run Unit
  | p :: ps, v :: vs => do
    Run.assign i p.name v
    bindAll i ps vs
  | _, _ => pure ()

def callFrame (parameters : List Ident) (home : FrameId) (args : List Value) : Run FrameId := do
  let i ← Run.newFrame (some home)
  bindAll i parameters args
  pure i

def apply (rec : EvaluatorIn m) (callee : Value) (args : List Value) : m Value :=
  match callee with
  | .fn parameters body home =>
    if args.length = parameters.length then do
      let i ← callFrame parameters home args
      let v ← rec (.block body) i
      pure v.landed
    else pure (.fail (.argumentCount args.length parameters.length))
  | .builtin b => b.apply args
  | v => pure (.fail (.notCallable v.tag))

def element (left index : Value) : Value :=
  match left, index with
  | .array vs, .int n =>
    if n < 0 then .fail (.outOfBounds n) else vs.getD n.toNat (.fail (.outOfBounds n))
  | l, n => .fail (.notIndexed l.tag n.tag)

/-- Goes round until the body answers a control value. A break ends the loop alone. -/
def loop (rec : EvaluatorIn m) (body : Block) (i : FrameId) : Nat → m Value
  | 0 => liftM (Run.halt .unfinished : Run Value)
  | n + 1 => do
    let v ← rec (.block body) i
    match v with
    | .brk => pure .null
    | .ret v => pure (.ret v)
    | .err m => pure (.err m)
    | _ => loop rec body i n

/-- The value of the last statement; a control value ends the block and is handed up. -/
def block (rec : EvaluatorIn m) (i : FrameId) : Value → List Stmt → m Value
  | last, [] => pure last
  | _, s :: ss => onData (rec (.stmt s) i) fun v => block rec i v ss

def cond (rec : EvaluatorIn m) (i : FrameId) (c : Expr) (b : Block) (a : Option Block) : m Value :=
  onData (rec (.expr c) i) fun v =>
    if v.holds then rec (.block b) i
    else
      match a with
      | some a => rec (.block a) i
      | none => pure .null

def expr (rounds : Nat) (rec : EvaluatorIn m) (i : FrameId) : Expr → m Value
  | .ident x => liftM (ident x.name i)
  | .int n => pure (.int n.value)
  | .str s => pure (.str s.value)
  | .bool _ b => pure (.bool b)
  | .array _ es => onAll rec i es fun vs => pure (.array vs)
  | .hash _ ps => pairs rec i [] ps
  | .unary _ op r => onData (rec (.expr r) i) fun v => MonadRun.answer (Operator.unary op v)
  | .binary _ l op r =>
    onData (rec (.expr l) i) fun v => onData (rec (.expr r) i) fun w =>
      MonadRun.answer (Operator.binary op v w)
  | .cond _ c b a => cond rec i c b a
  | .fn _ ps b => pure (.fn ps b i)
  | .call _ f es => onData (rec (.expr f) i) fun v => onAll rec i es fun vs => apply rec v vs
  | .index _ l n =>
    onData (rec (.expr l) i) fun v => onData (rec (.expr n) i) fun w => pure (element v w)
  | .loop _ b => loop rec b i rounds
  | .stray form => pure (.fail (.unknownNode form))

def load (host : Host) (rec : EvaluatorIn m) (i : FrameId) (name : String) : m Value := do
  let v ← Run.loadModule host (fun p => rec (.program p) i) name
  if v.isError then pure v else pure .null

def exit (code : Int) : Run Value := do
  Run.note (.exiting code)
  Run.halt (.exit code)

def stmt (host : Host) (rec : EvaluatorIn m) (i : FrameId) : Stmt → m Value
  | .bind _ x e => onData (rec (.expr e) i) fun v => do
    Run.assign i x.name v
    pure .null
  | .ret _ e => onData (rec (.expr e) i) fun v => pure (.ret v)
  | .expr _ e => rec (.expr e) i
  | .block b => block rec i .null b.statements
  | .load _ p => load host rec i p.value
  | .exit _ n => liftM (exit n.value)
  | .brk _ => pure .brk
  | .stray form => pure (.fail (.unknownNode form))

end Eval

structure Context where
  host : Host
  rounds : Nat
  deriving Inhabited

/-- One node, given the evaluator of its parts. -/
def evalStep (cx : Context) (rec : EvaluatorIn m) : EvaluatorIn m
  | .program p, i => do
    let v ← Eval.block rec i .null p.statements
    pure v.landed
  | .block b, i => Eval.block rec i .null b.statements
  | .stmt s, i => Eval.stmt cx.host rec i s
  | .expr e, i => Eval.expr cx.rounds rec i e

/-- Evaluates a node whose parts nest at most so deep; a deeper one halts the run. -/
def eval (cx : Context) : Nat → Evaluator
  | 0, _, _ => Run.halt .tooDeep
  | depth + 1, node, i => evalStep cx (eval cx depth) node i

end TernLang
