/-!
Bytecode. An instruction is an opcode byte and its operands, the high byte of each first; a table of
definitions gives every opcode a name and the widths of its operands. An operand keeps the low bits
that its width has room for, and only operands of one and two bytes are stored.
-/
namespace TernLang.Bytecode

structure Definition where
  name : String
  widths : List Nat
  deriving DecidableEq, Repr

/-- Definitions by opcode; the first one for an opcode counts. -/
abbrev Definitions := List (Int × Definition)

def constant : Definition := ⟨"CONSTANT", [2]⟩

def definitions : Definitions := [(0, constant)]

inductive Fault where
  | undefinedOpcode (opcode : Int)
  | notByte (opcode : Int)
  | outOfRange
  deriving DecidableEq, Repr

def Fault.message : Fault → String
  | undefinedOpcode opcode => "opcode " ++ toString opcode ++ " undefined"
  | notByte opcode => "opcode " ++ toString opcode ++ " is no byte"
  | outOfRange => "index out of range"

def define (defs : Definitions) (opcode : Int) (d : Definition) : Definitions :=
  (opcode, d) :: defs

def definition (defs : Definitions) (opcode : Int) : Except Fault Definition :=
  match defs.find? fun d => d.1 = opcode with
  | some d => .ok d.2
  | none => .error (.undefinedOpcode opcode)

def lowByte (n : Int) : UInt8 := UInt8.ofNat (n % 256).toNat

def operandBytes (width : Nat) (n : Int) : List UInt8 :=
  match width with
  | 1 => [lowByte n]
  | 2 => [lowByte (n / 256), lowByte n]
  | _ => []

/-- A missing operand is zero, one too many is left out. -/
def operandsBytes : List Nat → List Int → List UInt8
  | [], _ => []
  | width :: widths, [] => operandBytes width 0 ++ operandsBytes widths []
  | width :: widths, n :: ns => operandBytes width n ++ operandsBytes widths ns

def encode (defs : Definitions) (opcode : Int) (operands : List Int) : Except Fault (List UInt8) :=
  match definition defs opcode with
  | .error e => .error e
  | .ok d =>
    if 0 ≤ opcode ∧ opcode < 256 then .ok (lowByte opcode :: operandsBytes d.widths operands)
    else .error (.notByte opcode)

/-- The byte at a place; places below zero count from the end. -/
def byteAt (bytes : List UInt8) (i : Int) : Except Fault UInt8 :=
  let place := if i < 0 then i + bytes.length else i
  if place < 0 then .error .outOfRange
  else
    match bytes[place.toNat]? with
    | some b => .ok b
    | none => .error .outOfRange

def wordAt (bytes : List UInt8) (i : Int) : Except Fault Nat :=
  match byteAt bytes i, byteAt bytes (i + 1) with
  | .ok high, .ok low => .ok (256 * high.toNat + low.toNat)
  | .error e, _ => .error e
  | _, .error e => .error e

/-- The operand of a width at a place; a width that is not stored has none. -/
def operandAt (width : Nat) (bytes : List UInt8) (place : Nat) : Except Fault (List Nat) :=
  match width with
  | 1 => (byteAt bytes place).map fun b => [b.toNat]
  | 2 => (wordAt bytes place).map fun n => [n]
  | _ => .ok []

def operandsFrom (bytes : List UInt8) : List Nat → Nat → Except Fault (List Nat × Nat)
  | [], place => .ok ([], place)
  | width :: widths, place =>
    match operandAt width bytes place with
    | .error e => .error e
    | .ok n =>
      match operandsFrom bytes widths (place + width) with
      | .error e => .error e
      | .ok (ns, stop) => .ok (n ++ ns, stop)

def decodeOperands (widths : List Nat) (bytes : List UInt8) : Except Fault (List Nat × Nat) :=
  operandsFrom bytes widths 0

def padded (n : Nat) : String :=
  let digits := (toString n).toList
  String.ofList (List.replicate (4 - digits.length) '0' ++ digits)

def line (place : Nat) (d : Definition) (operands : List Nat) : String :=
  padded place ++ " " ++ d.name ++
    (if operands.isEmpty then "" else " " ++ " ".intercalate (operands.map toString)) ++ "\n"

def disassembleFrom (defs : Definitions) (place : Nat) (bytes : List UInt8) :
    Except Fault String :=
  match bytes with
  | [] => .ok ""
  | opcode :: rest =>
    match definition defs opcode.toNat with
    | .error e => .error e
    | .ok d =>
      match decodeOperands d.widths rest with
      | .error e => .error e
      | .ok (operands, size) =>
        match disassembleFrom defs (place + 1 + size) (rest.drop size) with
        | .error e => .error e
        | .ok text => .ok (line place d operands ++ text)
termination_by bytes.length
decreasing_by simp only [List.length_drop, List.length_cons]; omega

/-- One line for each instruction: its place, its name and its operands. -/
def disassemble (defs : Definitions) (bytes : List UInt8) : Except Fault String :=
  disassembleFrom defs 0 bytes

end TernLang.Bytecode
