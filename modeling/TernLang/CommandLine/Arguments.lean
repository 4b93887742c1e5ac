import TernLang.Text.Digit
import TernLang.Text.Quoted

/-!
The arguments of the command line, `[-h] [-v] [file]`. An option has a short and a long name; a long
name may be cut short as long as one option is meant, and short names may share a dash. All options
are taken before an argument that is neither an option nor the one file is refused.
-/
namespace TernLang.CommandLine

inductive Switch where
  | help | verbose
  deriving DecidableEq, Repr

namespace Switch

def all : List Switch := [help, verbose]

def letter : Switch → Char
  | help => 'h'
  | verbose => 'v'

def longName : Switch → String
  | help => "--help"
  | verbose => "--verbose"

def names (s : Switch) : String := "-" ++ String.ofList [s.letter] ++ "/" ++ s.longName

def ofLetter? (c : Char) : Option Switch := all.find? fun s => s.letter = c

def startingWith (name : List Char) : List Switch :=
  all.filter fun s => name.isPrefixOf s.longName.toList

end Switch

inductive UsageError where
  | ambiguous (argument : String) (options : List Switch)
  | valueGiven (s : Switch) (value : String)
  | unrecognized (arguments : List String)

def UsageError.message : UsageError → String
  | ambiguous argument options =>
    "ambiguous option: " ++ argument ++ " could match " ++
      ", ".intercalate (options.map Switch.longName)
  | valueGiven s value =>
    "argument " ++ s.names ++ ": ignored explicit argument " ++ Text.quote value
  | unrecognized arguments => "unrecognized arguments: " ++ " ".intercalate arguments

inductive Item where
  | positional (text : String)
  | divider
  | unknown (text : String)
  | cluster (s : Switch) (rest : List Char)
  | single (s : Switch) (value : Option String)

def withoutLineFeed (cs : List Char) : List Char :=
  if cs.getLast? = some '\n' then cs.dropLast else cs

/-- Whether digits, or a fraction, stand behind a dash. A number may end in one line feed. -/
def isNegativeNumber (behind : List Char) : Bool :=
  let digits := withoutLineFeed behind
  match digits.dropWhile Text.isDecimal with
  | [] => !digits.isEmpty
  | '.' :: fraction => !fraction.isEmpty && fraction.all Text.isDecimal
  | _ => false

/-- An argument with a dash that names no option: a negative number or a text with a blank is no
option at all. -/
def Item.unnamed (text : String) : Item :=
  if isNegativeNumber (text.toList.drop 1) || text.toList.contains ' ' then positional text
  else unknown text

def Item.ofLong (text : String) : Except UsageError Item :=
  let name := text.toList.takeWhile (· ≠ '=')
  let value :=
    match text.toList.dropWhile (· ≠ '=') with
    | [] => none
    | _ :: value => some (String.ofList value)
  match Switch.startingWith name with
  | [] => .ok (unnamed text)
  | [s] => .ok (single s value)
  | many => .error (.ambiguous text many)

/-- An equals sign right behind a short name is skipped, so what follows it are more letters; with
nothing behind the sign, the switch was given an empty value. -/
def Item.ofShort (s : Switch) : List Char → Item
  | ['='] => single s (some "")
  | '=' :: rest => cluster s rest
  | rest => cluster s rest

def Item.of (text : String) : Except UsageError Item :=
  match text.toList with
  | '-' :: '-' :: _ => ofLong text
  | '-' :: c :: rest =>
    match Switch.ofLetter? c with
    | some s => .ok (ofShort s rest)
    | none => .ok (unnamed text)
  | _ => .ok (positional text)

/-- The items of the arguments; a name that could be two options is refused at once. -/
def Item.ofAll : List String → Except UsageError (List Item)
  | [] => .ok []
  | text :: texts =>
    if text = "--" then .ok (divider :: texts.map positional)
    else do
      let item ← Item.of text
      let items ← ofAll texts
      pure (item :: items)

/-- The switches under one dash. A letter that is none of them is taken, with all behind it, for a
value of the switch before it. -/
def Switch.cluster (s : Switch) : List Char → Except UsageError (List Switch)
  | [] => .ok [s]
  | c :: rest =>
    match Switch.ofLetter? c with
    | none => .error (.valueGiven s (String.ofList (c :: rest)))
    | some t => do
      let switches ← Switch.cluster t rest
      pure (s :: switches)

inductive Request where
  | help
  | run (verbose : Bool) (file : Option String)
  deriving DecidableEq, Repr

structure Reading where
  verbose : Bool
  /-- Whether the place of the file is taken; it is also taken by a divider with nothing behind. -/
  taken : Bool
  file : Option String
  left : List String

/-- Acts on the items in turn. A request for help ends the reading; a value given to a switch is an
error when its turn comes. -/
def Reading.go (r : Reading) : List Item → Except UsageError Request
  | [] => if r.left.isEmpty then .ok (.run r.verbose r.file) else .error (.unrecognized r.left)
  | .unknown text :: items => { r with left := r.left ++ [text] }.go items
  | .single s (some value) :: _ => .error (.valueGiven s value)
  | .single .help none :: _ => .ok .help
  | .single .verbose none :: items => { r with verbose := true }.go items
  | .cluster s rest :: items =>
    match s.cluster rest with
    | .error e => .error e
    | .ok switches =>
      if switches.contains .help then .ok .help
      else { r with verbose := true }.go items
  | .positional text :: .divider :: items =>
    if r.taken then { r with left := r.left ++ [text, "--"] }.go items
    else { r with taken := true, file := some text }.go items
  | .positional text :: items =>
    if r.taken then { r with left := r.left ++ [text] }.go items
    else { r with taken := true, file := some text }.go items
  | .divider :: .positional text :: items =>
    if r.taken then { r with left := r.left ++ ["--", text] }.go items
    else { r with taken := true, file := some text }.go items
  | .divider :: items =>
    if r.taken then { r with left := r.left ++ ["--"] }.go items
    else { r with taken := true }.go items

def Request.ofArguments (arguments : List String) : Except UsageError Request :=
  match Item.ofAll arguments with
  | .error e => .error e
  | .ok items => Reading.go ⟨false, false, none, []⟩ items

end TernLang.CommandLine
