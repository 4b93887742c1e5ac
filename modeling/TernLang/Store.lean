import TernLang.Value.Display

/-!
Bindings. A frame binds names to values in the order in which they were first bound, and may have an
outer frame; a name that a frame does not bind is looked up outward. Frames live in a store and are
never removed. An outer frame was there before its inner ones, so every walk outward ends.
-/
namespace TernLang

structure Frame where
  vars : List (String × Value)
  outer : Option FrameId
  deriving Inhabited

/-- Binds a name in its place if it has one, else at the end. -/
def bindVar (name : String) (v : Value) : List (String × Value) → List (String × Value)
  | [] => [(name, v)]
  | (n, w) :: vars => if n = name then (n, v) :: vars else (n, w) :: bindVar name v vars

def lookupVar (name : String) : List (String × Value) → Option Value
  | [] => none
  | (n, v) :: vars => if n = name then some v else lookupVar name vars

theorem lookupVar_bindVar (name other : String) (v : Value) (vars : List (String × Value)) :
    lookupVar other (bindVar name v vars) =
      if name = other then some v else lookupVar other vars := by
  induction vars with
  | nil => simp [bindVar, lookupVar]
  | cons var vars ih =>
    obtain ⟨n, w⟩ := var
    simp only [bindVar]
    split
    · subst n; simp only [lookupVar]; split <;> rfl
    · rename_i differs
      simp only [lookupVar, ih]
      split
      · subst n; simp [Ne.symm differs]
      · rfl

theorem names_bindVar (name : String) (v : Value) (vars : List (String × Value)) :
    (bindVar name v vars).map Prod.fst =
      if name ∈ vars.map Prod.fst then vars.map Prod.fst else vars.map Prod.fst ++ [name] := by
  induction vars with
  | nil => rfl
  | cons var vars ih =>
    obtain ⟨n, w⟩ := var
    simp only [bindVar]
    split
    · rename_i same; simp [same]
    · rename_i differs
      simp only [List.map_cons, ih, List.mem_cons, Ne.symm differs, false_or]
      split <;> simp

def Frame.lookup (f : Frame) (name : String) : Option Value := lookupVar name f.vars

def Frame.varsText (f : Frame) : String :=
  braced (", ".intercalate (f.vars.map fun (n, v) => n ++ ": " ++ v.text))

def Frame.text (f : Frame) : String :=
  f.varsText ++ if f.outer.isSome then " -> ..." else ""

structure Store where
  frames : Array Frame
  deriving Inhabited

namespace Store

def empty : Store := ⟨#[]⟩

def frame? (s : Store) (i : FrameId) : Option Frame := s.frames[i]?

def next (s : Store) : FrameId := s.frames.size

def push (s : Store) (f : Frame) : Store := ⟨s.frames.push f⟩

def newFrame (s : Store) (outer : Option FrameId) : Store := s.push ⟨[], outer⟩

def bind (s : Store) (i : FrameId) (name : String) (v : Value) : Store :=
  ⟨s.frames.modify i fun f => { f with vars := bindVar name v f.vars }⟩

/-- The nearest frame, from `i` outward, that binds the name. -/
def find (s : Store) (name : String) (i : FrameId) : Option FrameId :=
  match s.frame? i with
  | none => none
  | some f =>
    if (f.lookup name).isSome then some i
    else
      match f.outer with
      | none => none
      | some o => if o < i then s.find name o else none
termination_by i

def get (s : Store) (name : String) (i : FrameId) : Option Value :=
  match s.find name i with
  | none => none
  | some o => (s.frame? o).bind (·.lookup name)

def contains (s : Store) (name : String) (i : FrameId) : Bool := (s.find name i).isSome

def chain (s : Store) (i : FrameId) : List Frame :=
  match s.frame? i with
  | none => []
  | some f =>
    f :: match f.outer with
      | none => []
      | some o => if o < i then s.chain o else []
termination_by i

def vars (s : Store) (i : FrameId) : List (String × Value) :=
  match s.frame? i with
  | none => []
  | some f => f.vars

def text (s : Store) (i : FrameId) : String :=
  match s.frame? i with
  | none => ""
  | some f => f.text

def chainText (s : Store) (i : FrameId) : String :=
  "<Environment chain: " ++ " -> ".intercalate ((s.chain i).map Frame.varsText) ++ ">"

end Store
end TernLang
