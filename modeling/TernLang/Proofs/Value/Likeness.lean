import Mathlib.Data.List.Forall2
import TernLang.Proofs.Value.Data

/-!
Likeness of values. Two values are alike if they differ only in what a likeness overlooks: how the
bodies of functions are written, and the places of the frames that functions see. Values that are
alike have the same type and the same texts.
-/
namespace TernLang

/-- The names that a node itself looks up or binds, or that its calls bind. -/
def Node.names : Node → List String
  | .expr (.ident x) => [x.name]
  | .expr (.fn _ ps _) => ps.map Ident.name
  | .stmt (.bind _ x _) => [x.name]
  | _ => []

/-- Two nodes of one form, whose parts are related in turn. Tokens do not matter. -/
inductive Node.SameForm (R : Node → Node → Prop) : Node → Node → Prop where
  | program {p q : Program}
    (statements : List.Forall₂ (fun s t => R (.stmt s) (.stmt t)) p.statements q.statements) :
    SameForm R (.program p) (.program q)
  | block {b c : Block}
    (statements : List.Forall₂ (fun s t => R (.stmt s) (.stmt t)) b.statements c.statements) :
    SameForm R (.block b) (.block c)
  | braces {b c : Block}
    (statements : List.Forall₂ (fun s t => R (.stmt s) (.stmt t)) b.statements c.statements) :
    SameForm R (.stmt (.block b)) (.stmt (.block c))
  | bind {t u : Token} {x y : Ident} {e d : Expr} (name : x.name = y.name)
    (value : R (.expr e) (.expr d)) : SameForm R (.stmt (.bind t x e)) (.stmt (.bind u y d))
  | returns {t u : Token} {e d : Expr} (value : R (.expr e) (.expr d)) :
    SameForm R (.stmt (.ret t e)) (.stmt (.ret u d))
  | simple {t u : Token} {e d : Expr} (value : R (.expr e) (.expr d)) :
    SameForm R (.stmt (.expr t e)) (.stmt (.expr u d))
  | load {t u : Token} {p q : StrLit} (path : p.value = q.value) :
    SameForm R (.stmt (.load t p)) (.stmt (.load u q))
  | exit {t u : Token} {n m : IntLit} (code : n.value = m.value) :
    SameForm R (.stmt (.exit t n)) (.stmt (.exit u m))
  | brk {t u : Token} : SameForm R (.stmt (.brk t)) (.stmt (.brk u))
  | strayStmt {form : Stray} : SameForm R (.stmt (.stray form)) (.stmt (.stray form))
  | ident {x y : Ident} (name : x.name = y.name) :
    SameForm R (.expr (.ident x)) (.expr (.ident y))
  | int {n m : IntLit} (value : n.value = m.value) : SameForm R (.expr (.int n)) (.expr (.int m))
  | str {r s : StrLit} (value : r.value = s.value) : SameForm R (.expr (.str r)) (.expr (.str s))
  | bool {t u : Token} {b : Bool} : SameForm R (.expr (.bool t b)) (.expr (.bool u b))
  | array {t u : Token} {es ds : List Expr}
    (elements : List.Forall₂ (fun e d => R (.expr e) (.expr d)) es ds) :
    SameForm R (.expr (.array t es)) (.expr (.array u ds))
  | hash {t u : Token} {ps qs : List (Expr × Expr)}
    (pairs : List.Forall₂
      (fun p q => R (.expr p.1) (.expr q.1) ∧ R (.expr p.2) (.expr q.2)) ps qs) :
    SameForm R (.expr (.hash t ps)) (.expr (.hash u qs))
  | unary {t u : Token} {op : String} {r s : Expr} (right : R (.expr r) (.expr s)) :
    SameForm R (.expr (.unary t op r)) (.expr (.unary u op s))
  | binary {t u : Token} {op : String} {l k r s : Expr} (left : R (.expr l) (.expr k))
    (right : R (.expr r) (.expr s)) :
    SameForm R (.expr (.binary t l op r)) (.expr (.binary u k op s))
  | cond {t u : Token} {c d : Expr} {b a : Block} {y z : Option Block}
    (condition : R (.expr c) (.expr d)) (consequence : R (.block b) (.block a))
    (alternative : Option.Rel (fun y z => R (.block y) (.block z)) y z) :
    SameForm R (.expr (.cond t c b y)) (.expr (.cond u d a z))
  | fn {t u : Token} {ps qs : List Ident} {b c : Block}
    (names : ps.map Ident.name = qs.map Ident.name) (body : R (.block b) (.block c)) :
    SameForm R (.expr (.fn t ps b)) (.expr (.fn u qs c))
  | call {t u : Token} {f g : Expr} {es ds : List Expr} (callee : R (.expr f) (.expr g))
    (arguments : List.Forall₂ (fun e d => R (.expr e) (.expr d)) es ds) :
    SameForm R (.expr (.call t f es)) (.expr (.call u g ds))
  | index {t u : Token} {l k n m : Expr} (left : R (.expr l) (.expr k))
    (index : R (.expr n) (.expr m)) :
    SameForm R (.expr (.index t l n)) (.expr (.index u k m))
  | loop {t u : Token} {b c : Block} (body : R (.block b) (.block c)) :
    SameForm R (.expr (.loop t b)) (.expr (.loop u c))
  | strayExpr {form : Stray} : SameForm R (.expr (.stray form)) (.expr (.stray form))

/-- What is overlooked when two evaluations are compared. -/
structure Likeness where
  nodes : Node → Node → Prop
  /-- The frames before this one have the same places on both sides. -/
  old : Nat
  /-- Every other frame is so many places further on the second side. -/
  moved : Nat
  closed : Prop

namespace Likeness

def place (L : Likeness) (i : Nat) : Nat := if i < L.old then i else i + L.moved

def Known (L : Likeness) (k i : Nat) : Prop := L.closed → i < k

def Imports (L : Likeness) : Prop :=
  ∃ t p u q, L.nodes (.stmt (.load t p)) (.stmt (.load u q))

/-- Nodes that stand for each other have one form and parts that do, function bodies have one text,
and the programs of modules, which both sides read alike, stand for themselves. -/
structure Sound (L : Likeness) : Prop where
  form : ∀ {n o}, L.nodes n o → n.SameForm L.nodes o
  text : ∀ {b c}, L.nodes (.block b) (.block c) → b.text = c.text
  programs : L.Imports → ∀ p, L.nodes (.program p) (.program p)

/-- Values that differ only in what is overlooked, when there are `k` frames. -/
inductive Alike (L : Likeness) (k : FrameId) : Value → Value → Prop where
  | int (n : Int) : Alike L k (.int n) (.int n)
  | bool (b : Bool) : Alike L k (.bool b) (.bool b)
  | str (s : String) : Alike L k (.str s) (.str s)
  | null : Alike L k .null .null
  | builtin (b : Builtin) : Alike L k (.builtin b) (.builtin b)
  | brk : Alike L k .brk .brk
  | err (m : String) : Alike L k (.err m) (.err m)
  | ret {v u : Value} (h : Alike L k v u) : Alike L k (.ret v) (.ret u)
  | array {vs us : List Value} (length : vs.length = us.length)
    (each : ∀ p ∈ vs.zip us, Alike L k p.1 p.2) : Alike L k (.array vs) (.array us)
  | hash {ps qs : List (Key × Value)} (length : ps.length = qs.length)
    (keys : ∀ p ∈ ps.zip qs, p.1.1 = p.2.1) (each : ∀ p ∈ ps.zip qs, Alike L k p.1.2 p.2.2) :
    Alike L k (.hash ps) (.hash qs)
  | fn {t u : Token} {ps qs : List Ident} {b c : Block} {home : FrameId}
    (written : L.nodes (.expr (.fn t ps b)) (.expr (.fn u qs c))) (known : L.Known k home) :
    Alike L k (.fn ps b home) (.fn qs c (L.place home))

def Bindings {κ : Type} (L : Likeness) (k : FrameId) (ps qs : List (κ × Value)) : Prop :=
  List.Forall₂ (fun p q => p.1 = q.1 ∧ L.Alike k p.2 q.2) ps qs

section
variable {L : Likeness} {k l i j : Nat}

theorem place_of_lt (h : i < L.old) : L.place i = i := if_pos h

theorem place_lt_place : L.place i < L.place j ↔ i < j := by
  unfold place
  split <;> split <;> omega

theorem place_inj : L.place i = L.place j ↔ i = j := by
  unfold place
  split <;> split <;> omega

theorem place_succ (h : L.old ≤ i) : L.place (i + 1) = L.place i + 1 := by
  unfold place
  rw [if_neg (by omega), if_neg (by omega)]
  omega

theorem place_of_moved_eq_zero (h : L.moved = 0) (i : FrameId) : L.place i = i := by
  unfold place
  rw [h]
  exact ite_self i

theorem Known.mono (h : L.Known k i) (le : k ≤ l) : L.Known l i :=
  fun closed => Nat.lt_of_lt_of_le (h closed) le

theorem known_of_lt (h : i < k) : L.Known k i := fun _ => h

end

namespace Alike
variable {L : Likeness} {k l : FrameId} {v u w x : Value}

theorem ofArray {vs us : List Value} (h : List.Forall₂ (L.Alike k) vs us) :
    L.Alike k (.array vs) (.array us) := by
  obtain ⟨length, each⟩ := List.forall₂_iff_zip.mp h
  exact .array length fun _ member => each member

theorem elements {vs us : List Value} (h : L.Alike k (.array vs) (.array us)) :
    List.Forall₂ (L.Alike k) vs us := by
  cases h with
  | array length each => exact List.forall₂_iff_zip.mpr ⟨length, fun member => each _ member⟩

theorem ofHash {ps qs : List (Key × Value)} (h : L.Bindings k ps qs) :
    L.Alike k (.hash ps) (.hash qs) := by
  obtain ⟨length, each⟩ := List.forall₂_iff_zip.mp h
  exact .hash length (fun _ member => (each member).1) fun _ member => (each member).2

theorem mono (h : L.Alike k v u) (le : k ≤ l) : L.Alike l v u := by
  induction h with
  | int n => exact .int n
  | bool b => exact .bool b
  | str s => exact .str s
  | null => exact .null
  | builtin b => exact .builtin b
  | brk => exact .brk
  | err m => exact .err m
  | ret h ih => exact .ret ih
  | array length each ih => exact .array length ih
  | hash length keys each ih => exact .hash length keys ih
  | fn written known => exact .fn written (known.mono le)

theorem ofFlat (h : v.Flat) : L.Alike k v v := by
  cases h with
  | int n => exact .int n
  | bool b => exact .bool b
  | str s => exact .str s
  | err m => exact .err m

theorem fail (f : Failure) : L.Alike k (.fail f) (.fail f) := .err f.message

theorem eq_of_flat (h : L.Alike k v u) (flat : v.Flat ∨ u.Flat) : u = v := by
  rcases flat with flat | flat
  · cases flat <;> cases h <;> rfl
  · cases flat <;> cases h <;> rfl

theorem tag (h : L.Alike k v u) : u.tag = v.tag := by
  cases h <;> rfl

theorem isControl (h : L.Alike k v u) : u.isControl = v.isControl := by
  cases h <;> rfl

theorem isError (h : L.Alike k v u) : u.isError = v.isError := by
  cases h <;> rfl

theorem holds (h : L.Alike k v u) : u.holds = v.holds := by
  cases h <;> rfl

theorem key? (h : L.Alike k v u) : u.key? = v.key? := by
  cases h <;> rfl

theorem isKey (h : L.Alike k v u) : u.isKey = v.isKey := congrArg Option.isSome h.key?

theorem key (h : L.Alike k v u) : u.key = v.key := by
  unfold Value.key
  rw [h.key?, h.tag]

theorem landed (h : L.Alike k v u) : L.Alike k v.landed u.landed := by
  cases h with
  | ret h => exact h
  | brk => exact .fail _
  | int n => exact .int n
  | bool b => exact .bool b
  | str s => exact .str s
  | null => exact .null
  | builtin b => exact .builtin b
  | err m => exact .err m
  | array length each => exact .array length each
  | hash length keys each => exact .hash length keys each
  | fn written known => exact .fn written known

end Alike

section
variable {L : Likeness} {k l : FrameId}

theorem map_eq_of_forall₂ {α β γ : Type} {f : α → γ} {g : β → γ} {as : List α} {bs : List β}
    (each : List.Forall₂ (fun a b => f a = g b) as bs) : as.map f = bs.map g := by
  rw [← List.forall₂_eq_eq_eq, List.forall₂_map_left_iff, List.forall₂_map_right_iff]
  exact each

theorem map_eq_of_zip {α β : Type} {f : α → β} {as bs : List α} (length : as.length = bs.length)
    (each : ∀ p ∈ as.zip bs, f p.1 = f p.2) : as.map f = bs.map f :=
  map_eq_of_forall₂ (List.forall₂_iff_zip.mpr ⟨length, fun member => each _ member⟩)

theorem valueTexts_eq (vs : List Value) : valueTexts vs = vs.map Value.text := by
  induction vs with
  | nil => rfl
  | cons v vs ih => rw [valueTexts, ih, List.map_cons]

theorem describeAll_eq (vs : List Value) : describeAll vs = vs.map Value.describe := by
  induction vs with
  | nil => rfl
  | cons v vs ih => rw [describeAll, ih, List.map_cons]

theorem entryTexts_eq (ps : List (Key × Value)) :
    entryTexts ps = ps.map fun p => p.1.text ++ ": " ++ p.2.text := by
  induction ps with
  | nil => rfl
  | cons p ps ih => rw [entryTexts, ih, List.map_cons]

theorem describeEntries_eq (ps : List (Key × Value)) :
    describeEntries ps = ps.map fun p => describeEntry p.1 p.2.describe := by
  induction ps with
  | nil => rfl
  | cons p ps ih => rw [describeEntries, ih, List.map_cons]

theorem text_array (vs : List Value) :
    (Value.array vs).text = "[" ++ ", ".intercalate (vs.map Value.text) ++ "]" := by
  rw [← valueTexts_eq]
  rfl

theorem text_hash (ps : List (Key × Value)) : (Value.hash ps).text =
    braced (", ".intercalate (ps.map fun p => p.1.text ++ ": " ++ p.2.text)) := by
  rw [← entryTexts_eq]
  rfl

theorem describe_ret (v : Value) :
    (Value.ret v).describe = "ReturnValue(value=" ++ v.describe ++ ")" := rfl

theorem describe_array (vs : List Value) : (Value.array vs).describe =
    "Array(elements=[" ++ ", ".intercalate (vs.map Value.describe) ++ "])" := by
  rw [← describeAll_eq]
  rfl

theorem describe_hash (ps : List (Key × Value)) : (Value.hash ps).describe =
    "Hash(pairs=" ++ braced (", ".intercalate
      (ps.map fun p => describeEntry p.1 p.2.describe)) ++ ")" := by
  rw [← describeEntries_eq]
  rfl

theorem describe_fn (ps : List Ident) (b : Block) (home : FrameId) :
    (Value.fn ps b home).describe = "<Function " ++ functionText ps b ++ ">" := rfl

theorem Sound.functionText (sound : L.Sound) {t u : Token} {ps qs : List Ident} {b c : Block}
    (h : L.nodes (.expr (.fn t ps b)) (.expr (.fn u qs c))) :
    TernLang.functionText ps b = TernLang.functionText qs c := by
  cases sound.form h with
  | fn names body =>
    have parameters : ps.map Ident.text = qs.map Ident.text := names
    unfold TernLang.functionText
    rw [parameters, sound.text body]

theorem Alike.text {v u : Value} (h : L.Alike k v u) (sound : L.Sound) : v.text = u.text := by
  induction h with
  | int | bool | str | null | builtin | brk | err => rfl
  | ret h ih => exact ih
  | array length _ ih =>
    rw [text_array, text_array, map_eq_of_zip length ih]
  | @hash ps qs length keys each ih =>
    have same : ps.map (fun p => p.1.text ++ ": " ++ p.2.text) =
        qs.map fun p => p.1.text ++ ": " ++ p.2.text := by
      apply map_eq_of_zip length
      intro p member
      rw [keys p member, ih p member]
    rw [text_hash, text_hash, same]
  | fn written => exact sound.functionText written

theorem Alike.describe {v u : Value} (h : L.Alike k v u) (sound : L.Sound) :
    v.describe = u.describe := by
  induction h with
  | int | bool | str | null | builtin | brk | err => rfl
  | ret h ih => rw [describe_ret, describe_ret, ih]
  | array length _ ih =>
    rw [describe_array, describe_array, map_eq_of_zip length ih]
  | @hash ps qs length keys each ih =>
    have same : ps.map (fun p => describeEntry p.1 p.2.describe) =
        qs.map fun p => describeEntry p.1 p.2.describe := by
      apply map_eq_of_zip length
      intro p member
      rw [keys p member, ih p member]
    rw [describe_hash, describe_hash, same]
  | fn written => rw [describe_fn, describe_fn, sound.functionText written]

namespace Bindings
variable {κ : Type}

theorem mono {ps qs : List (κ × Value)} (h : L.Bindings k ps qs) (le : k ≤ l) :
    L.Bindings l ps qs :=
  h.imp fun _ _ same => ⟨same.1, same.2.mono le⟩

theorem putPair {ps qs : List (Key × Value)} (h : L.Bindings k ps qs) (key : Key) {v u : Value}
    (value : L.Alike k v u) : L.Bindings k (putPair key v ps) (putPair key u qs) := by
  induction h with
  | nil => exact .cons ⟨rfl, value⟩ .nil
  | @cons p q ps qs same rest ih =>
    unfold TernLang.putPair
    rw [← same.1]
    split
    · exact .cons ⟨rfl, value⟩ rest
    · exact .cons ⟨rfl, same.2⟩ ih

theorem bindVar {vars others : List (String × Value)} (h : L.Bindings k vars others)
    (name : String) {v u : Value} (value : L.Alike k v u) :
    L.Bindings k (bindVar name v vars) (bindVar name u others) := by
  induction h with
  | nil => exact .cons ⟨rfl, value⟩ .nil
  | @cons p q ps qs same rest ih =>
    unfold TernLang.bindVar
    rw [← same.1]
    split
    · exact .cons ⟨rfl, value⟩ rest
    · exact .cons ⟨rfl, same.2⟩ ih

theorem lookupVar {vars others : List (String × Value)} (h : L.Bindings k vars others)
    (name : String) : Option.Rel (L.Alike k) (lookupVar name vars) (lookupVar name others) := by
  induction h with
  | nil => exact .none
  | @cons p q ps qs same rest ih =>
    unfold TernLang.lookupVar
    rw [← same.1]
    split
    · exact .some same.2
    · exact ih

end Bindings
end
end Likeness

end TernLang
