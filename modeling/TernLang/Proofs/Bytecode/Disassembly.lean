import TernLang.Bytecode

/-!
Disassembly and encoding. The streams that can be disassembled are the concatenations of encoded
instructions, and the listing gives back what was encoded, as far as two bytes have room for it. Of
any other stream a longest part in front is such a concatenation, and what stands behind it says how
the stream is refused.
-/
namespace TernLang.Bytecode

/-- The stream is the instructions that push these constants, one behind the other. -/
inductive Emits : List Int → List UInt8 → Prop where
  | nil : Emits [] []
  | cons {v : Int} {vs : List Int} {instruction rest : List UInt8}
    (first : encode definitions 0 [v] = .ok instruction) (later : Emits vs rest) :
    Emits (v :: vs) (instruction ++ rest)

structure EmitsWords (vs : List Nat) (bytes : List UInt8) : Prop where
  room : ∀ v ∈ vs, v < 65536
  emits : Emits (vs.map Int.ofNat) bytes

def constantLine (i v : Nat) : String :=
  String.ofList ((toString (3 * i)).toList.leftpad 4 '0') ++ " CONSTANT " ++ toString v ++ "\n"

def listing (vs : List Nat) : String := String.join (vs.mapIdx constantLine)

/-- How a stream is refused: behind complete instructions comes a byte that is no opcode, or an
instruction without its whole operand. -/
inductive Breaks : List UInt8 → Fault → Prop where
  | undefined {vs : List Nat} {front rest : List UInt8} {b : UInt8} (whole : EmitsWords vs front)
    (other : b ≠ 0) : Breaks (front ++ b :: rest) (.undefinedOpcode b.toNat)
  | truncated {vs : List Nat} {front rest : List UInt8} (whole : EmitsWords vs front)
    (short : rest.length < 2) : Breaks (front ++ 0 :: rest) .outOfRange

def highByte (n : Int) : UInt8 := lowByte (n / 256)

theorem encode_constant (v : Int) :
    encode definitions 0 [v] = .ok [0, highByte v, lowByte v] := rfl

theorem toNat_lowByte (n : Int) : (lowByte n).toNat = (n % 256).toNat := by
  have bound : (n % 256).toNat < 256 := by omega
  rw [lowByte, UInt8.toNat_ofNat', Nat.mod_eq_of_lt bound]

theorem word_of_bytes (v : Int) :
    256 * (highByte v).toNat + (lowByte v).toNat = (v % 65536).toNat := by
  rw [highByte, toNat_lowByte, toNat_lowByte]
  omega

theorem bytes_of_word (high low : UInt8) :
    highByte (256 * high.toNat + low.toNat : Nat) = high ∧
      lowByte (256 * high.toNat + low.toNat : Nat) = low := by
  have highest := high.toNat_lt
  have lowest := low.toNat_lt
  constructor
  · apply UInt8.toNat_inj.mp
    rw [highByte, toNat_lowByte]
    omega
  · apply UInt8.toNat_inj.mp
    rw [toNat_lowByte]
    omega

section
variable {vs us : List Int} {bytes rest : List UInt8} {place : Nat} {fault : Fault}

/-- Encoding never fails. -/
theorem exists_emits (vs : List Int) : ∃ bytes, Emits vs bytes := by
  induction vs with
  | nil => exact ⟨[], .nil⟩
  | cons v vs ih =>
    obtain ⟨rest, later⟩ := ih
    exact ⟨_, .cons (encode_constant v) later⟩

theorem Emits.cons_inv {v : Int} (h : Emits (v :: vs) bytes) :
    ∃ rest, bytes = 0 :: highByte v :: lowByte v :: rest ∧ Emits vs rest := by
  cases h with
  | cons first later =>
    rw [encode_constant] at first
    cases first
    exact ⟨_, rfl, later⟩

def listingFrom (place : Nat) : List Nat → String
  | [] => ""
  | v :: vs => line place constant [v] ++ listingFrom (place + 3) vs

theorem disassembleFrom_constant (place : Nat) (high low : UInt8) (rest : List UInt8) :
    disassembleFrom definitions place (0 :: high :: low :: rest) =
      (disassembleFrom definitions (place + 3) rest).map
        (line place constant [256 * high.toNat + low.toNat] ++ ·) := by
  have operand : decodeOperands constant.widths (high :: low :: rest) =
      .ok ([256 * high.toNat + low.toNat], 2) := rfl
  have known : definition definitions (0 : UInt8).toNat = .ok constant := rfl
  rw [disassembleFrom, known]
  simp only [operand, List.drop_succ_cons, List.drop_zero]
  cases disassembleFrom definitions (place + 1 + 2) rest with
  | error e => rfl
  | ok text => rfl

theorem disassembleFrom_truncated (place : Nat) (short : rest.length < 2) :
    disassembleFrom definitions place (0 :: rest) = .error .outOfRange := by
  have operand : decodeOperands constant.widths rest = .error .outOfRange := by
    match rest, short with
    | [], _ => rfl
    | [b], _ => rfl
  have known : definition definitions (0 : UInt8).toNat = .ok constant := rfl
  rw [disassembleFrom, known]
  simp only [operand]

theorem disassembleFrom_undefined (place : Nat) {b : UInt8} (other : b ≠ 0) :
    disassembleFrom definitions place (b :: rest) = .error (.undefinedOpcode b.toNat) := by
  have differs : ¬ (0 : Int) = b.toNat := by
    intro same
    apply other
    apply UInt8.toNat_inj.mp
    exact Int.natCast_inj.mp same.symm
  have unknown : definition definitions b.toNat = .error (.undefinedOpcode b.toNat) := by
    simp [definition, definitions, differs]
  rw [disassembleFrom, unknown]

theorem disassembleFrom_emits (h : Emits vs bytes) (place : Nat) (rest : List UInt8) :
    disassembleFrom definitions place (bytes ++ rest) =
      (disassembleFrom definitions (place + 3 * vs.length) rest).map
        (listingFrom place (vs.map fun v => (v % 65536).toNat) ++ ·) := by
  induction vs generalizing place bytes with
  | nil =>
    cases h with
    | nil =>
      rw [List.nil_append, List.length_nil, Nat.mul_zero, Nat.add_zero, List.map_nil]
      cases disassembleFrom definitions place rest with
      | error e => rfl
      | ok text => simp [listingFrom, Except.map]
  | cons v vs ih =>
    obtain ⟨later, rfl, emitted⟩ := h.cons_inv
    have next : place + 3 + 3 * vs.length = place + 3 * (v :: vs).length := by
      rw [List.length_cons]
      omega
    simp only [List.cons_append, disassembleFrom_constant, ih emitted, next, word_of_bytes]
    cases disassembleFrom definitions (place + 3 * (v :: vs).length) rest with
    | error e => simp only [Except.map]
    | ok text => simp only [Except.map, List.map_cons, listingFrom, String.append_assoc]

theorem line_constant (i v : Nat) : line (3 * i) constant [v] = constantLine i v := by
  have name : " CONSTANT" ++ " " = " CONSTANT " := by decide
  simp [line, constantLine, padded, constant, List.leftpad, String.append_assoc]
  rw [← String.append_assoc, name]

theorem listingFrom_eq (vs : List Nat) (i : Nat) :
    listingFrom (3 * i) vs = String.join (vs.mapIdx fun j => constantLine (i + j)) := by
  induction vs generalizing i with
  | nil => rfl
  | cons v vs ih =>
    have next : 3 * i + 3 = 3 * (i + 1) := by omega
    have moved : (fun j => constantLine (i + 1 + j)) = fun j => constantLine (i + (j + 1)) := by
      funext j
      rw [Nat.add_assoc, Nat.add_comm 1]
    rw [listingFrom, line_constant, next, ih, moved, List.mapIdx_cons, String.join_cons]
    rfl

theorem Emits.disassemble_eq (h : Emits vs bytes) :
    disassemble definitions bytes = .ok (listing (vs.map fun v => (v % 65536).toNat)) := by
  have run := disassembleFrom_emits h 0 []
  rw [List.append_nil, disassembleFrom] at run
  rw [disassemble, run]
  have listed := listingFrom_eq (vs.map fun v => (v % 65536).toNat) 0
  simp only [Nat.zero_add, Nat.mul_zero] at listed
  simp [Except.map, listed, listing]

end

section
variable {vs us : List Nat} {bytes front tail : List UInt8}

theorem EmitsWords.residues (h : EmitsWords vs bytes) :
    (vs.map Int.ofNat).map (fun v => (v % 65536).toNat) = vs := by
  rw [List.map_map]
  refine (List.map_congr_left fun v member => ?_).trans (List.map_id vs)
  have room := h.room v member
  simp only [Function.comp_apply, Int.ofNat_eq_natCast, id]
  omega

theorem EmitsWords.disassemble_eq (h : EmitsWords vs bytes) :
    disassemble definitions bytes = .ok (listing vs) := by
  rw [h.emits.disassemble_eq, h.residues]

theorem EmitsWords.unique (h : EmitsWords vs bytes) (other : EmitsWords us bytes) : us = vs := by
  induction vs generalizing us bytes with
  | nil =>
    obtain ⟨-, emitted⟩ := h
    cases emitted
    cases us with
    | nil => rfl
    | cons u us =>
      obtain ⟨_, empty, -⟩ := other.emits.cons_inv
      cases empty
  | cons v vs ih =>
    obtain ⟨rest, rfl, later⟩ := h.emits.cons_inv
    obtain ⟨first, room⟩ := List.forall_mem_cons.mp h.room
    cases us with
    | nil =>
      obtain ⟨-, emitted⟩ := other
      cases emitted
    | cons u us =>
      obtain ⟨rest', same, later'⟩ := other.emits.cons_inv
      obtain ⟨first', room'⟩ := List.forall_mem_cons.mp other.room
      simp only [List.cons.injEq, true_and] at same
      obtain ⟨high, low, rfl⟩ := same
      have word := word_of_bytes (Int.ofNat v)
      have word' := word_of_bytes (Int.ofNat u)
      rw [high, low, word'] at word
      simp only [Int.ofNat_eq_natCast] at word
      rw [ih ⟨room, later⟩ ⟨room', later'⟩]
      congr 1
      omega

theorem EmitsWords.cons (high low : UInt8) (h : EmitsWords vs bytes) :
    EmitsWords ((256 * high.toNat + low.toNat) :: vs) (0 :: high :: low :: bytes) := by
  have highest := high.toNat_lt
  have lowest := low.toNat_lt
  obtain ⟨first, second⟩ := bytes_of_word high low
  constructor
  · intro v member
    rcases List.mem_cons.mp member with rfl | later
    · omega
    · exact h.room v later
  · have made : encode definitions 0 [Int.ofNat (256 * high.toNat + low.toNat)] =
        .ok [0, high, low] := by
      rw [encode_constant, Int.ofNat_eq_natCast, first, second]
    exact .cons made h.emits

theorem emitted_or_broken (bytes : List UInt8) :
    (∃ vs, EmitsWords vs bytes) ∨ ∃ fault, Breaks bytes fault := by
  -- On the length, since an instruction is three bytes.
  induction size : bytes.length using Nat.strongRecOn generalizing bytes with
  | ind k ih =>
    have none : EmitsWords [] [] := ⟨nofun, .nil⟩
    match bytes with
    | [] => exact .inl ⟨[], none⟩
    | b :: rest =>
      by_cases opcode : b = 0
      · subst opcode
        match rest with
        | [] => exact .inr ⟨_, .truncated none Nat.zero_lt_two⟩
        | [_] => exact .inr ⟨_, .truncated none Nat.one_lt_two⟩
        | high :: low :: rest =>
          simp only [List.length_cons] at size
          obtain ⟨vs, emitted⟩ | ⟨fault, broken⟩ := ih rest.length (by omega) rest rfl
          · exact .inl ⟨_, emitted.cons high low⟩
          · right
            cases broken with
            | undefined whole other => exact ⟨_, .undefined (whole.cons high low) other⟩
            | truncated whole short => exact ⟨_, .truncated (whole.cons high low) short⟩
      · exact .inr ⟨_, .undefined none opcode⟩

theorem Breaks.disassemble_eq {fault : Fault} (h : Breaks bytes fault) :
    disassemble definitions bytes = .error fault := by
  cases h with
  | undefined whole other =>
    rw [disassemble, disassembleFrom_emits whole.emits, disassembleFrom_undefined _ other]
    rfl
  | truncated whole short =>
    rw [disassemble, disassembleFrom_emits whole.emits, disassembleFrom_truncated _ short]
    rfl

end

/-- A stream is disassembled exactly if it is a concatenation of encoded instructions, whose
constants it determines: there is one line for each, with its place and the constant. Any other
stream is refused for the first byte at the start of an instruction that is no opcode, unless the
last instruction lacks a part of its operand before that. Constants of any size are encoded, and
listed modulo what two bytes have room for. -/
theorem disassembles_exactly_emitted :
    (∀ bytes,
      ((∃ text, disassemble definitions bytes = .ok text) ↔ ∃ vs, EmitsWords vs bytes) ∧
        (∀ vs, EmitsWords vs bytes → disassemble definitions bytes = .ok (listing vs) ∧
          ∀ us, EmitsWords us bytes → us = vs) ∧
        ∀ fault, disassemble definitions bytes = .error fault ↔ Breaks bytes fault) ∧
      (∀ b : UInt8, (Fault.undefinedOpcode b.toNat).message =
        "opcode " ++ toString b.toNat ++ " undefined") ∧
      ∀ vs : List Int, (∃ bytes, Emits vs bytes) ∧ ∀ bytes, Emits vs bytes →
        disassemble definitions bytes = .ok (listing (vs.map fun v => (v % 65536).toNat)) := by
  refine ⟨?_, fun b => rfl, ?_⟩
  · intro bytes
    refine ⟨?_, ?_, ?_⟩
    · constructor
      · rintro ⟨text, read⟩
        obtain emitted | ⟨fault, broken⟩ := emitted_or_broken bytes
        · exact emitted
        · rw [broken.disassemble_eq] at read
          cases read
      · rintro ⟨vs, emitted⟩
        exact ⟨_, emitted.disassemble_eq⟩
    · intro vs emitted
      exact ⟨emitted.disassemble_eq, fun us other => emitted.unique other⟩
    · intro fault
      constructor
      · intro refused
        obtain ⟨vs, emitted⟩ | ⟨other, broken⟩ := emitted_or_broken bytes
        · rw [emitted.disassemble_eq] at refused
          cases refused
        · rw [broken.disassemble_eq] at refused
          cases refused
          exact broken
      · exact Breaks.disassemble_eq
  · intro vs
    exact ⟨exists_emits vs, fun bytes emitted => emitted.disassemble_eq⟩

theorem disassembles_exactly_emitted_negative :
    Emits [2, -1] [0, 0, 2, 0, 255, 255] ∧ EmitsWords [2, 65535] [0, 0, 2, 0, 255, 255] ∧
      (∀ us, EmitsWords us [0, 0, 2, 0, 255, 255] → us = [2, 65535]) ∧
      disassemble definitions [0, 0, 2, 0, 255, 255] =
        .ok "0000 CONSTANT 2\n0003 CONSTANT 65535\n" ∧
      disassemble definitions [0, 0, 2, 0, 255] = .error .outOfRange := by
  have first : encode definitions 0 [2] = .ok [0, 0, 2] := rfl
  have second : encode definitions 0 [-1] = .ok [0, 255, 255] := rfl
  have greatest : encode definitions 0 [65535] = .ok [0, 255, 255] := rfl
  have below : Emits [2, -1] [0, 0, 2, 0, 255, 255] := .cons first (.cons second .nil)
  have words : EmitsWords [2, 65535] [0, 0, 2, 0, 255, 255] :=
    ⟨by decide, .cons first (.cons greatest .nil)⟩
  have short : Breaks [0, 0, 2, 0, 255] .outOfRange :=
    @Breaks.truncated [2] [0, 0, 2] [255] ⟨by decide, .cons first .nil⟩ Nat.one_lt_two
  obtain ⟨streams, -, integers⟩ := disassembles_exactly_emitted
  obtain ⟨-, emitted, -⟩ := streams [0, 0, 2, 0, 255, 255]
  obtain ⟨-, -, broken⟩ := streams [0, 0, 2, 0, 255]
  have residues : ([2, -1] : List Int).map (fun v => (v % 65536).toNat) = [2, 65535] := by decide
  have listed : listing [2, 65535] = "0000 CONSTANT 2\n0003 CONSTANT 65535\n" := by decide +kernel
  have read := (integers [2, -1]).2 _ below
  rw [residues, listed] at read
  exact ⟨below, words, (emitted _ words).2, read, (broken _).mpr short⟩

end TernLang.Bytecode
