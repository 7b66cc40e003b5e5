import Mt5Open.Lib.Halting
import Mt5Open.Lib.Stride
import Mt5Open.Native.Auth
import Mt5Open.Native.Checked

/-!
# Challenge programs

`solve` runs the instructions of a program over an accumulator.  A halt gives the answer at
once, and an opcode that is not in the table of the version does nothing.

* `Machine` is the interpreter with the operations that can trap: shifts, divisions and
  slices.  `Machine.solve_eq` says that none of them does, for any operands.
* `challenge_programs` says how programs compose, and which bytes are programs.
-/

namespace Mt5Open.Native

open Lib

/-! ## The opcodes -/

namespace Version

/-- The opcodes of the table of a version. -/
def opcodes : Version → List Nat
  | .tag28 => [39, 98, 214, 113, 63, 51, 205, 88, 25, 80, 118, 74, 220, 237, 7, 106]
  | .tag35 => [34, 147, 194, 127, 78, 56, 171, 50, 17, 95, 154, 39, 226, 206, 134, 114]

/-- The opcode of the halt. -/
def haltOpcode : Version → Nat
  | .tag28 => 106
  | .tag35 => 114

end Version

/-- `word(offset)`. -/
def instructionWord (instruction : Bytes) (offset : Nat) : UInt64 :=
  UInt64.ofNat (LittleEndian.decode (slice instruction offset 8))

/-- The opcode of an instruction. -/
def opcodeOf (version : Version) (instruction : Bytes) : Nat :=
  ((instructionWord instruction 0 >>> version.shift) &&& 255).toNat

/-- The instructions of a program. -/
def instructionsOf (program : Bytes) : List Bytes := Stride.chunks 24 program

theorem solve_eq (version : Version) (program : Bytes) (seed : UInt64) :
    solve version program seed =
      if program = [] ∨ MAX_PROGRAM_BYTES < program.length ∨ program.length % 24 ≠ 0 then
        reject "invalid native challenge program length"
      else .ok (runProgram version seed (seed ^^^ version.seedMask) (instructionsOf program)) := rfl

theorem execute28_next {opcode : Nat} (h : opcode ≠ 106) (a right value seed : UInt64) :
    ∃ next, execute28 opcode a right value seed = .next next := by
  unfold execute28
  split <;> first | exact ⟨_, rfl⟩ | exact absurd rfl h

theorem execute28_unknown {opcode : Nat} (h : opcode ∉ Version.tag28.opcodes)
    (a right value seed : UInt64) : execute28 opcode a right value seed = .next value := by
  unfold execute28
  split <;> first | rfl | exact absurd (by decide) h

theorem execute35_next {opcode : Nat} (h : opcode ≠ 114) (a left right value seed : UInt64) :
    ∃ next, execute35 opcode a left right value seed = .next next := by
  unfold execute35
  split <;> first | exact ⟨_, rfl⟩ | exact absurd rfl h

theorem execute35_unknown {opcode : Nat} (h : opcode ∉ Version.tag35.opcodes)
    (a left right value seed : UInt64) :
    execute35 opcode a left right value seed = .next value := by
  unfold execute35
  split <;> first | rfl | exact absurd (by decide) h

section Execute

variable {version : Version} {instruction : Bytes}

theorem execute_halt (h : opcodeOf version instruction = version.haltOpcode)
    (seed value : UInt64) : ∃ answer, execute version seed value instruction = .halt answer := by
  cases version with
  | tag28 =>
    show ∃ answer, execute28 (opcodeOf .tag28 instruction) _ _ _ _ = .halt answer
    rw [h]
    exact ⟨_, rfl⟩
  | tag35 =>
    show ∃ answer, execute35 (opcodeOf .tag35 instruction) _ _ _ _ _ = .halt answer
    rw [h]
    exact ⟨_, rfl⟩

theorem execute_next (h : opcodeOf version instruction ≠ version.haltOpcode)
    (seed value : UInt64) : ∃ next, execute version seed value instruction = .next next := by
  cases version with
  | tag28 => exact execute28_next h _ _ _ _
  | tag35 => exact execute35_next h _ _ _ _ _

/-- An opcode that is not in the table. -/
theorem execute_unknown (h : opcodeOf version instruction ∉ version.opcodes)
    (seed value : UInt64) : execute version seed value instruction = .next value := by
  cases version with
  | tag28 => exact execute28_unknown h _ _ _ _
  | tag35 => exact execute35_unknown h _ _ _ _ _

end Execute

/-! ## Runs -/

/-- An instruction as a step of a straight-line program. -/
def Executed.outcome : Executed → UInt64 ⊕ UInt64
  | .next value => .inl value
  | .halt answer => .inr answer

/-- The accumulator behind some instructions, or the answer that they halt with. -/
def runInstructions (version : Version) (seed : UInt64) :
    UInt64 → List Bytes → UInt64 ⊕ UInt64 :=
  Halting.run fun instruction value => (execute version seed value instruction).outcome

theorem runProgram_eq (version : Version) (seed value : UInt64) (instructions : List Bytes) :
    runProgram version seed value instructions =
      (runInstructions version seed value instructions).elim id id := by
  induction instructions generalizing value with
  | nil => rfl
  | cons instruction rest ih =>
    rw [runProgram, runInstructions, Halting.run]
    cases execute version seed value instruction with
    | next next => exact ih next
    | halt answer => rfl

section Runs

variable {version : Version} {p q : List Bytes}

/-- The instructions behind a halt are not reached. -/
theorem runProgram_append_halt
    (h : ∃ instruction ∈ p, opcodeOf version instruction = version.haltOpcode)
    (seed value : UInt64) (q : List Bytes) :
    runProgram version seed value (p ++ q) = runProgram version seed value p := by
  obtain ⟨instruction, hmem, hopcode⟩ := h
  have hstops : Halting.Stops
      (fun instruction value => (execute version seed value instruction).outcome) instruction := by
    intro value
    obtain ⟨answer, hanswer⟩ := execute_halt hopcode seed value
    exact ⟨answer, congrArg Executed.outcome hanswer⟩
  obtain ⟨answer, hanswer⟩ := Halting.exists_answer hmem hstops value
  rw [runProgram_eq, runProgram_eq, runInstructions, Halting.run_append, hanswer]

/-- Without a halt, the instructions behind run on from the accumulator. -/
theorem runProgram_append_next
    (h : ∀ instruction ∈ p, opcodeOf version instruction ≠ version.haltOpcode)
    (seed value : UInt64) (q : List Bytes) :
    runProgram version seed value (p ++ q) =
      runProgram version seed (runProgram version seed value p) q := by
  have hgoes : ∀ instruction ∈ p, Halting.Continues
      (fun instruction value => (execute version seed value instruction).outcome) instruction := by
    intro instruction hmem value
    obtain ⟨next, hnext⟩ := execute_next (h instruction hmem) seed value
    exact ⟨next, congrArg Executed.outcome hnext⟩
  obtain ⟨last, hlast⟩ := Halting.exists_end hgoes value
  rw [runProgram_eq, runProgram_eq, runProgram_eq version seed value p, runInstructions,
    Halting.run_append, hlast]
  rfl

/-- The instruction is in the table of the version. -/
def inTable (version : Version) (instruction : Bytes) : Bool :=
  opcodeOf version instruction ∈ version.opcodes

theorem runProgram_filter (seed value : UInt64) (p : List Bytes) :
    runProgram version seed value (p.filter (inTable version)) =
      runProgram version seed value p := by
  rw [runProgram_eq, runProgram_eq, runInstructions, Halting.run_filter]
  intro instruction hout value
  rw [execute_unknown (of_decide_eq_false hout)]
  rfl

end Runs

/-! ## The interpreter with its checks -/

namespace Challenge.Machine

open Checked

/-- `a << n`, whose amount is checked. -/
def shl (a n : UInt64) : Except Fault UInt64 :=
  if n.toNat < 64 then .ok (a <<< n) else .error .panicked

/-- `a >> n`. -/
def shr (a n : UInt64) : Except Fault UInt64 :=
  if n.toNat < 64 then .ok (a >>> n) else .error .panicked

/-- `a / b`. -/
def div (a b : UInt64) : Except Fault UInt64 :=
  if b = 0 then .error .panicked else .ok (a / b)

/-- `a % b`. -/
def rem (a b : UInt64) : Except Fault UInt64 :=
  if b = 0 then .error .panicked else .ok (a % b)

/-- The instructions of tag 28. -/
def execute28 (opcode : Nat) (a right value seed : UInt64) : Except Fault Executed :=
  match opcode with
  | 39 => return .next ((a &&& right) ^^^ 5)
  | 98 => return .next (a ||| right)
  | 214 => return .next (a ^^^ right ^^^ 5)
  | 113 => return .next (a + right)
  | 63 => return .next ((a - right) ^^^ 5)
  | 51 => return .next (← shl a (← rem right 16))
  | 205 => return .next ((← shr a (← rem right 16)) ^^^ 5)
  | 88 => return .next (a ^^^ right)
  | 25 => return .next (((a ||| 200) &&& right) ^^^ 5)
  | 80 => return .next (a ||| right ||| 0x28000000)
  | 118 => return .next (((a ^^^ 0x760000000000) + (right ^^^ 0x3b0)) ^^^ 5)
  | 74 => return .next ((a ^^^ 0x12800) - right)
  | 220 => return .next ((a &&& 0xf732673211279323) ^^^ right ^^^ 5)
  | 237 => return .next ((← div a 237) ^^^ right)
  | 7 => return .next (a ^^^ (← div right 7) ^^^ 5)
  | 106 => return .halt (value ^^^ seed ^^^ FINAL_XOR)
  | _ => return .next value

/-- The instructions of tag 35. -/
def execute35 (opcode : Nat) (a left right value seed : UInt64) : Except Fault Executed :=
  match opcode with
  | 34 => return .next (a &&& right)
  | 147 => return .next (a ||| right)
  | 194 => return .next (a ^^^ right)
  | 127 => return .next (a + right)
  | 78 => return .next (a - right)
  | 56 => return .next (← shl a (← rem right 24))
  | 171 => return .next (← shr a (← rem right 24))
  | 50 => return .next ((a ||| (← shl 50 37)) ^^^ (right ||| 50))
  | 17 => return .next ((a ||| (← shl 17 43)) &&& (right ||| (← shl 17 12)))
  | 95 => return .next (a ||| right ||| (← shl 95 52) ||| (← shl 95 18))
  | 154 => return .next ((a ^^^ (← shl 154 35)) + (right ^^^ (← shl 154 7)))
  | 39 => return .next ((a ^^^ (← shl 39 40)) - (right ^^^ (← shl 39 21)))
  | 226 => return .next ((← rem (a ^^^ (← shl 226 40)) 226) ^^^ right)
  | 206 => return .next ((← div a 206) ^^^ right)
  | 134 => return .next (a ^^^ (← div right 134))
  | 114 => do
    let selector ← shr left 14
    let low := if selector &&& 255 = 83 then 0 else left &&& 0xffffffff
    return .halt (value ^^^ seed ^^^ FINAL_XOR ^^^ low ^^^ (right &&& 0xffffffff00000000))
  | _ => return .next value

/-- `word(offset)`: eight bytes, which `try_into().unwrap()` insists on. -/
def word (instruction : Bytes) (offset : Nat) : Except Fault UInt64 := do
  let bytes ← range instruction offset (← add offset 8)
  if bytes.length = 8 then return UInt64.ofNat (LittleEndian.decode bytes)
  else .error .panicked

/-- One instruction of 24 bytes. -/
def execute (version : Version) (seed value : UInt64) (instruction : Bytes) :
    Except Fault Executed := do
  let opcode := ((← shr (← word instruction 0) version.shift) &&& 255).toNat
  let left ← word instruction 8
  let right ← word instruction 16
  let selector ← shr left version.shift
  let a := if selector &&& 255 = version.accumulatorOperand then value else left
  match version with
  | .tag28 => execute28 opcode a right value seed
  | .tag35 => execute35 opcode a left right value seed

/-- The loop of `solve`. -/
def runProgram (version : Version) (seed : UInt64) : UInt64 → List Bytes → Except Fault UInt64
  | value, [] => return value
  | value, instruction :: rest => do
    match ← execute version seed value instruction with
    | .next next => runProgram version seed next rest
    | .halt answer => return answer

/-- `challenge::solve`. -/
def solve (version : Version) (program : Bytes) (seed : UInt64) : Except Fault UInt64 :=
  if program = [] ∨ MAX_PROGRAM_BYTES < program.length ∨ program.length % 24 ≠ 0 then
    .error (.rejected ⟨"invalid native challenge program length"⟩)
  else runProgram version seed (seed ^^^ version.seedMask) (instructionsOf program)

/-! ### No instruction traps -/

theorem shl_of_lt {a n : UInt64} (h : n.toNat < 64) : shl a n = .ok (a <<< n) := if_pos h

theorem shr_of_lt {a n : UInt64} (h : n.toNat < 64) : shr a n = .ok (a >>> n) := if_pos h

theorem rem_of_ne {a b : UInt64} (h : b ≠ 0) : rem a b = .ok (a % b) := if_neg h

/-- A remainder of at most 64 is an amount to shift by. -/
theorem rem_lt (a : UInt64) {n : UInt64} (hpos : 0 < n.toNat) (hn : n.toNat ≤ 64) :
    (a % n).toNat < 64 := by
  rw [UInt64.toNat_mod]
  have := Nat.mod_lt a.toNat hpos
  omega

theorem execute28_eq (opcode : Nat) (a right value seed : UInt64) :
    execute28 opcode a right value seed = .ok (Native.execute28 opcode a right value seed) := by
  have hrem : rem right 16 = .ok (right % 16) := rem_of_ne (by decide)
  have hamount : (right % 16).toNat < 64 := rem_lt right (by decide) (by decide)
  have hshl : shl a (right % 16) = .ok (a <<< (right % 16)) := shl_of_lt hamount
  have hshr : shr a (right % 16) = .ok (a >>> (right % 16)) := shr_of_lt hamount
  unfold execute28
  split
  case h_6 =>
    rw [hrem, except_ok_bind, hshl]
    rfl
  case h_7 =>
    rw [hrem, except_ok_bind, hshr]
    rfl
  case h_17 =>
    -- no opcode of the table
    have hunknown : opcode ∉ Version.tag28.opcodes := by
      simp only [Version.opcodes, List.mem_cons, List.not_mem_nil, or_false, not_or]
      and_intros <;> assumption
    rw [execute28_unknown hunknown]
    rfl
  all_goals rfl

theorem execute35_eq (opcode : Nat) (a left right value seed : UInt64) :
    execute35 opcode a left right value seed =
      .ok (Native.execute35 opcode a left right value seed) := by
  have hrem : rem right 24 = .ok (right % 24) := rem_of_ne (by decide)
  have hamount : (right % 24).toNat < 64 := rem_lt right (by decide) (by decide)
  have hshl : shl a (right % 24) = .ok (a <<< (right % 24)) := shl_of_lt hamount
  have hshr : shr a (right % 24) = .ok (a >>> (right % 24)) := shr_of_lt hamount
  unfold execute35
  split
  case h_6 =>
    rw [hrem, except_ok_bind, hshl]
    rfl
  case h_7 =>
    rw [hrem, except_ok_bind, hshr]
    rfl
  case h_17 =>
    -- no opcode of the table
    have hunknown : opcode ∉ Version.tag35.opcodes := by
      simp only [Version.opcodes, List.mem_cons, List.not_mem_nil, or_false, not_or]
      and_intros <;> assumption
    rw [execute35_unknown hunknown]
    rfl
  all_goals rfl

theorem word_eq {instruction : Bytes} {offset : Nat} (h : offset + 8 ≤ instruction.length)
    (hlength : instruction.length < 2 ^ 64) :
    word instruction offset = .ok (instructionWord instruction offset) := by
  have hslice : slice instruction offset (offset + 8 - offset) = slice instruction offset 8 := by
    rw [Nat.add_sub_cancel_left]
  rw [word, add_of_lt (by omega), except_ok_bind, range, if_pos ⟨Nat.le_add_right _ _, h⟩, hslice,
    except_ok_bind, if_pos (length_slice h)]
  rfl

/-- No operation of an instruction traps, whatever its operands are. -/
theorem execute_eq (version : Version) (seed value : UInt64) {instruction : Bytes}
    (h : instruction.length = 24) :
    execute version seed value instruction =
      .ok (Native.execute version seed value instruction) := by
  have hshr : ∀ w : UInt64, shr w version.shift = .ok (w >>> version.shift) := fun w =>
    shr_of_lt (by cases version <;> decide)
  rw [execute, word_eq (by omega) (by omega), except_ok_bind, hshr, except_ok_bind,
    word_eq (by omega) (by omega), except_ok_bind, word_eq (by omega) (by omega), except_ok_bind,
    hshr, except_ok_bind]
  cases version with
  | tag28 => exact execute28_eq _ _ _ _ _
  | tag35 => exact execute35_eq _ _ _ _ _ _

theorem runProgram_eq (version : Version) (seed value : UInt64) {instructions : List Bytes}
    (h : ∀ instruction ∈ instructions, instruction.length = 24) :
    runProgram version seed value instructions =
      .ok (Native.runProgram version seed value instructions) := by
  induction instructions generalizing value with
  | nil => rfl
  | cons instruction rest ih =>
    rw [runProgram, execute_eq version seed value (h instruction List.mem_cons_self),
      except_ok_bind, Native.runProgram]
    cases Native.execute version seed value instruction with
    | next next => exact ih next fun other hother => h other (List.mem_cons_of_mem _ hother)
    | halt answer => rfl

/-- The interpreter answers as `solve` does, and traps nowhere. -/
theorem solve_eq (version : Version) (program : Bytes) (seed : UInt64) :
    solve version program seed = Fault.ofResult (Native.solve version program seed) := by
  rw [solve, Native.solve_eq]
  split
  · rfl
  · exact runProgram_eq version seed _ fun _ => Stride.length_of_mem_chunks

end Challenge.Machine

/-! ## The laws -/

/-- The bytes are a program. -/
def IsProgram (program : Bytes) : Prop :=
  program ≠ [] ∧ 24 ∣ program.length ∧ program.length ≤ MAX_PROGRAM_BYTES

theorem solve_of_isProgram {program : Bytes} (h : IsProgram program) (version : Version)
    (seed : UInt64) :
    solve version program seed =
      .ok (runProgram version seed (seed ^^^ version.seedMask) (instructionsOf program)) := by
  obtain ⟨hne, hwhole, hsize⟩ := h
  rw [solve_eq, if_neg]
  simp only [not_or]
  exact ⟨hne, Nat.not_lt.mpr hsize, Decidable.not_not.mpr (Nat.mod_eq_zero_of_dvd hwhole)⟩

theorem solve_eq_error {version : Version} {program : Bytes} {seed : UInt64} :
    (∃ e, solve version program seed = .error e) ↔
      program.length = 0 ∨ MAX_PROGRAM_BYTES < program.length ∨ program.length % 24 ≠ 0 := by
  rw [List.length_eq_zero_iff, solve_eq]
  split
  · rename_i h
    exact iff_of_true ⟨_, rfl⟩ h
  · rename_i h
    refine iff_of_false ?_ h
    intro hresult
    obtain ⟨e, he⟩ := hresult
    cases he

/-- Programs compose.  What stands behind a halt does nothing; without a halt, what stands
behind runs on from the answer; instructions whose opcodes are not in the table can be put
in and left out anywhere; nothing traps; and a program is rejected for its length only. -/
theorem challenge_programs (version : Version) (seed : UInt64) :
    (∀ p q, p ≠ [] → 24 ∣ p.length → 24 ∣ q.length → p.length + q.length ≤ MAX_PROGRAM_BYTES →
      ∃ answer, solve version p seed = .ok answer ∧
        ((∃ instruction ∈ instructionsOf p, opcodeOf version instruction = version.haltOpcode) →
          solve version (p ++ q) seed = .ok answer) ∧
        ((∀ instruction ∈ instructionsOf p,
            opcodeOf version instruction ≠ version.haltOpcode) →
          solve version (p ++ q) seed =
            .ok (runProgram version seed answer (instructionsOf q)))) ∧
    (∀ p q, IsProgram p → IsProgram q →
      (instructionsOf p).filter (inTable version) = (instructionsOf q).filter (inTable version) →
      solve version p seed = solve version q seed) ∧
    (∀ value instruction, instruction.length = 24 →
      Challenge.Machine.execute version seed value instruction =
        .ok (execute version seed value instruction)) ∧
    (∀ p, Challenge.Machine.solve version p seed = Fault.ofResult (solve version p seed)) ∧
    ∀ p, (∃ e, solve version p seed = .error e) ↔
      p.length = 0 ∨ MAX_PROGRAM_BYTES < p.length ∨ p.length % 24 ≠ 0 := by
  refine ⟨?_, ?_, fun value instruction h => Challenge.Machine.execute_eq version seed value h,
    fun p => Challenge.Machine.solve_eq version p seed, fun p => solve_eq_error⟩
  · intro p q hne hp hq hsize
    have hwhole : IsProgram (p ++ q) := by
      refine ⟨List.append_ne_nil_of_left_ne_nil hne q, ?_, ?_⟩
      · rw [List.length_append]
        exact Nat.dvd_add hp hq
      · rw [List.length_append]
        exact hsize
    have hinstructions : instructionsOf (p ++ q) = instructionsOf p ++ instructionsOf q :=
      Stride.chunks_append (by decide) hp q
    refine ⟨_, solve_of_isProgram ⟨hne, hp, by omega⟩ version seed, fun hhalt => ?_,
      fun hnext => ?_⟩
    · rw [solve_of_isProgram hwhole, hinstructions, runProgram_append_halt hhalt]
    · rw [solve_of_isProgram hwhole, hinstructions, runProgram_append_next hnext]
  · intro p q hp hq hsame
    rw [solve_of_isProgram hp, solve_of_isProgram hq, ← runProgram_filter, hsame,
      runProgram_filter]

/-- A halt, and what stands behind it. -/
example : solve .tag28 ([0, 0x50, 3, 0, 0, 0, 0, 0] ++ List.replicate 16 1) 123 =
    solve .tag28 ([0, 0x50, 3, 0, 0, 0, 0, 0] ++ List.replicate 16 1 ++ List.replicate 24 255) 123
    := by decide +kernel

end Mt5Open.Native
