import Mathlib.Data.Nat.Notation
import Mathlib.Logic.Relation

/-!
# A part of the x86-64 instruction set

A listing is a list of labels and instructions that work on words of 64 bits. Addresses are
abstract: the address of a word in a block of memory, of a string, of a word on the stack, or of an
instruction. The stack is a list of words with its top first, and the stack pointer is its height,
so that memory below the stack pointer cannot be read. The functions that a listing calls but does
not contain are a parameter, they are called in the way that the System V ABI prescribes.
-/

namespace X86

/-- The registers, but for the stack pointer. -/
inductive Reg where
  | rax | rbx | rdx | rdi | rsi | rbp | r12 | r13 | r14
deriving DecidableEq

/-- What is in a register or in a word of memory. -/
inductive Word where
  | num (n : BitVec 64)
  /-- The address of a byte in a block of memory. -/
  | address (block : ℕ) (offset : BitVec 64)
  /-- The address of a string that is not changed. -/
  | string (text : List Char)
  /-- The address of a word on the stack: the height of the stack with this word on top. -/
  | stack (height : ℕ)
  /-- The address of an instruction. -/
  | code (pc : ℕ)
  | unknown
deriving DecidableEq

/-- Whether a word is zero, if that is known. -/
def Word.isZero : Word → Option Bool
  | .num n => some (n == 0)
  | .address .. | .string _ | .stack _ | .code _ => some false
  | .unknown => none

/-- The number that a function of a number yields, if the word is one. -/
def Word.map (f : BitVec 64 → BitVec 64) : Word → Word
  | .num n => .num (f n)
  | _ => .unknown

/-- The second operand of `mov` to a register. -/
inductive Operand (L : Type) where
  | reg (r : Reg)
  | rsp
  | imm (w : Word)
  /-- The address of a label in the listing. -/
  | label (l : L)
  /-- `[base + offset]`. -/
  | mem (base : Reg) (offset : BitVec 64)
  /-- `[block + offset + index * 8]`. -/
  | table (block : ℕ) (offset : BitVec 64) (index : Reg)

/-- The lines of a listing, with labels `L` and external functions `E`. -/
inductive Instr (L E : Type) where
  | label (l : L)
  | push (r : Reg)
  | pop (r : Reg)
  | mov (r : Reg) (src : Operand L)
  /-- `mov rsp, r`. -/
  | movRsp (r : Reg)
  /-- `mov [base + offset], r`. -/
  | store (base : Reg) (offset : BitVec 64) (r : Reg)
  /-- `sub rsp, 8 * words`. -/
  | subRsp (words : ℕ)
  /-- `xor r, r`. -/
  | xorSelf (r : Reg)
  | and (r : Reg) (n : BitVec 64)
  | dec (r : Reg)
  /-- `test r, r`. -/
  | testSelf (r : Reg)
  | jmp (l : L)
  | jz (l : L)
  | jnz (l : L)
  /-- `jz` to an external function. -/
  | jzExternal (e : E)
  | call (l : L)
  /-- `call r`. -/
  | callReg (r : Reg)
  | callExternal (e : E)
  | ret

/-- The contents of the registers. -/
structure Regs where
  rax : Word
  rbx : Word
  rdx : Word
  rdi : Word
  rsi : Word
  rbp : Word
  r12 : Word
  r13 : Word
  r14 : Word
deriving DecidableEq

/-- The blocks of memory, with their words. -/
abbrev Memory := List (List Word)

/-- What a listing works on, besides the stack: `world` is what only external functions change. -/
structure Env (W : Type) where
  regs : Regs
  memory : Memory
  world : W

/-- A state of the machine. The zero flag tells whether the word `flag` is zero. -/
structure State (W : Type) where
  pc : ℕ
  flag : Word
  stack : List Word
  env : Env W

/-- A listing, and what its external functions do: what one returns, and the memory and the world
afterwards. It can have no defined behaviour. -/
structure Program (L E W : Type) where
  code : List (Instr L E)
  external : E → Env W → Option (Word × Memory × W)

/-- The contents of a register. -/
def Regs.get (regs : Regs) : Reg → Word
  | .rax => regs.rax
  | .rbx => regs.rbx
  | .rdx => regs.rdx
  | .rdi => regs.rdi
  | .rsi => regs.rsi
  | .rbp => regs.rbp
  | .r12 => regs.r12
  | .r13 => regs.r13
  | .r14 => regs.r14

/-- A register is set to `w`. -/
def Regs.set (regs : Regs) (r : Reg) (w : Word) : Regs :=
  match r with
  | .rax => { regs with rax := w }
  | .rbx => { regs with rbx := w }
  | .rdx => { regs with rdx := w }
  | .rdi => { regs with rdi := w }
  | .rsi => { regs with rsi := w }
  | .rbp => { regs with rbp := w }
  | .r12 => { regs with r12 := w }
  | .r13 => { regs with r13 := w }
  | .r14 => { regs with r14 := w }

/-- The registers after an external function has returned `result`: it can use those that do not
belong to its caller. -/
def Regs.clobber (regs : Regs) (result : Word) : Regs :=
  { regs with rax := result, rdx := .unknown, rdi := .unknown, rsi := .unknown }

/-- The word at this offset of a block. -/
def Memory.load (memory : Memory) (block : ℕ) (offset : BitVec 64) : Option Word :=
  if offset.toNat % 8 = 0 then (memory[block]?).bind fun words => words[offset.toNat / 8]? else none

/-- The word at an address. -/
def Memory.read (memory : Memory) : Word → BitVec 64 → Option Word
  | .address block start, offset => memory.load block (start + offset)
  | _, _ => none

/-- The memory after a write to an address. -/
def Memory.write (memory : Memory) (address : Word) (offset : BitVec 64) (w : Word) :
    Option Memory :=
  match address with
  | .address block start =>
    match memory[block]?, memory.load block (start + offset) with
    | some words, some _ => some (memory.set block (words.set ((start + offset).toNat / 8) w))
    | _, _ => none
  | _ => none

section

variable {L E W : Type}

/-- The next line. -/
def State.next (s : State W) : State W := { s with pc := s.pc + 1 }

/-- The next line, with the register `r` set to `w`. -/
def State.set (s : State W) (r : Reg) (w : Word) : State W :=
  { s with pc := s.pc + 1, env := { s.env with regs := s.env.regs.set r w } }

/-- The first line of a procedure that has been called. -/
def State.enter (s : State W) (pc : ℕ) : State W :=
  { s with pc := pc, stack := .code (s.pc + 1) :: s.stack }

variable [DecidableEq L]

/-- Whether the line is this label. -/
def Instr.isLabel (l : L) : Instr L E → Bool
  | .label l' => l' = l
  | _ => false

/-- Where a label stands. -/
def Program.entry (p : Program L E W) (l : L) : ℕ := p.code.findIdx (Instr.isLabel l)

/-- The word that an operand stands for. -/
def Program.operand (p : Program L E W) (s : State W) : Operand L → Option Word
  | .reg r => some (s.env.regs.get r)
  | .rsp => some (.stack s.stack.length)
  | .imm w => some w
  | .label l => some (.code (p.entry l))
  | .mem base offset => s.env.memory.read (s.env.regs.get base) offset
  | .table block offset index =>
    match s.env.regs.get index with
    | .num n => s.env.memory.load block (offset + n * 8)
    | _ => none

/-- The entry of the procedure that is called by an instruction of the listing. -/
def Program.target (p : Program L E W) (s : State W) : Option ℕ :=
  match p.code[s.pc]? with
  | some (.call l) => some (p.entry l)
  | some (.callReg r) =>
    match s.env.regs.get r with
    | .code pc => some pc
    | _ => none
  | _ => none

/-- One step. There is none if the behaviour is not defined, and the stack has to be aligned to 16
bytes when an external function is called. -/
def Program.step (p : Program L E W) (s : State W) : Option (State W) :=
  match p.code[s.pc]? with
  | none => none
  | some (.label _) => some s.next
  | some (.push r) => some { s.next with stack := s.env.regs.get r :: s.stack }
  | some (.pop r) =>
    match s.stack with
    | w :: stack => some { s.set r w with stack := stack }
    | [] => none
  | some (.mov r src) => (p.operand s src).map (s.set r)
  | some (.movRsp r) =>
    match s.env.regs.get r with
    | .stack height =>
      if height ≤ s.stack.length then
        some { s.next with stack := s.stack.drop (s.stack.length - height) }
      else none
    | _ => none
  | some (.store base offset r) =>
    (s.env.memory.write (s.env.regs.get base) offset (s.env.regs.get r)).map fun memory =>
      { s.next with env := { s.env with memory := memory } }
  | some (.subRsp words) =>
    some { s.next with flag := .unknown, stack := List.replicate words .unknown ++ s.stack }
  | some (.xorSelf r) => some { s.set r (.num 0) with flag := .num 0 }
  | some (.and r n) =>
    let w := (s.env.regs.get r).map (· &&& n)
    some { s.set r w with flag := w }
  | some (.dec r) =>
    let w := (s.env.regs.get r).map (· - 1)
    some { s.set r w with flag := w }
  | some (.testSelf r) => some { s.next with flag := s.env.regs.get r }
  | some (.jmp l) => some { s with pc := p.entry l }
  | some (.jz l) =>
    s.flag.isZero.map fun zero => if zero then { s with pc := p.entry l } else s.next
  | some (.jnz l) =>
    s.flag.isZero.map fun zero => if zero then s.next else { s with pc := p.entry l }
  | some (.jzExternal _) => if s.flag.isZero = some false then some s.next else none
  | some (.call l) => some (s.enter (p.entry l))
  | some (.callReg r) =>
    match s.env.regs.get r with
    | .code pc => some (s.enter pc)
    | _ => none
  | some (.callExternal e) =>
    if s.stack.length % 2 = 0 then
      (p.external e s.env).map fun (result, memory, world) =>
        ⟨s.pc + 1, .unknown, s.stack, s.env.regs.clobber result, memory, world⟩
    else none
  | some .ret =>
    match s.stack with
    | .code pc :: stack => some { s with pc := pc, stack := stack }
    | _ => none

end

/-! ## Words and memory -/

theorem isZero_num {n : BitVec 64} (h : n ≠ 0) : (Word.num n).isZero = some false :=
  congrArg some (beq_eq_false_iff_ne.mpr h)

theorem load_append {memory : Memory} {block : ℕ} {offset : BitVec 64} {w : Word}
    (h : memory.load block offset = some w) (more : Memory) :
    Memory.load (memory ++ more) block offset = some w := by
  unfold Memory.load at h ⊢
  split at h
  · rename_i haligned
    obtain ⟨words, hwords, hw⟩ := Option.bind_eq_some_iff.mp h
    have hlt : block < memory.length := (List.getElem?_eq_some_iff.mp hwords).1
    rw [if_pos haligned, List.getElem?_append_left hlt, hwords, Option.bind_some, hw]
  · cases h

/-- What can be read stays when blocks are added. -/
theorem read_append {memory : Memory} {address w : Word} {offset : BitVec 64}
    (h : memory.read address offset = some w) (more : Memory) :
    Memory.read (memory ++ more) address offset = some w := by
  cases address with
  | address block start => exact load_append h more
  | _ => cases h

theorem read_last (memory : Memory) {words : List Word} {offset : BitVec 64} {w : Word}
    (hoffset : offset.toNat % 8 = 0) (hw : words[offset.toNat / 8]? = some w) :
    Memory.read (memory ++ [words]) (.address memory.length 0) offset = some w := by
  have hzero : (0 : BitVec 64) + offset = offset := BitVec.zero_add offset
  rw [Memory.read, hzero, Memory.load, if_pos hoffset, List.getElem?_concat_length,
    Option.bind_some, hw]

theorem write_last (memory : Memory) {words : List Word} {offset : BitVec 64} (w : Word)
    (hoffset : offset.toNat % 8 = 0) (hlt : offset.toNat / 8 < words.length) :
    Memory.write (memory ++ [words]) (.address memory.length 0) offset w =
      some (memory ++ [words.set (offset.toNat / 8) w]) := by
  have hzero : (0 : BitVec 64) + offset = offset := BitVec.zero_add offset
  have hload := read_last memory hoffset (List.getElem?_eq_getElem hlt)
  rw [Memory.read, hzero] at hload
  simp only [Memory.write, hzero, hload, List.getElem?_concat_length, Option.some.injEq]
  rw [List.set_append_right _ _ (Nat.le_refl _), Nat.sub_self]
  rfl

/-! ## Runs in which every call returns -/

/-- The registers that belong to the caller have been restored. -/
structure Saved (regs regs' : Regs) : Prop where
  rbx : regs'.rbx = regs.rbx
  rbp : regs'.rbp = regs.rbp
  r12 : regs'.r12 = regs.r12
  r13 : regs'.r13 = regs.r13
  r14 : regs'.r14 = regs.r14

variable {L E W : Type} [DecidableEq L] {p : Program L E W} {s s' s'' : State W}

/-- The state behind a call: the stack is the same, and so are the registers of the caller. -/
structure Returns (s s' : State W) : Prop where
  pc : s'.pc = s.pc + 1
  stack : s'.stack = s.stack
  saved : Saved s.env.regs s'.env.regs

/-- Runs in which every procedure of the listing that is called, at every depth, returns behind the
call with the stack and the registers of the caller restored. -/
inductive Run (p : Program L E W) : State W → State W → Prop where
  | refl (s : State W) : Run p s s
  /-- A step that is not a call. -/
  | step {s s' s'' : State W} (hcall : p.target s = none) (h : p.step s = some s')
      (hrun : Run p s' s'') : Run p s s''
  /-- A call, what the procedure does, and what follows. -/
  | call {s s' s'' : State W} {pc : ℕ} (hcall : p.target s = some pc)
      (hcallee : Run p (s.enter pc) s') (hreturns : Returns s s') (hrun : Run p s' s'') :
      Run p s s''

theorem Run.trans (h : Run p s s') (h' : Run p s' s'') : Run p s s'' := by
  induction h with
  | refl => exact h'
  | step hcall hstep _ ih => exact Run.step hcall hstep (ih h')
  | call hcall hcallee hreturns _ _ ih => exact Run.call hcall hcallee hreturns (ih h')

theorem target_call {l : L} (hcode : p.code[s.pc]? = some (.call l)) :
    p.target s = some (p.entry l) := by
  unfold Program.target
  rw [hcode]

theorem target_callReg {r : Reg} {pc : ℕ} (hcode : p.code[s.pc]? = some (.callReg r))
    (hreg : s.env.regs.get r = .code pc) : p.target s = some pc := by
  unfold Program.target
  simp only [hcode, hreg]

/-- An instruction that calls a procedure enters it. -/
theorem step_of_target {pc : ℕ} (h : p.target s = some pc) : p.step s = some (s.enter pc) := by
  unfold Program.target at h
  unfold Program.step
  split at h
  · rename_i l hl
    cases h
    rw [hl]
  · rename_i r hr
    rw [hr]
    split at h
    · rename_i pc' hpc'
      cases h
      simp only [hpc']
    · cases h
  · cases h

/-- Such a run is one of the machine. -/
theorem Run.steps (h : Run p s s') :
    Relation.ReflTransGen (fun s s' => p.step s = some s') s s' := by
  induction h with
  | refl => exact .refl
  | step _ hstep _ ih => exact .head hstep ih
  | call hcall _ _ _ ih ih' => exact .trans (.head (step_of_target hcall) ih) ih'

/-- `n` lines without a call. -/
def Program.lines (p : Program L E W) : ℕ → State W → Option (State W)
  | 0, s => some s
  | n + 1, s => if (p.target s).isNone then (p.step s).bind (p.lines n) else none

theorem run_lines {n : ℕ} (h : p.lines n s = some s') : Run p s s' := by
  induction n generalizing s with
  | zero =>
    cases h
    exact Run.refl _
  | succ n ih =>
    rw [Program.lines] at h
    split at h
    · rename_i hcall
      obtain ⟨s₁, hstep, hrest⟩ := Option.bind_eq_some_iff.mp h
      exact Run.step (Option.isNone_iff_eq_none.mp hcall) hstep (ih hrest)
    · cases h

/-! ## Rules for the listing

`Leads p s Q` is a total correctness assertion. There is a rule for each line that needs something
from the state, and one for lines that do not. -/

/-- From `s` there is a run in which every call returns, to a state with `Q`. -/
def Leads (p : Program L E W) (s : State W) (Q : State W → Prop) : Prop := ∃ s', Run p s s' ∧ Q s'

/-- Called with a stack that is aligned and with `pre`, the procedure at `pc` returns with the stack
and the registers of the caller restored, and with `post`. -/
def Procedure (p : Program L E W) (pc : ℕ) (pre : Env W → Prop) (post : Env W → Env W → Prop) :
    Prop :=
  ∀ (flag : Word) (ra : ℕ) (stack : List Word) (env : Env W), stack.length % 2 = 0 → pre env →
    Leads p ⟨pc, flag, .code ra :: stack, env⟩ fun s' =>
      s'.pc = ra ∧ s'.stack = stack ∧ Saved env.regs s'.env.regs ∧ post env s'.env

variable {Q Q' : State W → Prop}

theorem Leads.done (h : Q s) : Leads p s Q := ⟨s, .refl s, h⟩

/-- The rule of sequence. -/
theorem Leads.trans (h : Leads p s Q') (h' : ∀ s', Q' s' → Leads p s' Q) : Leads p s Q := by
  obtain ⟨s', hrun, hs'⟩ := h
  obtain ⟨s'', hrun', hs''⟩ := h' s' hs'
  exact ⟨s'', hrun.trans hrun', hs''⟩

/-- The rule of consequence. -/
theorem Leads.mono (h : Leads p s Q') (himp : ∀ s', Q' s' → Q s') : Leads p s Q := by
  obtain ⟨s', hrun, hs'⟩ := h
  exact ⟨s', hrun, himp s' hs'⟩

/-- Lines without a call. -/
theorem Leads.lines (n : ℕ) (s' : State W) (hlines : p.lines n s = some s') (h : Leads p s' Q) :
    Leads p s Q :=
  Leads.trans ⟨s', run_lines hlines, rfl⟩ fun _ hs => hs ▸ h

theorem Leads.step (hcall : p.target s = none) (hstep : p.step s = some s') (h : Leads p s' Q) :
    Leads p s Q := by
  obtain ⟨s'', hrun, hs⟩ := h
  exact ⟨s'', Run.step hcall hstep hrun, hs⟩

theorem target_of_code {i : Instr L E} (hcode : p.code[s.pc]? = some i)
    (hcall : ∀ l, i ≠ .call l) (hcallReg : ∀ r, i ≠ .callReg r) : p.target s = none := by
  unfold Program.target
  rw [hcode]
  cases i with
  | call l => exact absurd rfl (hcall l)
  | callReg r => exact absurd rfl (hcallReg r)
  | _ => rfl

/-- `mov` from memory. -/
theorem Leads.load {r base : Reg} {offset : BitVec 64} {w : Word}
    (hcode : p.code[s.pc]? = some (.mov r (.mem base offset)))
    (hread : s.env.memory.read (s.env.regs.get base) offset = some w) (h : Leads p (s.set r w) Q) :
    Leads p s Q := by
  refine Leads.step (target_of_code hcode (by simp) (by simp)) ?_ h
  simp only [Program.step, hcode, Program.operand, hread, Option.map_some]

/-- `mov` from a table. -/
theorem Leads.loadTable {r index : Reg} {block : ℕ} {offset n : BitVec 64} {w : Word}
    (hcode : p.code[s.pc]? = some (.mov r (.table block offset index)))
    (hindex : s.env.regs.get index = .num n)
    (hload : s.env.memory.load block (offset + n * 8) = some w) (h : Leads p (s.set r w) Q) :
    Leads p s Q := by
  refine Leads.step (target_of_code hcode (by simp) (by simp)) ?_ h
  simp only [Program.step, hcode, Program.operand, hindex, hload, Option.map_some]

theorem Leads.store {base r : Reg} {offset : BitVec 64} {memory : Memory}
    (hcode : p.code[s.pc]? = some (.store base offset r))
    (hwrite : s.env.memory.write (s.env.regs.get base) offset (s.env.regs.get r) = some memory)
    (h : Leads p { s.next with env := { s.env with memory := memory } } Q) : Leads p s Q := by
  refine Leads.step (target_of_code hcode (by simp) (by simp)) ?_ h
  simp only [Program.step, hcode, hwrite, Option.map_some]

/-- `mov rsp, r` drops what has been put on the stack since `r` was set to the stack pointer. -/
theorem Leads.movRsp (front stack : List Word) {r : Reg}
    (hcode : p.code[s.pc]? = some (.movRsp r)) (hreg : s.env.regs.get r = .stack stack.length)
    (hstack : s.stack = front ++ stack) (h : Leads p { s.next with stack := stack } Q) :
    Leads p s Q := by
  refine Leads.step (target_of_code hcode (by simp) (by simp)) ?_ h
  have hdrop : s.stack.drop (s.stack.length - stack.length) = stack := by
    rw [hstack, List.length_append, Nat.add_sub_cancel, List.drop_left]
  have hle : stack.length ≤ s.stack.length := by
    rw [hstack, List.length_append]
    exact Nat.le_add_left _ _
  simp only [Program.step, hcode, hreg, hdrop, if_pos hle]

/-- `jz`, when the zero flag is known. -/
theorem Leads.jz (zero : Bool) {l : L} (hcode : p.code[s.pc]? = some (.jz l))
    (hflag : s.flag.isZero = some zero)
    (h : Leads p (if zero then { s with pc := p.entry l } else s.next) Q) : Leads p s Q := by
  refine Leads.step (target_of_code hcode (by simp) (by simp)) ?_ h
  simp only [Program.step, hcode, hflag, Option.map_some]

/-- `jnz`, when the zero flag is known. -/
theorem Leads.jnz (zero : Bool) {l : L} (hcode : p.code[s.pc]? = some (.jnz l))
    (hflag : s.flag.isZero = some zero)
    (h : Leads p (if zero then s.next else { s with pc := p.entry l }) Q) : Leads p s Q := by
  refine Leads.step (target_of_code hcode (by simp) (by simp)) ?_ h
  simp only [Program.step, hcode, hflag, Option.map_some]

/-- A call of an external function. -/
theorem Leads.external {e : E} {result : Word} {memory : Memory} {world : W}
    (hcode : p.code[s.pc]? = some (.callExternal e)) (haligned : s.stack.length % 2 = 0)
    (hexternal : p.external e s.env = some (result, memory, world))
    (h : Leads p ⟨s.pc + 1, .unknown, s.stack, s.env.regs.clobber result, memory, world⟩ Q) :
    Leads p s Q := by
  refine Leads.step (target_of_code hcode (by simp) (by simp)) ?_ h
  simp only [Program.step, hcode, if_pos haligned, hexternal, Option.map_some]

/-- The rule of calls. -/
theorem Leads.call {pc : ℕ} {pre : Env W → Prop} {post : Env W → Env W → Prop}
    (hprocedure : Procedure p pc pre post) (htarget : p.target s = some pc)
    (haligned : s.stack.length % 2 = 0) (hpre : pre s.env)
    (h : ∀ flag env, Saved s.env.regs env.regs → post s.env env →
      Leads p ⟨s.pc + 1, flag, s.stack, env⟩ Q) : Leads p s Q := by
  obtain ⟨⟨pc', flag, stack, env⟩, hcallee, hpc, hstack, hsaved, hpost⟩ :=
    hprocedure s.flag (s.pc + 1) s.stack s.env haligned hpre
  cases hpc
  cases hstack
  obtain ⟨s', hrun, hs'⟩ := h flag env hsaved hpost
  exact ⟨s', Run.call htarget hcallee ⟨rfl, rfl, hsaved⟩ hrun, hs'⟩

end X86
