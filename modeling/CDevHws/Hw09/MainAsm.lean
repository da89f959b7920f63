import CDevHws.Hw09.CProg
import CDevHws.Lib.X86

/-!
# The listing with a linked list (`main.asm`)

`data` is the first block of memory, the nodes of the lists are the blocks that `malloc` returns. As
in the C program `malloc` always succeeds and the stack is not limited.
-/

namespace CDevHws.Hw09

open X86

/-- The labels of the code. -/
inductive Label where
  | printInt | p | addElement | m | outm | f | z | ff | outf | main | addingLoop
deriving DecidableEq

/-- The external functions. -/
inductive Extern where
  | malloc | puts | printf | fflush | abort
deriving DecidableEq

/-- The block `data`. -/
def dataBlock : ℕ := 0

/-- The section `.text`, where `dataLength` is `data_length`. -/
def listing (dataLength : ℕ) : List (Instr Label Extern) := [
  .label .printInt,
  .push .rbp,
  .mov .rbp .rsp,
  .subRsp 2,
  .mov .rsi (.reg .rdi),
  .mov .rdi (.imm (.string intFormat)),
  .xorSelf .rax,
  .callExternal .printf,
  .xorSelf .rdi,
  .callExternal .fflush,
  .movRsp .rbp,
  .pop .rbp,
  .ret,

  .label .p,
  .mov .rax (.reg .rdi),
  .and .rax 1,
  .ret,

  .label .addElement,
  .push .rbp,
  .push .rbx,
  .push .r14,
  .mov .rbp .rsp,
  .subRsp 2,
  .mov .r14 (.reg .rdi),
  .mov .rbx (.reg .rsi),
  .mov .rdi (.imm (.num 16)),
  .callExternal .malloc,
  .testSelf .rax,
  .jzExternal .abort,
  .store .rax 0 .r14,
  .store .rax 8 .rbx,
  .movRsp .rbp,
  .pop .r14,
  .pop .rbx,
  .pop .rbp,
  .ret,

  .label .m,
  .push .rbp,
  .mov .rbp .rsp,
  .subRsp 2,
  .testSelf .rdi,
  .jz .outm,
  .push .rbp,
  .push .rbx,
  .mov .rbx (.reg .rdi),
  .mov .rbp (.reg .rsi),
  .mov .rdi (.mem .rdi 0),
  .callReg .rsi,
  .mov .rdi (.mem .rbx 8),
  .mov .rsi (.reg .rbp),
  .call .m,
  .pop .rbx,
  .pop .rbp,
  .label .outm,
  .movRsp .rbp,
  .pop .rbp,
  .ret,

  .label .f,
  .mov .rax (.reg .rsi),
  .testSelf .rdi,
  .jz .outf,
  .push .rbx,
  .push .r12,
  .push .r13,
  .mov .rbx (.reg .rdi),
  .mov .r12 (.reg .rsi),
  .mov .r13 (.reg .rdx),
  .mov .rdi (.mem .rdi 0),
  .callReg .rdx,
  .testSelf .rax,
  .jz .z,
  .mov .rdi (.mem .rbx 0),
  .mov .rsi (.reg .r12),
  .call .addElement,
  .mov .rsi (.reg .rax),
  .jmp .ff,
  .label .z,
  .mov .rsi (.reg .r12),
  .label .ff,
  .mov .rdi (.mem .rbx 8),
  .mov .rdx (.reg .r13),
  .call .f,
  .pop .r13,
  .pop .r12,
  .pop .rbx,
  .label .outf,
  .ret,

  .label .main,
  .push .rbx,
  .xorSelf .rax,
  .mov .rbx (.imm (.num (BitVec.ofNat 64 dataLength))),
  .label .addingLoop,
  .mov .rdi (.table dataBlock (-8) .rbx),
  .mov .rsi (.reg .rax),
  .call .addElement,
  .dec .rbx,
  .jnz .addingLoop,
  .mov .rbx (.reg .rax),
  .mov .rdi (.reg .rax),
  .mov .rsi (.label .printInt),
  .call .m,
  .mov .rdi (.imm (.string emptyStr)),
  .callExternal .puts,
  .mov .rdx (.label .p),
  .xorSelf .rsi,
  .mov .rdi (.reg .rbx),
  .call .f,
  .mov .rdi (.reg .rax),
  .mov .rsi (.label .printInt),
  .call .m,
  .mov .rdi (.imm (.string emptyStr)),
  .callExternal .puts,
  .pop .rbx,
  .xorSelf .rax,
  .ret]

/-- What the external functions do. The number of vector registers that `printf` gets in `rax`
is 0, and `fflush` is called for all streams. -/
def external (e : Extern) (env : Env Stdout.Stream) : Option (Word × Memory × Stdout.Stream) :=
  match e with
  | .malloc =>
    match env.regs.rdi with
    | .num size =>
      some (.address env.memory.length 0,
        env.memory ++ [List.replicate (size.toNat / 8) .unknown], env.world)
    | _ => none
  | .puts =>
    match env.regs.rdi with
    | .string text => some (.unknown, env.memory, env.world.puts text)
    | _ => none
  | .printf =>
    match env.regs.rdi, env.regs.rsi with
    | .string fmt, .num number =>
      if env.regs.rax = .num 0 then some (.unknown, env.memory, env.world.printf fmt number)
      else none
    | _, _ => none
  | .fflush =>
    if env.regs.rdi = .num 0 then some (.unknown, env.memory, env.world.flush) else none
  | .abort => none

/-- The listing with the array `data`. -/
def mainAsm (data : Data) : Program Label Extern Stdout.Stream :=
  ⟨listing data.elements.length, external⟩

/-- The memory when `main` is called. -/
def memoryAtStart (data : Data) : Memory := [data.elements.map .num]

end CDevHws.Hw09
