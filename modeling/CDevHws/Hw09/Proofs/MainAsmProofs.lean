import CDevHws.Hw09.MainAsm
import CDevHws.Hw09.Proofs.SessionProofs
import CDevHws.Lib.LinkedList

/-!
# Proofs: the procedures of the listing

Each procedure is called with an aligned stack and returns with the stack and the registers of its
caller restored. The recursive ones go by induction on the list in memory, with a promise about the
procedure that they get as an argument.
-/

namespace CDevHws.Hw09

open X86

variable {data : Data}

/-! ## External functions -/

theorem external_printf {env : Env Stdout.Stream} {fmt : List Char} {number : BitVec 64}
    (hfmt : env.regs.rdi = .string fmt) (hnumber : env.regs.rsi = .num number)
    (hrax : env.regs.rax = .num 0) :
    (mainAsm data).external .printf env =
      some (.unknown, env.memory, env.world.printf fmt number) := by
  simp only [mainAsm, external, hfmt, hnumber, if_pos hrax]

theorem external_fflush {env : Env Stdout.Stream} (hrdi : env.regs.rdi = .num 0) :
    (mainAsm data).external .fflush env = some (.unknown, env.memory, env.world.flush) := by
  simp only [mainAsm, external, if_pos hrdi]

theorem external_puts {env : Env Stdout.Stream} {text : List Char}
    (htext : env.regs.rdi = .string text) :
    (mainAsm data).external .puts env = some (.unknown, env.memory, env.world.puts text) := by
  simp only [mainAsm, external, htext]

theorem external_malloc {env : Env Stdout.Stream} {size : BitVec 64}
    (hsize : env.regs.rdi = .num size) :
    (mainAsm data).external .malloc env = some (.address env.memory.length 0,
      env.memory ++ [List.replicate (size.toNat / 8) .unknown], env.world) := by
  simp only [mainAsm, external, hsize]

/-! ## The procedures that are not recursive -/

theorem printInt_procedure (number : BitVec 64) :
    Procedure (mainAsm data) ((mainAsm data).entry .printInt)
      (fun env => env.regs.rdi = .num number)
      (fun env env' => env'.memory = env.memory ∧ env'.world = printed env.world number) := by
  rintro flag ra stack ⟨regs, memory, world⟩ haligned hnumber
  let regs₁ : Regs := { regs with
    rbp := .stack (stack.length + 2), rsi := regs.rdi, rdi := .string intFormat, rax := .num 0 }
  refine Leads.lines 7 ⟨_, .num 0, .unknown :: .unknown :: regs.rbp :: .code ra :: stack, regs₁,
    memory, world⟩ rfl ?_
  refine Leads.external rfl (by simp; omega) (external_printf rfl hnumber rfl) ?_
  refine Leads.lines 1 ⟨_, .num 0, .unknown :: .unknown :: regs.rbp :: .code ra :: stack,
    { regs₁.clobber .unknown with rdi := .num 0 }, memory, world.printf intFormat number⟩ rfl ?_
  refine Leads.external rfl (by simp; omega) (external_fflush rfl) ?_
  refine Leads.movRsp [.unknown, .unknown] (regs.rbp :: .code ra :: stack) rfl rfl rfl ?_
  refine Leads.lines 2 ⟨_, .unknown, stack, regs.clobber .unknown, memory, printed world number⟩
    rfl ?_
  exact Leads.done ⟨rfl, rfl, ⟨rfl, rfl, rfl, rfl, rfl⟩, rfl, rfl⟩

/-- `p` returns its argument's last bit. -/
theorem p_procedure (number : BitVec 64) :
    Procedure (mainAsm data) ((mainAsm data).entry .p)
      (fun env => env.regs.rdi = .num number)
      (fun env env' => env'.regs.rax = .num (number &&& 1) ∧ env'.memory = env.memory ∧
        env'.world = env.world) := by
  rintro flag ra stack ⟨regs, memory, world⟩ haligned hnumber
  refine Leads.lines 4 ⟨_, regs.rdi.map (· &&& 1), stack,
    { regs with rax := regs.rdi.map (· &&& 1) }, memory, world⟩ rfl ?_
  refine Leads.done ⟨rfl, rfl, ⟨rfl, rfl, rfl, rfl, rfl⟩, ?_, rfl, rfl⟩
  exact congrArg (Word.map (· &&& 1)) hnumber

theorem write_first (memory : Memory) (a b w : Word) :
    Memory.write (memory ++ [[a, b]]) (.address memory.length 0) 0 w =
      some (memory ++ [[w, b]]) :=
  write_last memory w rfl Nat.two_pos

theorem write_second (memory : Memory) (a b w : Word) :
    Memory.write (memory ++ [[a, b]]) (.address memory.length 0) 8 w =
      some (memory ++ [[a, w]]) :=
  write_last memory w rfl Nat.one_lt_two

theorem addElement_procedure :
    Procedure (mainAsm data) ((mainAsm data).entry .addElement) (fun _ => True)
      (fun env env' => env'.regs.rax = .address env.memory.length 0 ∧
        env'.memory = env.memory ++ [[env.regs.rdi, env.regs.rsi]] ∧ env'.world = env.world) := by
  rintro flag ra stack ⟨regs, memory, world⟩ haligned -
  let regs₁ : Regs := { regs with
    rbp := .stack (stack.length + 4), r14 := regs.rdi, rbx := regs.rsi, rdi := .num 16 }
  let saved := regs.r14 :: regs.rbx :: regs.rbp :: .code ra :: stack
  refine Leads.lines 9 ⟨_, .unknown, .unknown :: .unknown :: saved, regs₁, memory, world⟩ rfl ?_
  refine Leads.external rfl (by simp [saved]; omega) (external_malloc rfl) ?_
  refine Leads.lines 2 ⟨_, .address memory.length 0, .unknown :: .unknown :: saved,
    regs₁.clobber (.address memory.length 0), memory ++ [[.unknown, .unknown]], world⟩ rfl ?_
  refine Leads.store rfl (write_first memory _ _ _) ?_
  refine Leads.store rfl (write_second memory _ _ _) ?_
  refine Leads.movRsp [.unknown, .unknown] saved rfl rfl rfl ?_
  refine Leads.lines 4 ⟨_, .address memory.length 0, stack,
    regs.clobber (.address memory.length 0), memory ++ [[regs.rdi, regs.rsi]], world⟩ rfl ?_
  exact Leads.done ⟨rfl, rfl, ⟨rfl, rfl, rfl, rfl, rfl⟩, rfl, rfl, rfl⟩

/-! ## Lists in memory -/

/-- The node at an address. -/
def nodeAt (memory : Memory) (w : Word) : Option (BitVec 64 × Word) :=
  match memory.read w 0, memory.read w 8 with
  | some (.num val), some next => some (val, next)
  | _, _ => none

/-- The nodes from `w` on hold these numbers. -/
def ListAt (memory : Memory) (w : Word) (numbers : List (BitVec 64)) : Prop :=
  LinkedList.Holds (nodeAt memory) (.num 0) w numbers

theorem nodeAt_eq_some_iff {memory : Memory} {w next : Word} {val : BitVec 64} :
    nodeAt memory w = some (val, next) ↔
      memory.read w 0 = some (.num val) ∧ memory.read w 8 = some next := by
  unfold nodeAt
  constructor
  · intro h
    split at h
    · rename_i val' next' hval hnext
      cases h
      exact ⟨hval, hnext⟩
    · cases h
  · rintro ⟨hval, hnext⟩
    rw [hval, hnext]

theorem isZero_of_nodeAt {memory : Memory} {w : Word} {node : BitVec 64 × Word}
    (h : nodeAt memory w = some node) : w.isZero = some false := by
  cases w with
  | address block offset => rfl
  | _ => cases h

theorem ListAt.append {memory : Memory} {w : Word} {numbers : List (BitVec 64)}
    (h : ListAt memory w numbers) (more : Memory) : ListAt (memory ++ more) w numbers := by
  refine LinkedList.Holds.mono h fun w node hnode => ?_
  obtain ⟨hval, hnext⟩ := nodeAt_eq_some_iff.mp hnode
  exact nodeAt_eq_some_iff.mpr ⟨read_append hval more, read_append hnext more⟩

/-- A node that `add_element` has made. -/
theorem ListAt.cons {memory : Memory} {next : Word} {numbers : List (BitVec 64)}
    (h : ListAt memory next numbers) (val : BitVec 64) :
    ListAt (memory ++ [[.num val, next]]) (.address memory.length 0) (val :: numbers) := by
  refine LinkedList.Holds.cons (by simp) ?_ (h.append [[.num val, next]])
  exact nodeAt_eq_some_iff.mpr ⟨read_last memory rfl rfl, read_last memory rfl rfl⟩

/-! ## Map -/

theorem m_procedure {g : ℕ} {work : Stdout.Stream → BitVec 64 → Stdout.Stream}
    (hg : ∀ number, Procedure (mainAsm data) g (fun env => env.regs.rdi = .num number)
      (fun env env' => env'.memory = env.memory ∧ env'.world = work env.world number))
    (numbers : List (BitVec 64)) :
    Procedure (mainAsm data) ((mainAsm data).entry .m)
      (fun env => env.regs.rsi = .code g ∧ ListAt env.memory env.regs.rdi numbers)
      (fun env env' => env'.memory = env.memory ∧
        env'.world = numbers.foldl work env.world) := by
  induction numbers with
  | nil =>
    rintro flag ra stack ⟨regs, memory, world⟩ haligned ⟨hrsi, hlist⟩
    refine Leads.lines 5 ⟨_, regs.rdi, .unknown :: .unknown :: regs.rbp :: .code ra :: stack,
      { regs with rbp := .stack (stack.length + 2) }, memory, world⟩ rfl ?_
    have hrdi : regs.rdi = .num 0 := hlist
    refine Leads.jz true rfl ?_ ?_
    · rw [hrdi]
      rfl
    refine Leads.lines 1 ⟨_, regs.rdi, .unknown :: .unknown :: regs.rbp :: .code ra :: stack,
      { regs with rbp := .stack (stack.length + 2) }, memory, world⟩ rfl ?_
    refine Leads.movRsp [.unknown, .unknown] (regs.rbp :: .code ra :: stack) rfl rfl rfl ?_
    refine Leads.lines 2 ⟨_, regs.rdi, stack, regs, memory, world⟩ rfl ?_
    exact Leads.done ⟨rfl, rfl, ⟨rfl, rfl, rfl, rfl, rfl⟩, rfl, rfl⟩
  | cons val numbers ih =>
    rintro flag ra stack ⟨regs, memory, world⟩ haligned ⟨hrsi, -, next, hnode, htail⟩
    obtain ⟨hval, hnext⟩ := nodeAt_eq_some_iff.mp hnode
    refine Leads.lines 5 ⟨_, regs.rdi, .unknown :: .unknown :: regs.rbp :: .code ra :: stack,
      { regs with rbp := .stack (stack.length + 2) }, memory, world⟩ rfl ?_
    refine Leads.jz false rfl (isZero_of_nodeAt hnode) ?_
    let saved := regs.rbx :: .stack (stack.length + 2) :: .unknown :: .unknown :: regs.rbp ::
      .code ra :: stack
    refine Leads.lines 4 ⟨_, regs.rdi, saved, { regs with rbx := regs.rdi, rbp := regs.rsi },
      memory, world⟩ rfl ?_
    refine Leads.load rfl hval ?_
    have haligned₁ : saved.length % 2 = 0 := by
      simp only [saved, List.length_cons]
      omega
    refine Leads.call (hg val) (target_callReg rfl hrsi) haligned₁ rfl ?_
    rintro flag₁ ⟨regs₁, memory₁, world₁⟩ hsaved ⟨hmemory, hworld⟩
    cases hmemory
    cases hworld
    have hrbx : regs₁.rbx = regs.rdi := hsaved.rbx
    have hrbp : regs₁.rbp = regs.rsi := hsaved.rbp
    refine Leads.load (w := next) rfl ?_ ?_
    · show memory.read regs₁.rbx 8 = some next
      rw [hrbx]
      exact hnext
    refine Leads.lines 1 ⟨_, flag₁, saved,
      { regs₁ with rdi := next, rsi := regs₁.rbp }, memory, work world val⟩ rfl ?_
    refine Leads.call ih (target_call rfl) haligned₁ ⟨hrbp.trans hrsi, htail⟩ ?_
    rintro flag₂ ⟨regs₂, memory₂, world₂⟩ hsaved' ⟨hmemory, hworld⟩
    cases hmemory
    cases hworld
    refine Leads.lines 3 ⟨_, flag₂, .unknown :: .unknown :: regs.rbp :: .code ra :: stack,
      { regs₂ with rbx := regs.rbx, rbp := .stack (stack.length + 2) }, memory, _⟩ rfl ?_
    refine Leads.movRsp [.unknown, .unknown] (regs.rbp :: .code ra :: stack) rfl rfl rfl ?_
    refine Leads.lines 2 ⟨_, flag₂, stack, { regs₂ with rbx := regs.rbx, rbp := regs.rbp },
      memory, _⟩ rfl ?_
    have hr12 : regs₂.r12 = regs.r12 := hsaved'.r12.trans hsaved.r12
    have hr13 : regs₂.r13 = regs.r13 := hsaved'.r13.trans hsaved.r13
    have hr14 : regs₂.r14 = regs.r14 := hsaved'.r14.trans hsaved.r14
    exact Leads.done ⟨rfl, rfl, ⟨rfl, rfl, hr12, hr13, hr14⟩, rfl, rfl⟩

/-! ## Filter -/

/-- What `f` promises for a list of these numbers. -/
def FilterProcedure (data : Data) (g : ℕ) (pred : BitVec 64 → BitVec 64)
    (numbers : List (BitVec 64)) : Prop :=
  ∀ acc, Procedure (mainAsm data) ((mainAsm data).entry .f)
    (fun env => env.regs.rdx = .code g ∧ ListAt env.memory env.regs.rdi numbers ∧
      ListAt env.memory env.regs.rsi acc)
    (fun env env' =>
      ListAt env'.memory env'.regs.rax
          ((numbers.filter fun number => pred number ≠ 0).reverse ++ acc) ∧
        env.memory <+: env'.memory ∧ env'.world = env.world)

/-- The rest of `f` from `ff` on: both branches come here, with the result so far in `rsi`. -/
theorem f_rest (regs : Regs) {g : ℕ} {pred : BitVec 64 → BitVec 64} {numbers acc : List (BitVec 64)}
    (hf : FilterProcedure data g pred numbers) {flag list next rbx r12 r13 : Word} {ra : ℕ}
    {stack : List Word} {memory : Memory} {world : Stdout.Stream}
    (haligned : stack.length % 2 = 0) (hrbx : regs.rbx = list)
    (hnext : memory.read list 8 = some next) (hr13 : regs.r13 = .code g)
    (hlist : ListAt memory next numbers) (hacc : ListAt memory regs.rsi acc) :
    Leads (mainAsm data) ⟨(mainAsm data).entry .ff, flag, r13 :: r12 :: rbx :: .code ra :: stack,
      regs, memory, world⟩ fun s' => s'.pc = ra ∧ s'.stack = stack ∧
        Saved { regs with rbx := rbx, r12 := r12, r13 := r13 } s'.env.regs ∧
        ListAt s'.env.memory s'.env.regs.rax
          ((numbers.filter fun number => pred number ≠ 0).reverse ++ acc) ∧
        memory <+: s'.env.memory ∧ s'.env.world = world := by
  let saved := r13 :: r12 :: rbx :: .code ra :: stack
  refine Leads.lines 1 ⟨_, flag, saved, regs, memory, world⟩ rfl ?_
  subst hrbx
  refine Leads.load rfl hnext ?_
  refine Leads.lines 1 ⟨_, flag, saved, { regs with rdi := next, rdx := regs.r13 },
    memory, world⟩ rfl ?_
  have haligned₁ : saved.length % 2 = 0 := by
    simp only [saved, List.length_cons]
    omega
  refine Leads.call (hf acc) (target_call rfl) haligned₁ ⟨hr13, hlist, hacc⟩ ?_
  rintro flag₁ ⟨regs₁, memory₁, world₁⟩ hsaved ⟨hresult, hprefix, hworld⟩
  cases hworld
  refine Leads.lines 5 ⟨_, flag₁, stack, { regs₁ with rbx := rbx, r12 := r12, r13 := r13 },
    memory₁, world⟩ rfl ?_
  exact Leads.done ⟨rfl, rfl, ⟨rfl, hsaved.rbp, rfl, rfl, hsaved.r14⟩, hresult, hprefix, rfl⟩

theorem f_procedure {g : ℕ} {pred : BitVec 64 → BitVec 64}
    (hg : ∀ number, Procedure (mainAsm data) g (fun env => env.regs.rdi = .num number)
      (fun env env' => env'.regs.rax = .num (pred number) ∧ env'.memory = env.memory ∧
        env'.world = env.world))
    (numbers : List (BitVec 64)) : FilterProcedure data g pred numbers := by
  induction numbers with
  | nil =>
    rintro acc flag ra stack ⟨regs, memory, world⟩ haligned ⟨-, hlist, hacc⟩
    refine Leads.lines 3 ⟨_, regs.rdi, .code ra :: stack, { regs with rax := regs.rsi }, memory,
      world⟩ rfl ?_
    have hrdi : regs.rdi = .num 0 := hlist
    refine Leads.jz true rfl ?_ ?_
    · rw [hrdi]
      rfl
    refine Leads.lines 2 ⟨_, regs.rdi, stack, { regs with rax := regs.rsi }, memory, world⟩ rfl ?_
    exact Leads.done ⟨rfl, rfl, ⟨rfl, rfl, rfl, rfl, rfl⟩, hacc, List.prefix_refl _, rfl⟩
  | cons val numbers ih =>
    rintro acc flag ra stack ⟨regs, memory, world⟩ haligned ⟨hrdx, ⟨-, next, hnode, htail⟩, hacc⟩
    obtain ⟨hval, hnext⟩ := nodeAt_eq_some_iff.mp hnode
    refine Leads.lines 3 ⟨_, regs.rdi, .code ra :: stack, { regs with rax := regs.rsi }, memory,
      world⟩ rfl ?_
    refine Leads.jz false rfl (isZero_of_nodeAt hnode) ?_
    let saved := regs.r13 :: regs.r12 :: regs.rbx :: .code ra :: stack
    refine Leads.lines 6 ⟨_, regs.rdi, saved,
      { regs with rax := regs.rsi, rbx := regs.rdi, r12 := regs.rsi, r13 := regs.rdx },
      memory, world⟩ rfl ?_
    refine Leads.load rfl hval ?_
    have haligned₁ : saved.length % 2 = 0 := by
      simp only [saved, List.length_cons]
      omega
    refine Leads.call (hg val) (target_callReg rfl hrdx) haligned₁ rfl ?_
    rintro flag₁ ⟨regs₁, memory₁, world₁⟩ hsaved ⟨hrax, hmemory, hworld⟩
    cases hmemory
    cases hworld
    have hrbx : regs₁.rbx = regs.rdi := hsaved.rbx
    have hr12 : regs₁.r12 = regs.rsi := hsaved.r12
    have hr13 : regs₁.r13 = .code g := hsaved.r13.trans hrdx
    refine Leads.lines 1 ⟨_, regs₁.rax, saved, regs₁, memory, world⟩ rfl ?_
    -- An element without the property goes on at `z`, one with it gets a new node first.
    by_cases hpred : pred val = 0
    · refine Leads.jz true rfl ?_ ?_
      · rw [hrax, hpred]
        rfl
      refine Leads.lines 2 ⟨_, regs₁.rax, saved, { regs₁ with rsi := regs₁.r12 }, memory,
        world⟩ rfl ?_
      refine (f_rest { regs₁ with rsi := regs₁.r12 } ih haligned hrbx hnext hr13 htail
        (hr12 ▸ hacc)).mono ?_
      rintro s' ⟨hpc, hstack, hsaved', hresult, hprefix, hworld⟩
      rw [filtered_cons_of_zero hpred]
      exact ⟨hpc, hstack, ⟨hsaved'.rbx, hsaved'.rbp.trans hsaved.rbp, hsaved'.r12, hsaved'.r13,
        hsaved'.r14.trans hsaved.r14⟩, hresult, hprefix, hworld⟩
    · have hzero : regs₁.rax.isZero = some false := by
        rw [hrax]
        exact isZero_num hpred
      refine Leads.jz false rfl hzero ?_
      have hval₁ : memory.read regs₁.rbx 0 = some (.num val) := hrbx ▸ hval
      refine Leads.load rfl hval₁ ?_
      refine Leads.lines 1 ⟨_, regs₁.rax, saved, { regs₁ with rdi := .num val, rsi := regs₁.r12 },
        memory, world⟩ rfl ?_
      refine Leads.call addElement_procedure (target_call rfl) haligned₁ trivial ?_
      rintro flag₂ ⟨regs₂, memory₂, world₂⟩ hsaved₂ ⟨hrax₂, hmemory, hworld⟩
      cases hmemory
      cases hworld
      refine Leads.lines 2 ⟨_, flag₂, saved, { regs₂ with rsi := regs₂.rax }, _, world⟩ rfl ?_
      have hacc₂ : ListAt (memory ++ [[.num val, regs₁.r12]]) regs₂.rax (val :: acc) := by
        rw [hrax₂, hr12]
        exact ListAt.cons hacc val
      refine (f_rest { regs₂ with rsi := regs₂.rax } ih haligned (hsaved₂.rbx.trans hrbx)
        (read_append hnext _) (hsaved₂.r13.trans hr13) (ListAt.append htail _) hacc₂).mono ?_
      rintro s' ⟨hpc, hstack, hsaved', hresult, hprefix, hworld⟩
      rw [filtered_cons_of_ne hpred]
      exact ⟨hpc, hstack, ⟨hsaved'.rbx, (hsaved'.rbp.trans hsaved₂.rbp).trans hsaved.rbp,
        hsaved'.r12, hsaved'.r13, (hsaved'.r14.trans hsaved₂.r14).trans hsaved.r14⟩, hresult,
        (List.prefix_append _ _).trans hprefix, hworld⟩

/-! ## The main program -/

/-- The address that the loop of `main` reads from. -/
theorem toNat_table_offset {k : ℕ} (hk : k < 2 ^ 61) :
    ((-8 : BitVec 64) + BitVec.ofNat 64 (k + 1) * 8).toNat = 8 * k := by
  rw [BitVec.toNat_add, BitVec.toNat_mul, BitVec.toNat_ofNat]
  have h8 : (-8 : BitVec 64).toNat = 2 ^ 64 - 8 := rfl
  have h8' : (8 : BitVec 64).toNat = 8 := rfl
  rw [h8, h8']
  omega

theorem load_data {memory : Memory} (hmemory : memoryAtStart data <+: memory) {k : ℕ}
    (hk : k < data.elements.length) :
    memory.load dataBlock (-8 + BitVec.ofNat 64 (k + 1) * 8) = some (.num data.elements[k]) := by
  obtain ⟨more, rfl⟩ := hmemory
  refine load_append ?_ more
  have hoffset := toNat_table_offset (Nat.lt_trans hk data.length_lt)
  rw [Memory.load, hoffset, if_pos (Nat.mul_mod_right 8 k), Nat.mul_div_cancel_left k (by decide)]
  simp [memoryAtStart, dataBlock, hk]

/-- What holds in the loop of `main` when `k` elements are left: `rbx` is the counter, the other
elements are in the list at `rax`, and the other registers of the caller have not changed. -/
structure Adding (data : Data) (regs₀ : Regs) (k : ℕ) (regs : Regs) (memory : Memory) : Prop where
  saved : Saved regs₀ { regs with rbx := regs₀.rbx }
  rbx : regs.rbx = .num (BitVec.ofNat 64 k)
  array : memoryAtStart data <+: memory
  list : ListAt memory regs.rax (data.elements.drop k)

set_option maxRecDepth 2048 in
/-- One round of the loop, up to `jnz`. -/
theorem addingLoop_round {stack : List Word} (haligned : stack.length % 2 = 0) {regs₀ regs : Regs}
    {memory : Memory} {k : ℕ} (hk : k < data.elements.length)
    (h : Adding data regs₀ (k + 1) regs memory) (flag : Word) (world : Stdout.Stream) :
    Leads (mainAsm data) ⟨(mainAsm data).entry .addingLoop, flag, stack, regs, memory, world⟩
      fun s' => ∃ regs' memory', s' = ⟨(mainAsm data).entry .addingLoop + 5,
        .num (BitVec.ofNat 64 k), stack, regs', memory', world⟩ ∧
        Adding data regs₀ k regs' memory' := by
  refine Leads.lines 1 ⟨_, flag, stack, regs, memory, world⟩ rfl ?_
  refine Leads.loadTable rfl h.rbx (load_data h.array hk) ?_
  refine Leads.lines 1 ⟨_, flag, stack,
    { regs with rdi := .num data.elements[k], rsi := regs.rax }, memory, world⟩ rfl ?_
  refine Leads.call addElement_procedure (target_call rfl) haligned trivial ?_
  rintro flag₁ ⟨regs₁, memory₁, world₁⟩ hsaved₁ ⟨hrax, hmemory₁, hworld⟩
  cases hmemory₁
  cases hworld
  have hdec : regs₁.rbx.map (· - 1) = .num (BitVec.ofNat 64 k) := by
    rw [hsaved₁.rbx.trans h.rbx, Word.map, BitVec.ofNat_add]
    exact congrArg Word.num (BitVec.add_sub_cancel _ _)
  refine Leads.lines 1 ⟨_, regs₁.rbx.map (· - 1), stack,
    { regs₁ with rbx := regs₁.rbx.map (· - 1) },
    memory ++ [[.num data.elements[k], regs.rax]], world⟩ rfl ?_
  rw [hdec]
  refine Leads.done ⟨_, _, rfl, ⟨rfl, ?_, ?_, ?_, ?_⟩, rfl, ?_, ?_⟩
  · exact hsaved₁.rbp.trans h.saved.rbp
  · exact hsaved₁.r12.trans h.saved.r12
  · exact hsaved₁.r13.trans h.saved.r13
  · exact hsaved₁.r14.trans h.saved.r14
  · exact h.array.trans (List.prefix_append _ _)
  · rw [List.drop_eq_getElem_cons hk]
    show ListAt _ regs₁.rax _
    rw [hrax]
    exact ListAt.cons h.list _

set_option maxRecDepth 2048 in
/-- The loop of `main` ends with all elements in the list. -/
theorem addingLoop_leads {stack : List Word} (haligned : stack.length % 2 = 0) {regs₀ : Regs}
    {world : Stdout.Stream} {k : ℕ} (hk : k < data.elements.length) {regs : Regs}
    {memory : Memory} (h : Adding data regs₀ (k + 1) regs memory) (flag : Word) :
    Leads (mainAsm data) ⟨(mainAsm data).entry .addingLoop, flag, stack, regs, memory, world⟩
      fun s' => ∃ regs' memory', s' = ⟨(mainAsm data).entry .addingLoop + 6, .num 0, stack, regs',
        memory', world⟩ ∧ Adding data regs₀ 0 regs' memory' := by
  induction k generalizing flag regs memory with
  | zero =>
    refine (addingLoop_round haligned hk h flag world).trans ?_
    rintro s' ⟨regs', memory', rfl, h'⟩
    refine Leads.jnz true rfl rfl ?_
    exact Leads.done ⟨regs', memory', rfl, h'⟩
  | succ k ih =>
    refine (addingLoop_round haligned hk h flag world).trans ?_
    rintro s' ⟨regs', memory', rfl, h'⟩
    refine Leads.jnz false rfl ?_ ?_
    · refine isZero_num fun hzero => ?_
      have hlt := data.length_lt
      have hnat : (BitVec.ofNat 64 (k + 1)).toNat = 0 := congrArg BitVec.toNat hzero
      rw [BitVec.toNat_ofNat] at hnat
      omega
    · exact ih (Nat.lt_of_succ_lt hk) h' _

set_option maxRecDepth 2048 in
theorem main_procedure :
    Procedure (mainAsm data) ((mainAsm data).entry .main)
      (fun env => env.memory = memoryAtStart data)
      (fun env env' => env'.world = session data.elements env.world) := by
  rintro flag ra stack ⟨regs, memory, world⟩ haligned hmemory
  cases hmemory
  let saved := regs.rbx :: .code ra :: stack
  have haligned₁ : saved.length % 2 = 0 := by
    simp only [saved, List.length_cons]
    omega
  refine Leads.lines 4 ⟨_, .num 0, saved,
    { regs with rax := .num 0, rbx := .num (BitVec.ofNat 64 data.elements.length) },
    memoryAtStart data, world⟩ rfl ?_
  obtain ⟨k, hk⟩ : ∃ k, data.elements.length = k + 1 :=
    Nat.exists_eq_succ_of_ne_zero (List.length_pos_iff.mpr data.nonempty).ne'
  have hstart : Adding data regs (k + 1) { regs with
      rax := .num 0, rbx := .num (BitVec.ofNat 64 data.elements.length) } (memoryAtStart data) := by
    refine ⟨⟨rfl, rfl, rfl, rfl, rfl⟩, ?_, List.prefix_refl _, ?_⟩
    · rw [hk]
    · rw [List.drop_eq_nil_of_le (Nat.le_of_eq hk)]
      exact rfl
  refine (addingLoop_leads haligned₁ (by omega) hstart (.num 0)).trans ?_
  rintro s' ⟨regs₁, memory₁, rfl, h⟩
  have hlist : ListAt memory₁ regs₁.rax data.elements := h.list
  refine Leads.lines 3 ⟨_, .num 0, saved, { regs₁ with
    rbx := regs₁.rax, rdi := regs₁.rax, rsi := .code ((mainAsm data).entry .printInt) },
    memory₁, world⟩ rfl ?_
  refine Leads.call (m_procedure printInt_procedure data.elements) (target_call rfl) haligned₁
    ⟨rfl, hlist⟩ ?_
  rintro flag₂ ⟨regs₂, memory₂, world₂⟩ hsaved₂ ⟨hmemory, hworld⟩
  cases hmemory
  cases hworld
  refine Leads.lines 1 ⟨_, flag₂, saved, { regs₂ with rdi := .string emptyStr }, memory₁, _⟩ rfl ?_
  refine Leads.external rfl haligned₁ (external_puts rfl) ?_
  refine Leads.lines 3 ⟨_, .num 0, saved, { regs₂.clobber .unknown with
    rdx := .code ((mainAsm data).entry .p), rsi := .num 0, rdi := regs₂.rbx },
    memory₁, _⟩ rfl ?_
  have hrbx : regs₂.rbx = regs₁.rax := hsaved₂.rbx
  refine Leads.call (f_procedure p_procedure data.elements []) (target_call rfl) haligned₁
    ⟨rfl, hrbx ▸ hlist, rfl⟩ ?_
  rintro flag₃ ⟨regs₃, memory₃, world₃⟩ hsaved₃ ⟨hodd, -, hworld⟩
  cases hworld
  have hodd' : ListAt memory₃ regs₃.rax (oddNumbers data.elements).reverse := by
    rw [← filter_and_one, ← List.append_nil (List.reverse _)]
    exact hodd
  refine Leads.lines 2 ⟨_, flag₃, saved, { regs₃ with
    rdi := regs₃.rax, rsi := .code ((mainAsm data).entry .printInt) }, memory₃, _⟩ rfl ?_
  refine Leads.call (m_procedure printInt_procedure _) (target_call rfl) haligned₁ ⟨rfl, hodd'⟩ ?_
  rintro flag₄ ⟨regs₄, memory₄, world₄⟩ hsaved₄ ⟨hmemory, hworld⟩
  cases hmemory
  cases hworld
  refine Leads.lines 1 ⟨_, flag₄, saved, { regs₄ with rdi := .string emptyStr }, memory₃, _⟩ rfl ?_
  refine Leads.external rfl haligned₁ (external_puts rfl) ?_
  refine Leads.lines 3 ⟨_, .num 0, stack, { regs₄.clobber (.num 0) with rbx := regs.rbx },
    memory₃, _⟩ rfl ?_
  refine Leads.done ⟨rfl, rfl, ⟨rfl, ?_, ?_, ?_, ?_⟩, rfl⟩
  · exact ((hsaved₄.rbp.trans hsaved₃.rbp).trans hsaved₂.rbp).trans h.saved.rbp
  · exact ((hsaved₄.r12.trans hsaved₃.r12).trans hsaved₂.r12).trans h.saved.r12
  · exact ((hsaved₄.r13.trans hsaved₃.r13).trans hsaved₂.r13).trans h.saved.r13
  · exact ((hsaved₄.r14.trans hsaved₃.r14).trans hsaved₂.r14).trans h.saved.r14

end CDevHws.Hw09
