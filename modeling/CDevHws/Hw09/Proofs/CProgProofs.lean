import CDevHws.Hw09.Proofs.FreeListProofs
import CDevHws.Hw09.Proofs.MainAsmProofs

/-!
# Proofs: the program and the listing print the same text

The program goes through the same session as the listing, and then frees both lists. If there is no
odd element the second one is empty, and `free_list` reads through a null pointer: the process is
ended by a signal, and the newlines are lost unless they have been delivered to a terminal.
-/

namespace CDevHws.Hw09

/-- The node of the heap at a pointer, if it is one of the blocks in `S`. -/
def nodeIn (S : ℕ → Bool) (heap : List Block) (p : Pointer) : Option (BitVec 64 × Pointer) :=
  p.bind fun i =>
    match heap[i]? with
    | some (.node val next) => if S i then some (val, next) else none
    | _ => none

/-- The nodes from `p` on are blocks in `S` and hold these numbers. -/
def ListIn (S : ℕ → Bool) (heap : List Block) (p : Pointer) (numbers : List (BitVec 64)) : Prop :=
  LinkedList.Holds (nodeIn S heap) none p numbers

variable {S : ℕ → Bool} {heap heap' : List Block} {p next : Pointer} {val : BitVec 64}
  {numbers : List (BitVec 64)} {w : World}

theorem nodeIn_eq_some_iff {node : BitVec 64 × Pointer} :
    nodeIn S heap p = some node ↔
      ∃ i, p = some i ∧ S i ∧ heap[i]? = some (.node node.1 node.2) := by
  unfold nodeIn
  constructor
  · intro h
    obtain ⟨i, hp, h⟩ := Option.bind_eq_some_iff.mp h
    split at h
    · rename_i val next hi
      split at h
      · rename_i hS
        cases h
        exact ⟨i, hp, hS, hi⟩
      · cases h
    · cases h
  · rintro ⟨i, rfl, hS, hi⟩
    simp only [Option.bind_some, hi, if_pos hS]

theorem nodeIn_mono (hnode : nodeIn S heap p = some (val, next))
    (hsame : ∀ i, S i → i < heap.length → heap'[i]? = heap[i]?) :
    nodeIn S heap' p = some (val, next) := by
  obtain ⟨i, hp, hS, hi⟩ := nodeIn_eq_some_iff.mp hnode
  refine nodeIn_eq_some_iff.mpr ⟨i, hp, hS, ?_⟩
  rw [hsame i hS (List.getElem?_eq_some_iff.mp hi).1, hi]

/-- A list stays if the blocks in `S` do not change. -/
theorem ListIn.mono (h : ListIn S heap p numbers)
    (hsame : ∀ i, S i → i < heap.length → heap'[i]? = heap[i]?) : ListIn S heap' p numbers := by
  exact LinkedList.Holds.mono h fun q node hq => nodeIn_mono hq hsame

theorem ListIn.append (h : ListIn S heap p numbers) (more : List Block) :
    ListIn S (heap ++ more) p numbers :=
  h.mono fun _ _ hi => List.getElem?_append_left hi

theorem load_run (hnode : nodeIn S w.heap p = some (val, next)) :
    (load p).run w = .ok (val, next) w := by
  obtain ⟨i, rfl, -, hi⟩ := nodeIn_eq_some_iff.mp hnode
  exact load_node hi

theorem addElement_run (val : BitVec 64) (head : Pointer) (w : World) :
    (addElement val head).run w =
      .ok (some w.heap.length) { w with heap := w.heap ++ [.node val head] } := by
  have hmalloc : malloc.run w =
      .ok (some w.heap.length) { w with heap := w.heap ++ [.uninitialised] } := rfl
  have hstore : (store (some w.heap.length) val head).run
      { w with heap := w.heap ++ [.uninitialised] } =
      .ok () { w with heap := w.heap ++ [.node val head] } := by
    simp [store, EStateM.run]
  rw [addElement, bind_ok hmalloc, if_neg (Option.some_ne_none _), bind_ok hstore]
  rfl

/-- A node that `add_element` has made. -/
theorem ListIn.cons (h : ListIn S heap next numbers) (hS : S heap.length) (val : BitVec 64) :
    ListIn S (heap ++ [.node val next]) (some heap.length) (val :: numbers) := by
  refine LinkedList.Holds.cons (by simp) ?_ (h.append [.node val next])
  exact nodeIn_eq_some_iff.mpr ⟨heap.length, rfl, hS, List.getElem?_concat_length ..⟩

/-- One call of `f`, for an element without the property. -/
theorem f_skip {function : BitVec 64 → C (BitVec 64)}
    (hfunction : (function val).run w = .ok 0 w) (hp : p ≠ none)
    (hnode : nodeIn S w.heap p = some (val, next)) (fuel result : ℕ) :
    (f (fuel + 1) p result function).run w = (f fuel next result function).run w := by
  rw [f, if_neg hp, bind_ok (load_run hnode), bind_ok hfunction]
  simp only [ne_eq, not_true_eq_false, if_false]
  rw [bind_ok (load_run hnode)]

/-- One call of `f`, for an element with the property. -/
theorem f_keep {function : BitVec 64 → C (BitVec 64)} {r : BitVec 64}
    (hfunction : (function val).run w = .ok r w) (hr : r ≠ 0) (hp : p ≠ none)
    (hnode : nodeIn S w.heap p = some (val, next)) (fuel result : ℕ) :
    (f (fuel + 1) p result function).run w = (f fuel next result function).run
      { w with heap := w.heap ++ [.node val (w.locals result)]
               locals := Function.update w.locals result (some w.heap.length) } := by
  have hnode' : nodeIn S (w.heap ++ [.node val (w.locals result)]) p = some (val, next) :=
    nodeIn_mono hnode fun _ _ hi => List.getElem?_append_left hi
  have hread : (readVariable result).run w = .ok (w.locals result) w := rfl
  have hwrite : (writeVariable result (some w.heap.length)).run
      { w with heap := w.heap ++ [.node val (w.locals result)] } = .ok () _ := rfl
  rw [f, if_neg hp, bind_ok (load_run hnode), bind_ok hfunction]
  simp only [if_pos hr]
  rw [bind_ok (load_run hnode), bind_ok hread, bind_ok (addElement_run ..), bind_ok hwrite,
    bind_ok (load_run hnode')]

theorem m_run {function : BitVec 64 → C Unit} {work : Stdout.Stream → BitVec 64 → Stdout.Stream}
    (hfunction : ∀ number w,
      (function number).run w = .ok () { w with stdout := work w.stdout number })
    {fuel : ℕ} (hlist : ListIn S w.heap p numbers) (hfuel : numbers.length < fuel) :
    (m fuel p function).run w =
      .ok () { w with stdout := numbers.foldl work w.stdout } := by
  induction numbers generalizing fuel p w with
  | nil =>
    obtain ⟨fuel, rfl⟩ := Nat.exists_eq_succ_of_ne_zero (Nat.ne_zero_of_lt hfuel)
    have hp : p = none := hlist
    rw [m, if_pos hp]
    rfl
  | cons val numbers ih =>
    obtain ⟨fuel, rfl⟩ := Nat.exists_eq_succ_of_ne_zero (Nat.ne_zero_of_lt hfuel)
    obtain ⟨hp, next, hnode, htail⟩ := hlist
    have hload : (load p).run { w with stdout := work w.stdout val } = .ok (val, next) _ :=
      load_run hnode
    rw [m, if_neg hp, bind_ok (load_run hnode), bind_ok (hfunction val w), bind_ok hload]
    exact ih htail (Nat.lt_of_succ_lt_succ hfuel)

/-- The list at `*result` gets the elements with the property in front, the last one first. -/
theorem f_run {function : BitVec 64 → C (BitVec 64)} {pred : BitVec 64 → BitVec 64}
    (hfunction : ∀ number w, (function number).run w = .ok (pred number) w) {S' : ℕ → Bool}
    {fuel result : ℕ} {acc : List (BitVec 64)} (hlist : ListIn S w.heap p numbers)
    (hacc : ListIn S' w.heap (w.locals result) acc) (hnew : ∀ i, w.heap.length ≤ i → S' i)
    (hfuel : numbers.length < fuel) :
    ∃ w', (f fuel p result function).run w = .ok () w' ∧ w.heap <+: w'.heap ∧
      w'.stdout = w.stdout ∧ ListIn S' w'.heap (w'.locals result)
        ((numbers.filter fun number => pred number ≠ 0).reverse ++ acc) := by
  induction numbers generalizing fuel p w acc with
  | nil =>
    obtain ⟨fuel, rfl⟩ := Nat.exists_eq_succ_of_ne_zero (Nat.ne_zero_of_lt hfuel)
    have hp : p = none := hlist
    refine ⟨w, ?_, List.prefix_refl _, rfl, hacc⟩
    rw [f, if_pos hp]
    rfl
  | cons val numbers ih =>
    obtain ⟨fuel, rfl⟩ := Nat.exists_eq_succ_of_ne_zero (Nat.ne_zero_of_lt hfuel)
    obtain ⟨hp, next, hnode, htail⟩ := hlist
    have hfuel' : numbers.length < fuel := Nat.lt_of_succ_lt_succ hfuel
    by_cases hpred : pred val = 0
    · have hzero : (function val).run w = .ok 0 w := by rw [hfunction, hpred]
      rw [filtered_cons_of_zero hpred, f_skip hzero hp hnode]
      exact ih htail hacc hnew hfuel'
    · let w₁ : World := { w with
        heap := w.heap ++ [.node val (w.locals result)]
        locals := Function.update w.locals result (some w.heap.length) }
      have hacc₁ : ListIn S' w₁.heap (w₁.locals result) (val :: acc) := by
        rw [show w₁.locals result = some w.heap.length from Function.update_self ..]
        exact hacc.cons (hnew _ (Nat.le_refl _)) val
      have hnew₁ : ∀ i, w₁.heap.length ≤ i → S' i := by
        intro i hi
        refine hnew i (Nat.le_trans ?_ hi)
        rw [List.length_append]
        exact Nat.le_add_right _ _
      obtain ⟨w', hrun, hprefix, hstdout, hresult⟩ :=
        ih (w := w₁) (ListIn.append htail _) hacc₁ hnew₁ hfuel'
      refine ⟨w', ?_, (List.prefix_append _ _).trans hprefix, hstdout, ?_⟩
      · rw [f_keep (hfunction val w) hpred hp hnode]
        exact hrun
      rw [filtered_cons_of_ne hpred]
      exact hresult

/-- The addresses of the nodes. -/
theorem ListIn.exists_nodes (hlist : ListIn S heap p numbers) :
    ∃ nodes, LinkedList.Holds (addressAt heap) none p nodes ∧ nodes.length = numbers.length ∧
      ∀ i ∈ nodes, S i := by
  induction numbers generalizing p with
  | nil => exact ⟨[], hlist, rfl, fun i hi => absurd hi List.not_mem_nil⟩
  | cons val numbers ih =>
    obtain ⟨hp, next, hnode, htail⟩ := hlist
    obtain ⟨i, rfl, hS, hi⟩ := nodeIn_eq_some_iff.mp hnode
    obtain ⟨nodes, hnodes, hlength, hin⟩ := ih htail
    refine ⟨i :: nodes, ?_, congrArg Nat.succ hlength, List.forall_mem_cons.mpr ⟨hS, hin⟩⟩
    exact LinkedList.Holds.cons hp (addressAt_eq_some_iff.mpr ⟨rfl, val, hi⟩) hnodes

theorem freeList_run {fuel : ℕ} (hlist : ListIn S w.heap p numbers) (hne : numbers ≠ [])
    (hfuel : numbers.length < fuel) :
    ∃ w', (freeList fuel p).run w = .ok () w' ∧ w'.stdout = w.stdout ∧ w'.locals = w.locals ∧
      ∀ i, S i = false → w'.heap[i]? = w.heap[i]? := by
  obtain ⟨nodes, hnodes, hlength, hin⟩ := hlist.exists_nodes
  have hnodes_ne : nodes ≠ [] := by
    rintro rfl
    exact hne (List.length_eq_zero_iff.mp hlength.symm)
  rw [← hlength] at hfuel
  obtain ⟨w', hrun, hstdout, hlocals, hheap⟩ := freeList_heap hnodes hnodes_ne hfuel
  refine ⟨w', hrun, hstdout, hlocals, ?_⟩
  intro i hi
  rw [hheap i]
  refine if_neg fun hmem => ?_
  rw [hin i (List.dropLast_subset nodes hmem)] at hi
  cases hi

theorem addAll_run (data : List (BitVec 64)) {k : ℕ} (hk : k ≤ data.length)
    (hS : ∀ i, S i) (hlist : ListIn S w.heap p (data.drop k)) :
    ∃ head w', (addAll data k p).run w = .ok head w' ∧ ListIn S w'.heap head data ∧
      w'.stdout = w.stdout ∧ w'.locals = w.locals := by
  induction k generalizing p w with
  | zero => exact ⟨p, w, rfl, hlist, rfl, rfl⟩
  | succ k ih =>
    have hget : data[k]? = some data[k] := List.getElem?_eq_getElem hk
    have hlist₁ : ListIn S (w.heap ++ [.node data[k] p]) (some w.heap.length) (data.drop k) := by
      rw [List.drop_eq_getElem_cons hk]
      exact hlist.cons (hS _) data[k]
    obtain ⟨head, w', hrun, hdata, hstdout, hlocals⟩ :=
      ih (w := { w with heap := w.heap ++ [.node data[k] p] }) (Nat.le_of_succ_le hk) hlist₁
    refine ⟨head, w', ?_, hdata, hstdout, hlocals⟩
    rw [addAll]
    simp only [hget]
    rw [bind_ok (addElement_run ..), hrun]

/-- The blocks of a list are below the length of the heap. -/
theorem ListIn.below (h : ListIn S heap p numbers) :
    ListIn (fun i => i < heap.length) heap p numbers := by
  refine LinkedList.Holds.mono h fun q node hq => ?_
  obtain ⟨i, hp, -, hi⟩ := nodeIn_eq_some_iff.mp hq
  exact nodeIn_eq_some_iff.mpr ⟨i, hp, decide_eq_true (List.getElem?_eq_some_iff.mp hi).1, hi⟩

theorem printInt_run (number : BitVec 64) (w : World) :
    (printInt number).run w = .ok () { w with stdout := printed w.stdout number } := rfl

theorem p_run (number : BitVec 64) (w : World) :
    (Hw09.p number).run w = .ok (number &&& 1) w := rfl

theorem length_oddNumbers_reverse_lt {data : Data} {fuel : ℕ}
    (hfuel : data.elements.length < fuel) :
    (oddNumbers data.elements).reverse.length < fuel := by
  rw [List.length_reverse]
  exact Nat.lt_of_le_of_lt (List.length_filter_le ..) hfuel

/-- Before it frees the lists, `main` has gone through the session, and the two lists have no block
in common. -/
theorem main_before_free {fuel : ℕ} (data : Data) (s : Stdout.Stream)
    (hfuel : data.elements.length < fuel) :
    ∃ numbersList n w, w.stdout = session data.elements s ∧
      ListIn (fun i => i < n) w.heap numbersList data.elements ∧
      ListIn (fun i => n ≤ i) w.heap (w.locals list2) (oddNumbers data.elements).reverse ∧
      (main fuel data).run ⟨[], fun _ => none, s⟩ = (do
        freeList fuel numbersList
        freeList fuel (← readVariable list2) : C Unit).run w := by
  let w₀ : World := ⟨[], Function.update (fun _ => none) list2 none, s⟩
  have hstart : (writeVariable list2 none).run ⟨[], fun _ => none, s⟩ = .ok () w₀ := rfl
  have hnil : ListIn (fun _ => true) w₀.heap none (data.elements.drop data.elements.length) := by
    rw [List.drop_length]
    exact rfl
  obtain ⟨numbersList, w₁, hadd, hlist, hstdout₁, hlocals₁⟩ :=
    addAll_run data.elements (Nat.le_refl _) (fun _ => rfl) hnil
  replace hlist := hlist.below
  let w₂ : World := { w₁ with
    stdout := (data.elements.foldl printed w₁.stdout).puts emptyStr }
  have hacc : ListIn (fun i => w₁.heap.length ≤ i) w₂.heap (w₂.locals list2) [] := by
    show w₁.locals list2 = none
    rw [hlocals₁]
    rfl
  obtain ⟨w₃, hf, ⟨more, hheap₃⟩, hstdout₃, hodd⟩ :=
    f_run (w := w₂) p_run hlist hacc (fun i hi => decide_eq_true hi) hfuel
  rw [List.append_nil, filter_and_one] at hodd
  let w₄ : World := { w₃ with
    stdout := ((oddNumbers data.elements).reverse.foldl printed w₃.stdout).puts emptyStr }
  refine ⟨numbersList, w₁.heap.length, w₄, ?_, ?_, hodd, ?_⟩
  · simp only [w₄, hstdout₃, w₂, hstdout₁]
    rfl
  · show ListIn _ w₃.heap _ _
    rw [← hheap₃]
    exact hlist.append more
  · rw [main, bind_ok hstart, bind_ok hadd, bind_ok (m_run printInt_run hlist hfuel),
      bind_ok (rfl : (output (.puts emptyStr)).run _ = .ok () w₂), bind_ok hf,
      bind_ok (rfl : (readVariable list2).run w₃ = .ok (w₃.locals list2) w₃),
      bind_ok (m_run printInt_run hodd (length_oddNumbers_reverse_lt hfuel)),
      bind_ok (rfl : (output (.puts emptyStr)).run _ = .ok () w₄)]

theorem main_run {fuel : ℕ} (data : Data) (s : Stdout.Stream)
    (hfuel : data.elements.length < fuel) :
    ∃ w', w'.stdout = session data.elements s ∧
      (main fuel data).run ⟨[], fun _ => none, s⟩ =
        if oddNumbers data.elements = [] then .error .fault w' else .ok () w' := by
  obtain ⟨numbersList, n, w, hsession, hlist, hodd, hmain⟩ := main_before_free data s hfuel
  obtain ⟨w₁, hfree, hstdout₁, hlocals₁, hheap₁⟩ := freeList_run hlist data.nonempty hfuel
  have hodd₁ : ListIn (fun i => n ≤ i) w₁.heap (w₁.locals list2)
      (oddNumbers data.elements).reverse := by
    rw [hlocals₁]
    refine hodd.mono fun i hi _ => hheap₁ i ?_
    simpa using hi
  have hrun : (main fuel data).run ⟨[], fun _ => none, s⟩ =
      (freeList fuel (w₁.locals list2)).run w₁ := by
    rw [hmain, bind_ok hfree,
      bind_ok (rfl : (readVariable list2).run w₁ = .ok (w₁.locals list2) w₁)]
  rw [← hstdout₁] at hsession
  by_cases hempty : oddNumbers data.elements = []
  · rw [hempty] at hodd₁
    have hnull : w₁.locals list2 = none := hodd₁
    refine ⟨w₁, hsession, ?_⟩
    rw [hrun, if_pos hempty, hnull]
    exact freeList_null (Nat.zero_lt_of_lt hfuel) w₁
  · have hne : (oddNumbers data.elements).reverse ≠ [] :=
      fun h => hempty (List.reverse_eq_nil_iff.mp h)
    obtain ⟨w₂, hfree', hstdout₂, -⟩ :=
      freeList_run hodd₁ hne (length_oddNumbers_reverse_lt hfuel)
    refine ⟨w₂, hstdout₂.trans hsession, ?_⟩
    rw [hrun, if_neg hempty, hfree']

/-- The odd elements decide how the process ends. -/
theorem process_eq {fuel : ℕ} (data : Data) (buffering : Stdout.Buffering)
    (hfuel : data.elements.length < fuel) :
    process fuel data buffering =
      some (if oddNumbers data.elements = [] then (session data.elements (.start buffering)).killed
        else (session data.elements (.start buffering)).exit) := by
  obtain ⟨w', hsession, hrun⟩ := main_run data (.start buffering) hfuel
  rw [process, hrun, ← hsession]
  by_cases h : oddNumbers data.elements = []
  · simp only [if_pos h]
  · simp only [if_neg h]

/-! ## The text -/

/-- Called with an aligned stack, `main` of the listing returns, and every procedure that is called,
at every depth, returns with the stack and the registers of its caller restored. After the exit,
`text` has been printed. -/
def AsmPrints (data : Data) (buffering : Stdout.Buffering) (text : List Char) : Prop :=
  ∀ flag ra stack regs, stack.length % 2 = 0 →
    let start : X86.State Stdout.Stream := ⟨(mainAsm data).entry .main, flag, .code ra :: stack,
      regs, memoryAtStart data, .start buffering⟩
    ∃ s', Relation.ReflTransGen (fun s s' => (mainAsm data).step s = some s') start s' ∧
      X86.Run (mainAsm data) start s' ∧ s'.pc = ra ∧ s'.stack = stack ∧
      X86.Saved regs s'.env.regs ∧ s'.env.world.exit = text

/-- With enough fuel, the process has printed `text` at its end. -/
def CPrints (data : Data) (buffering : Stdout.Buffering) (text : List Char) : Prop :=
  ∃ bound, ∀ fuel, bound ≤ fuel → process fuel data buffering = some text

theorem asmPrints (data : Data) (buffering : Stdout.Buffering) :
    AsmPrints data buffering (text data.elements) := by
  intro flag ra stack regs haligned start
  obtain ⟨s', hrun, hpc, hstack, hsaved, hworld⟩ :=
    main_procedure flag ra stack ⟨regs, memoryAtStart data, .start buffering⟩ haligned rfl
  refine ⟨s', hrun.steps, hrun, hpc, hstack, hsaved, ?_⟩
  rw [hworld]
  exact session_exit data.elements buffering

theorem cPrints_iff (data : Data) (buffering : Stdout.Buffering) (text : List Char) :
    CPrints data buffering text ↔
      (if oddNumbers data.elements = [] then (session data.elements (.start buffering)).killed
        else (session data.elements (.start buffering)).exit) = text := by
  constructor
  · rintro ⟨bound, hprocess⟩
    have h := hprocess (max bound (data.elements.length + 1)) (Nat.le_max_left ..)
    rw [process_eq data buffering (Nat.le_max_right ..)] at h
    exact Option.some.inj h
  · intro h
    refine ⟨data.elements.length + 1, fun fuel hfuel => ?_⟩
    rw [process_eq data buffering hfuel, h]

/-- The program and the listing print all elements in order and the odd ones in reverse order if and
only if the standard output is a terminal or there is an odd element. -/
theorem c_prog_refines_iff (data : Data) (buffering : Stdout.Buffering) :
    AsmPrints data buffering (text data.elements) ∧ CPrints data buffering (text data.elements) ↔
      buffering = .line ∨ ∃ number ∈ data.elements, number.toInt % 2 = 1 := by
  have hodd : oddNumbers data.elements = [] ↔
      ¬ ∃ number ∈ data.elements, number.toInt % 2 = 1 := by
    simp [oddNumbers, List.filter_eq_nil_iff]
  rw [and_iff_right (asmPrints data buffering), cPrints_iff]
  by_cases h : oddNumbers data.elements = []
  · rw [if_pos h, session_killed_iff, or_iff_left (hodd.mp h)]
  · rw [if_neg h, session_exit]
    exact iff_of_true rfl (Or.inr (Decidable.not_not.mp (mt hodd.mpr h)))

/-- An array without odd elements. -/
def onlyFour : Data := ⟨[4], List.cons_ne_nil _ _, Nat.one_lt_two_pow (Nat.succ_ne_zero 60)⟩

/-- If the standard output of the program is redirected, the newlines are lost. -/
theorem c_prog_loses_newlines :
    ¬ (AsmPrints onlyFour .full (text onlyFour.elements) ∧
      CPrints onlyFour .full (text onlyFour.elements)) := by
  rintro ⟨-, hprints⟩
  have hnone : oddNumbers onlyFour.elements = [] := by decide
  rw [cPrints_iff, if_pos hnone, session_killed_iff] at hprints
  cases hprints

end CDevHws.Hw09
