import CDevHws.Hw09.CProg
import CDevHws.Lib.LinkedList
import Mathlib.Tactic.ByContra

/-!
# Proofs: what `free_list` frees

The loop looks at the successor of a node before it frees the node, so it ends at the last node and
leaves it allocated. For the empty list it looks at the successor of no node.
-/

namespace CDevHws.Hw09

/-! ## The accesses -/

section

variable {α β : Type} {x : C α} {k : α → C β} {w w' : World} {a : α} {e : Stop}

theorem bind_ok (h : x.run w = .ok a w') : (x >>= k).run w = (k a).run w' := by
  show EStateM.bind x k w = k a w'
  rw [EStateM.bind, show x w = _ from h]

theorem bind_error (h : x.run w = .error e w') : (x >>= k).run w = .error e w' := by
  show EStateM.bind x k w = _
  rw [EStateM.bind, show x w = _ from h]

end

section

variable {list : Pointer} {node : BitVec 64 × Pointer} {access : Access} {accesses : List Access}
  {w w' : World} {e : Stop}

theorem load_node {i : ℕ} {val : BitVec 64} {next : Pointer}
    (hi : w.heap[i]? = some (.node val next)) : (load (some i)).run w = .ok (val, next) w := by
  simp only [load, EStateM.run, Option.bind_some, hi]

theorem free_node {i : ℕ} {val : BitVec 64} {next : Pointer}
    (hi : w.heap[i]? = some (.node val next)) :
    (free (some i)).run w = .ok () { w with heap := w.heap.set i .freed } := by
  simp only [free, EStateM.run, Option.bind_some, hi]

theorem load_world (h : (load list).run w = .ok node w') : w = w' := by
  simp only [load, EStateM.run] at h
  split at h
  · cases h
    rfl
  · cases h

theorem deref_run (h : (load list).run w = .ok node w') :
    (Access.deref list).perform.run w = .ok () w' := by
  rw [Access.perform, bind_ok h]
  rfl

theorem deref_run_error (h : (load list).run w = .error e w') :
    (Access.deref list).perform.run w = .error e w' := bind_error h

theorem forM_cons_ok (h : access.perform.run w = .ok () w') :
    ((access :: accesses).forM Access.perform).run w = (accesses.forM Access.perform).run w' :=
  bind_ok h

theorem forM_cons_error (h : access.perform.run w = .error e w') :
    ((access :: accesses).forM Access.perform).run w = .error e w' := bind_error h

end

/-- With enough fuel, the function does nothing but its accesses. -/
theorem freeList_eq_perform {fuel : ℕ} {list : Pointer} {w : World}
    (hfuel : (freeListAccesses fuel list w).length < 3 * fuel) :
    (freeList fuel list).run w = ((freeListAccesses fuel list w).forM Access.perform).run w := by
  induction fuel generalizing list w with
  | zero => exact absurd hfuel (Nat.not_lt_zero _)
  | succ fuel ih =>
    rw [freeListAccesses] at hfuel ⊢
    rw [freeList]
    cases hload : (load list).run w with
    | error e w₁ => rw [bind_error hload, forM_cons_error (deref_run_error hload)]
    | ok node w₁ =>
      obtain ⟨val, next⟩ := node
      have hworld : w = w₁ := load_world hload
      subst hworld
      rw [bind_ok hload]
      simp only [hload] at hfuel
      cases next with
      | none =>
        rw [forM_cons_ok (deref_run hload)]
        rfl
      | some next =>
        simp only [if_neg (Option.some_ne_none next)]
        cases hfree : (free list).run w with
        | error e w₂ =>
          have hperform : (Access.free list).perform.run w = .error e w₂ := hfree
          rw [bind_error hfree]
          rw [forM_cons_ok (deref_run hload), forM_cons_ok (deref_run hload),
            forM_cons_error hperform]
        | ok _ w₂ =>
          have hperform : (Access.free list).perform.run w = .ok () w₂ := hfree
          simp only [hfree, List.length_cons] at hfuel
          rw [bind_ok hfree, forM_cons_ok (deref_run hload), forM_cons_ok (deref_run hload),
            forM_cons_ok hperform]
          exact ih (by omega)

/-! ## The nodes of a list -/

/-- The address and the successor of the node at a pointer. -/
def addressAt (heap : List Block) (p : Pointer) : Option (ℕ × Pointer) :=
  p.bind fun i =>
    match heap[i]? with
    | some (.node _ next) => some (i, next)
    | _ => none

theorem addressAt_eq_some_iff {heap : List Block} {p next : Pointer} {i : ℕ} :
    addressAt heap p = some (i, next) ↔
      p = some i ∧ ∃ val, heap[i]? = some (.node val next) := by
  unfold addressAt
  constructor
  · intro h
    obtain ⟨j, hp, h⟩ := Option.bind_eq_some_iff.mp h
    split at h
    · rename_i val next' hj
      cases h
      exact ⟨hp, val, hj⟩
    · cases h
  · rintro ⟨rfl, val, hi⟩
    simp only [Option.bind_some, hi]

theorem addressAt_set_freed {heap : List Block} {q : Pointer} {i : ℕ} (hne : q ≠ some i) :
    addressAt (heap.set i .freed) q = addressAt heap q := by
  cases q with
  | none => rfl
  | some j =>
    have hij : i ≠ j := fun h => hne (congrArg some h.symm)
    simp only [addressAt, Option.bind_some, List.getElem?_set_ne hij]

/-- A linked list: the pointer to it and the addresses of its nodes. -/
structure NodeList where
  world : World
  head : Pointer
  nodes : List ℕ
  holds : LinkedList.Holds (addressAt world.heap) none head nodes

/-- A list does not come back to one of its nodes. -/
theorem NodeList.nodup (list : NodeList) : list.nodes.Nodup :=
  list.holds.nodup fun _ _ _ h => (addressAt_eq_some_iff.mp h).1

/-- The accesses of `free_list`. -/
def NodeList.accesses (list : NodeList) (fuel : ℕ) : List Access :=
  freeListAccesses fuel list.head list.world

/-- The accesses of `free_list` to a list with these nodes. -/
def accessesOf : List ℕ → List Access
  | [] => [.deref none]
  | [i] => [.deref (some i)]
  | i :: j :: rest =>
    .deref (some i) :: .deref (some i) :: .free (some i) :: accessesOf (j :: rest)

theorem freeListAccesses_eq {w : World} {p : Pointer} {nodes : List ℕ} {fuel : ℕ}
    (hlist : LinkedList.Holds (addressAt w.heap) none p nodes) (hfuel : nodes.length < fuel) :
    freeListAccesses fuel p w = accessesOf nodes := by
  induction nodes generalizing fuel p w with
  | nil =>
    obtain ⟨fuel, rfl⟩ := Nat.exists_eq_succ_of_ne_zero (Nat.ne_zero_of_lt hfuel)
    have hp : p = none := hlist
    rw [hp]
    rfl
  | cons i nodes ih =>
    obtain ⟨fuel, rfl⟩ := Nat.exists_eq_succ_of_ne_zero (Nat.ne_zero_of_lt hfuel)
    have hwhole := hlist
    obtain ⟨hp, next, hnode, htail⟩ := hlist
    obtain ⟨rfl, val, hi⟩ := addressAt_eq_some_iff.mp hnode
    rw [freeListAccesses]
    simp only [load_node hi]
    cases nodes with
    | nil =>
      have hnext : next = none := htail
      rw [hnext]
      rfl
    | cons j rest =>
      obtain ⟨k, rfl⟩ := Option.ne_none_iff_exists'.mp htail.1
      have hrest : LinkedList.Holds (addressAt (w.heap.set i .freed)) none (some k) (j :: rest) :=
        htail.of_change hwhole (fun _ hne => addressAt_set_freed hne) (Nat.lt_succ_self _)
      simp only [free_node hi, accessesOf]
      rw [ih hrest (Nat.lt_of_succ_lt_succ hfuel)]

theorem length_accessesOf_le (nodes : List ℕ) :
    (accessesOf nodes).length ≤ 3 * nodes.length + 1 := by
  fun_induction accessesOf nodes with
  | case1 => exact Nat.le_refl _
  | case2 i => exact Nat.le_add_left _ _
  | case3 i j rest ih =>
    simp only [List.length_cons] at ih ⊢
    omega

/-- With enough fuel, the function does nothing but these accesses. -/
theorem freeList_eq_accessesOf {w : World} {p : Pointer} {nodes : List ℕ} {fuel : ℕ}
    (hlist : LinkedList.Holds (addressAt w.heap) none p nodes) (hfuel : nodes.length < fuel) :
    (freeList fuel p).run w = ((accessesOf nodes).forM Access.perform).run w := by
  have haccesses : freeListAccesses fuel p w = accessesOf nodes := freeListAccesses_eq hlist hfuel
  have hlength := length_accessesOf_le nodes
  rw [freeList_eq_perform, haccesses]
  rw [haccesses]
  omega

/-- `free_list` reads through a null pointer if the list is empty. -/
theorem freeList_null {fuel : ℕ} (hfuel : 0 < fuel) (w : World) :
    (freeList fuel none).run w = .error .fault w := by
  have hlist : LinkedList.Holds (addressAt w.heap) none none [] := rfl
  rw [freeList_eq_accessesOf hlist hfuel]
  rfl

theorem perform_accessesOf {w : World} {p : Pointer} {nodes : List ℕ}
    (hlist : LinkedList.Holds (addressAt w.heap) none p nodes) (hne : nodes ≠ []) :
    ∃ w', ((accessesOf nodes).forM Access.perform).run w = .ok () w' ∧
      w'.stdout = w.stdout ∧ w'.locals = w.locals ∧
      ∀ i, w'.heap[i]? = if i ∈ nodes.dropLast then some .freed else w.heap[i]? := by
  fun_induction accessesOf nodes generalizing p w with
  | case1 => exact absurd rfl hne
  | case2 i =>
    obtain ⟨hp, next, hnode, -⟩ := hlist
    obtain ⟨rfl, val, hi⟩ := addressAt_eq_some_iff.mp hnode
    refine ⟨w, ?_, rfl, rfl, fun k => (if_neg List.not_mem_nil).symm⟩
    rw [forM_cons_ok (deref_run (load_node hi))]
    rfl
  | case3 i j rest ih =>
    have hwhole := hlist
    obtain ⟨hp, next, hnode, htail⟩ := hlist
    obtain ⟨rfl, val, hi⟩ := addressAt_eq_some_iff.mp hnode
    have hderef := deref_run (load_node hi)
    have hfree : (Access.free (some i)).perform.run w =
        .ok () { w with heap := w.heap.set i .freed } := free_node hi
    have hrest : LinkedList.Holds (addressAt (w.heap.set i .freed)) none next (j :: rest) :=
      htail.of_change hwhole (fun _ hne => addressAt_set_freed hne) (Nat.lt_succ_self _)
    obtain ⟨w', hrun, hstdout, hlocals, hheap⟩ :=
      ih (w := { w with heap := w.heap.set i .freed }) hrest (List.cons_ne_nil j rest)
    refine ⟨w', ?_, hstdout, hlocals, ?_⟩
    · rw [forM_cons_ok hderef, forM_cons_ok hderef, forM_cons_ok hfree, hrun]
    intro k
    rw [hheap k, List.dropLast_cons_cons]
    by_cases hk : k ∈ (j :: rest).dropLast
    · rw [if_pos hk, if_pos (List.mem_cons_of_mem i hk)]
    rw [if_neg hk]
    by_cases hki : k = i
    · have hlt : i < w.heap.length := (List.getElem?_eq_some_iff.mp hi).1
      rw [hki, if_pos List.mem_cons_self]
      exact List.getElem?_set_self hlt
    · have hmem : k ∉ i :: (j :: rest).dropLast := by
        rintro (⟨⟩ | ⟨_, h⟩)
        · exact hki rfl
        · exact hk h
      rw [if_neg hmem]
      exact List.getElem?_set_ne (Ne.symm hki)

/-- All nodes but the last one are freed, and nothing else changes. -/
theorem freeList_heap {w : World} {p : Pointer} {nodes : List ℕ} {fuel : ℕ}
    (hlist : LinkedList.Holds (addressAt w.heap) none p nodes) (hne : nodes ≠ [])
    (hfuel : nodes.length < fuel) :
    ∃ w', (freeList fuel p).run w = .ok () w' ∧ w'.stdout = w.stdout ∧ w'.locals = w.locals ∧
      ∀ i, w'.heap[i]? = if i ∈ nodes.dropLast then some .freed else w.heap[i]? := by
  rw [freeList_eq_accessesOf hlist hfuel]
  exact perform_accessesOf hlist hne

/-! ## What is read and what is freed -/

/-- Only nodes of the list are read, and none after it has been freed. -/
structure DereferencesLive (nodes : List ℕ) (accesses : List Access) : Prop where
  node : ∀ p, .deref p ∈ accesses → ∃ i ∈ nodes, p = some i
  live : accesses.Pairwise fun a b => ∀ p, a = .free p → b ≠ .deref p

/-- Every node is freed exactly once, and no other block is freed. -/
def FreesOnce (nodes : List ℕ) (accesses : List Access) : Prop :=
  ∀ i, accesses.count (.free (some i)) = if i ∈ nodes then 1 else 0

/-- `free_list` releases exactly the list. -/
def ReleasesExactly (list : NodeList) (fuel : ℕ) : Prop :=
  DereferencesLive list.nodes (list.accesses fuel) ∧ FreesOnce list.nodes (list.accesses fuel)

theorem count_free_accessesOf (nodes : List ℕ) (i : ℕ) :
    (accessesOf nodes).count (.free (some i)) = nodes.dropLast.count i := by
  fun_induction accessesOf nodes with
  | case1 => rfl
  | case2 j => rfl
  | case3 j k rest ih =>
    rw [List.dropLast_cons_cons, List.count_cons, List.count_cons, List.count_cons, ih,
      List.count_cons]
    simp

theorem mem_of_deref {nodes : List ℕ} {p : Pointer} (hne : nodes ≠ [])
    (hp : .deref p ∈ accessesOf nodes) : ∃ i ∈ nodes, p = some i := by
  fun_induction accessesOf nodes with
  | case1 => exact absurd rfl hne
  | case2 i =>
    cases List.mem_singleton.mp hp
    exact ⟨i, List.mem_singleton_self i, rfl⟩
  | case3 i j rest ih =>
    have hcases : p = some i ∨ .deref p ∈ accessesOf (j :: rest) := by simpa using hp
    rcases hcases with hpi | hrest
    · exact ⟨i, List.mem_cons_self, hpi⟩
    · obtain ⟨k, hk, hpk⟩ := ih (List.cons_ne_nil j rest) hrest
      exact ⟨k, List.mem_cons_of_mem i hk, hpk⟩

/-- The order of the accesses is right, and so are their addresses unless the list is empty. -/
theorem dereferencesLive_iff {nodes : List ℕ} (hnodup : nodes.Nodup) :
    DereferencesLive nodes (accessesOf nodes) ↔ nodes ≠ [] := by
  constructor
  · rintro ⟨hnode, -⟩ rfl
    obtain ⟨i, hi, -⟩ := hnode none (List.mem_singleton_self _)
    exact List.not_mem_nil hi
  intro hne
  refine ⟨fun p => mem_of_deref hne, ?_⟩
  fun_induction accessesOf nodes with
  | case1 => exact absurd rfl hne
  | case2 i => exact List.pairwise_singleton _ _
  | case3 i j rest ih =>
    have hrest := ih hnodup.of_cons (List.cons_ne_nil j rest)
    refine List.pairwise_cons.mpr ⟨fun b _ p h => absurd h (by simp), ?_⟩
    refine List.pairwise_cons.mpr ⟨fun b _ p h => absurd h (by simp), ?_⟩
    refine List.pairwise_cons.mpr ⟨?_, hrest⟩
    -- the node is not in the rest of the list, so nothing behind reads it
    rintro b hb p ⟨⟩ rfl
    obtain ⟨k, hk, hik⟩ := mem_of_deref (List.cons_ne_nil j rest) hb
    cases hik
    exact (List.nodup_cons.mp hnodup).1 hk

/-- The last node is never freed. -/
theorem count_getLast {nodes : List ℕ} (hnodup : nodes.Nodup) (hne : nodes ≠ []) :
    (accessesOf nodes).count (.free (some (nodes.getLast hne))) = 0 := by
  rw [count_free_accessesOf]
  refine List.count_eq_zero.mpr ?_
  intro hmem
  rw [← List.dropLast_append_getLast hne] at hnodup
  exact (List.nodup_append.mp hnodup).2.2 _ hmem _ (List.mem_singleton_self _) rfl

theorem freesOnce_iff {nodes : List ℕ} (hnodup : nodes.Nodup) :
    FreesOnce nodes (accessesOf nodes) ↔ nodes = [] := by
  constructor
  · intro hfrees
    by_contra hne
    have hlast := hfrees (nodes.getLast hne)
    rw [count_getLast hnodup hne, if_pos (List.getLast_mem hne)] at hlast
    exact Nat.zero_ne_one hlast
  · rintro rfl i
    rfl

/-- For no list does `free_list` do what it is for: what it reads is right unless the list is empty,
and what it frees is right only then. -/
theorem free_list_never_releases (list : NodeList) {fuel : ℕ} (hfuel : list.nodes.length < fuel) :
    ¬ ReleasesExactly list fuel ∧
      (DereferencesLive list.nodes (list.accesses fuel) ↔ list.nodes ≠ []) ∧
      (FreesOnce list.nodes (list.accesses fuel) ↔ list.nodes = []) := by
  have haccesses : list.accesses fuel = accessesOf list.nodes :=
    freeListAccesses_eq list.holds hfuel
  have hlive := dereferencesLive_iff list.nodup
  have hfrees := freesOnce_iff list.nodup
  rw [ReleasesExactly, haccesses]
  refine ⟨?_, hlive, hfrees⟩
  rintro ⟨hread, hfree⟩
  exact hlive.mp hread (hfrees.mp hfree)

/-- The list of 4 and 8 as `main` builds it: the node of 4 is allocated last and points to that of
8. -/
def twoNodes : NodeList where
  world := ⟨[.node 8 none, .node 4 (some 0)], fun _ => none, .start .line⟩
  head := some 1
  nodes := [1, 0]
  holds := ⟨Option.some_ne_none 1, some 0, rfl, Option.some_ne_none 0, none, rfl, rfl⟩

theorem free_list_never_releases_two :
    ¬ ReleasesExactly twoNodes 3 ∧
      (DereferencesLive twoNodes.nodes (twoNodes.accesses 3) ↔ twoNodes.nodes ≠ []) ∧
      (FreesOnce twoNodes.nodes (twoNodes.accesses 3) ↔ twoNodes.nodes = []) :=
  free_list_never_releases twoNodes (Nat.lt_succ_self 2)

/-- The list that `f` yields when no element satisfies the predicate. -/
def noNodes : NodeList where
  world := twoNodes.world
  head := none
  nodes := []
  holds := rfl

/-- The empty list ends the process by a signal. Of the two nodes, that of 4 is freed and that of 8,
the last one, is not. -/
theorem free_list_null_and_leak :
    ((freeList 1 noNodes.head).run noNodes.world = .error .fault noNodes.world ∧
      ¬ ReleasesExactly noNodes 1) ∧
    ((freeList 3 twoNodes.head).run twoNodes.world =
        .ok () { twoNodes.world with heap := [.node 8 none, .freed] } ∧
      ¬ ReleasesExactly twoNodes 3) := by
  refine ⟨⟨rfl, ?_⟩, rfl, ?_⟩
  · rintro ⟨hread, -⟩
    obtain ⟨i, hi, -⟩ := hread.node none (List.mem_singleton_self _)
    exact List.not_mem_nil hi
  · rintro ⟨-, hfree⟩
    exact Nat.zero_ne_one (hfree 0)

end CDevHws.Hw09
