import Mathlib.Order.Basic

/-!
# Singly linked lists

A memory is a function `get` that tells the content of the node at a pointer and the pointer in it
to the next node, if there is a node at all. The lists in such a memory end with the pointer `null`.
-/

namespace LinkedList

variable {P α : Type*}

/-- The nodes from the pointer on hold these elements. -/
def Holds (get : P → Option (α × P)) (null : P) : P → List α → Prop
  | p, [] => p = null
  | p, a :: l => p ≠ null ∧ ∃ next, get p = some (a, next) ∧ Holds get null next l

variable {get get' : P → Option (α × P)} {null p next : P} {a : α} {l l' : List α}

theorem holds_nil_iff : Holds get null p [] ↔ p = null := Iff.rfl

/-- Behind a null pointer there is nothing. -/
theorem holds_null_iff : Holds get null null l ↔ l = [] := by
  cases l with
  | nil => exact iff_of_true rfl rfl
  | cons a l => exact iff_of_false (fun h => h.1 rfl) (List.cons_ne_nil a l)

theorem Holds.cons (hp : p ≠ null) (hget : get p = some (a, next)) (h : Holds get null next l) :
    Holds get null p (a :: l) := ⟨hp, next, hget, h⟩

/-- A list stays if the memory grows. -/
theorem Holds.mono (h : Holds get null p l)
    (hle : ∀ p node, get p = some node → get' p = some node) : Holds get' null p l := by
  induction l generalizing p with
  | nil => exact h
  | cons a l ih =>
    obtain ⟨hp, next, hget, htail⟩ := h
    exact ⟨hp, next, hle _ _ hget, ih htail⟩

/-- The node at a pointer is the first one of the list. -/
theorem Holds.of_get (h : Holds get null p l) (hp : p ≠ null) (hget : get p = some (a, next)) :
    ∃ l', l = a :: l' ∧ Holds get null next l' := by
  cases l with
  | nil => exact absurd h hp
  | cons b l =>
    obtain ⟨-, next', hget', htail⟩ := h
    rw [hget, Option.some.injEq, Prod.mk.injEq] at hget'
    obtain ⟨rfl, rfl⟩ := hget'
    exact ⟨l, rfl, htail⟩

/-- A pointer determines its list. -/
theorem Holds.unique (h : Holds get null p l) (h' : Holds get null p l') : l = l' := by
  induction l generalizing p l' with
  | nil =>
    have hp : p = null := h
    rw [hp, holds_null_iff] at h'
    exact h'.symm
  | cons a l ih =>
    obtain ⟨hp, next, hget, htail⟩ := h
    obtain ⟨l', rfl, htail'⟩ := h'.of_get hp hget
    rw [ih htail htail']

/-- From a node of the list on, there is the rest of the list. -/
theorem Holds.exists_of_mem (h : Holds get null p l) (ha : a ∈ l) :
    ∃ front back q next, l = front ++ a :: back ∧ get q = some (a, next) ∧
      Holds get null q (a :: back) := by
  induction l generalizing p with
  | nil => exact absurd ha List.not_mem_nil
  | cons b l ih =>
    obtain ⟨hp, next, hget, htail⟩ := h
    rcases List.mem_cons.mp ha with rfl | hmem
    · exact ⟨[], l, p, next, rfl, hget, Holds.cons hp hget htail⟩
    · obtain ⟨front, back, q, next', hl, hq, hrest⟩ := ih htail hmem
      exact ⟨b :: front, back, q, next', congrArg (b :: ·) hl, hq, hrest⟩

/-- If the nodes hold their own addresses, a list does not come back to a node. -/
theorem Holds.nodup (h : Holds get null p l) {address : α → P}
    (haddress : ∀ p a next, get p = some (a, next) → p = address a) : l.Nodup := by
  induction l generalizing p with
  | nil => exact List.nodup_nil
  | cons a l ih =>
    have hwhole := h
    obtain ⟨hp, next, hget, htail⟩ := h
    refine List.nodup_cons.mpr ⟨?_, ih htail⟩
    intro hmem
    obtain ⟨front, back, q, next', hl, hq, hrest⟩ := htail.exists_of_mem hmem
    rw [haddress q a next' hq, ← haddress p a next hget] at hrest
    have hsame := congrArg List.length (hrest.unique hwhole)
    rw [hl, List.length_cons, List.length_cons, List.length_append, List.length_cons] at hsame
    omega

/-- A list is not affected by a change of a node from which a longer list starts. -/
theorem Holds.of_change {q : P} (h : Holds get null q l') (hp : Holds get null p l)
    (hsame : ∀ q, q ≠ p → get' q = get q) (hlt : l'.length < l.length) :
    Holds get' null q l' := by
  induction l' generalizing q with
  | nil => exact h
  | cons b l' ih =>
    have hne : q ≠ p := by
      rintro rfl
      rw [h.unique hp] at hlt
      exact Nat.lt_irrefl _ hlt
    obtain ⟨hq, next, hget, htail⟩ := h
    refine Holds.cons hq ?_ (ih htail (Nat.lt_of_succ_lt hlt))
    rw [hsame q hne, hget]

end LinkedList
