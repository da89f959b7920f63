import Mathlib.Data.List.Basic

/-!
# One-pass search

A search that compares the elements one by one with those of a signature and, after an element that
does not match, begins anew with the next element. It never looks at an element twice, so it can
overlook the signature: in `a a b` it does not find `a b`.
-/

namespace Search

variable {α : Type*}

/-- `Finds sig s rest`: the search for `sig` in `s` is successful, and `rest` is left. -/
inductive Finds (sig : List α) : List α → List α → Prop where
  /-- All elements of the signature match. -/
  | here (rest : List α) : Finds sig (sig ++ rest) rest
  /-- Some elements match, the next one does not. -/
  | skip {k : ℕ} {c : α} {s rest : List α} (hk : k < sig.length) (hc : sig[k]? ≠ some c)
      (h : Finds sig s rest) : Finds sig (sig.take k ++ c :: s) rest

variable {sig s rest : List α} {k : ℕ} {c : α}

theorem getElem?_take_append (hk : k < sig.length) (t : List α) {j : ℕ} (hj : j < k) :
    (sig.take k ++ t)[j]? = sig[j]? := by
  have hlen : (sig.take k).length = k := List.length_take_of_le (Nat.le_of_lt hk)
  rw [List.getElem?_append_left (by omega), List.getElem?_take_of_lt hj]

theorem getElem?_take_append_self (hk : k < sig.length) (c : α) (s : List α) :
    (sig.take k ++ c :: s)[k]? = some c := by
  have hlen : (sig.take k).length = k := List.length_take_of_le (Nat.le_of_lt hk)
  rw [List.getElem?_append_right (by omega), hlen, Nat.sub_self]
  rfl

/-- A beginning with a mismatch is not a beginning with the signature. -/
theorem ne_append (hk : k < sig.length) (hc : sig[k]? ≠ some c) (s rest : List α) :
    sig.take k ++ c :: s ≠ sig ++ rest := by
  intro heq
  have hget := congrArg (·[k]?) heq
  rw [getElem?_take_append_self hk, List.getElem?_append_left hk] at hget
  exact hc hget.symm

theorem finds_skip_iff (hk : k < sig.length) (hc : sig[k]? ≠ some c) :
    Finds sig (sig.take k ++ c :: s) rest ↔ Finds sig s rest := by
  refine ⟨fun h => ?_, Finds.skip hk hc⟩
  generalize hs : sig.take k ++ c :: s = t at h
  cases h with
  | here rest => exact absurd hs (ne_append hk hc s rest)
  | @skip k' c' s' _ hk' hc' h =>
    -- the first mismatch is at the same place in both readings
    rcases Nat.lt_trichotomy k k' with hlt | rfl | hlt
    · have hget := getElem?_take_append hk' (c' :: s') hlt
      rw [← hs, getElem?_take_append_self hk] at hget
      exact absurd hget.symm hc
    · obtain ⟨rfl, rfl⟩ := List.cons.inj (List.append_cancel_left hs)
      exact h
    · have hget := getElem?_take_append hk (c :: s) hlt
      rw [hs, getElem?_take_append_self hk'] at hget
      exact absurd hget.symm hc'

/-- An incomplete signature is not found. -/
theorem not_finds_take (hk : k < sig.length) : ¬ Finds sig (sig.take k) rest := by
  intro h
  generalize ht : sig.take k = t at h
  cases h with
  | here rest =>
    have hlen := congrArg List.length ht
    rw [List.length_take_of_le (Nat.le_of_lt hk), List.length_append] at hlen
    omega
  | @skip k' c' s' _ hk' hc' h =>
    have hlen := congrArg List.length ht
    rw [List.length_take_of_le (Nat.le_of_lt hk), List.length_append,
      List.length_take_of_le (Nat.le_of_lt hk'), List.length_cons] at hlen
    have hget := getElem?_take_append_self hk' c' s'
    rw [← ht, List.getElem?_take_of_lt (by omega)] at hget
    exact hc' hget

/-- What is left is determined. -/
theorem Finds.unique {rest' : List α} (h : Finds sig s rest) (h' : Finds sig s rest') :
    rest = rest' := by
  induction h with
  | here rest =>
    generalize ht : sig ++ rest = t at h'
    cases h' with
    | here rest' => exact List.append_cancel_left ht
    | skip hk hc h' => exact absurd ht.symm (ne_append hk hc _ _)
  | skip hk hc h ih => exact ih ((finds_skip_iff hk hc).mp h')

/-- The signature stands before what is left. -/
theorem Finds.exists_append (h : Finds sig s rest) : ∃ front, s = front ++ sig ++ rest := by
  induction h with
  | here rest => exact ⟨[], rfl⟩
  | @skip k c s rest hk hc h ih =>
    obtain ⟨front, rfl⟩ := ih
    exact ⟨sig.take k ++ c :: front, by simp⟩

/-! ## The first occurrence -/

/-- `Attempts sig front`: the search for `sig` reads `front` in attempts that fail, and is about to
begin anew after it. -/
inductive Attempts (sig : List α) : List α → Prop where
  | nil : Attempts sig []
  /-- Some elements match, the next one does not. -/
  | skip {k : ℕ} {c : α} {front : List α} (hk : k < sig.length) (hc : sig[k]? ≠ some c)
      (h : Attempts sig front) : Attempts sig (sig.take k ++ c :: front)

/-- The first occurrence of `sig` in `s` is after `front` and before `back`. -/
structure First (sig front back s : List α) : Prop where
  split : s = front ++ sig ++ back
  first : ¬ sig <:+: (front ++ sig).dropLast

variable {front back front' back' : List α}

/-- The search is successful exactly at an occurrence that it comes to after failed attempts. -/
theorem finds_iff : Finds sig s rest ↔ ∃ front, s = front ++ sig ++ rest ∧ Attempts sig front := by
  constructor
  · intro h
    induction h with
    | here rest => exact ⟨[], rfl, Attempts.nil⟩
    | @skip k c s rest hk hc _ ih =>
      obtain ⟨front, rfl, hfront⟩ := ih
      exact ⟨sig.take k ++ c :: front, by simp, Attempts.skip hk hc hfront⟩
  · rintro ⟨front, rfl, hfront⟩
    induction hfront with
    | nil => exact Finds.here rest
    | @skip k c front hk hc _ ih =>
      rw [List.append_assoc, List.append_assoc, List.cons_append, ← List.append_assoc front]
      exact Finds.skip hk hc ih

theorem First.length_le (hsig : sig ≠ []) (h : First sig front back s)
    (hsplit : s = front' ++ sig ++ back') : front.length ≤ front'.length := by
  by_contra hlt
  apply h.first
  -- the other occurrence is before the last element of this one
  have hlen : 0 < sig.length := List.length_pos_iff.mpr hsig
  have hprefix : front' ++ sig <+: (front ++ sig).dropLast := by
    have hboth : front' ++ sig <+: s := ⟨back', hsplit.symm⟩
    have hdrop : (front ++ sig).dropLast <+: s :=
      (List.dropLast_prefix _).trans ⟨back, h.split.symm⟩
    refine List.prefix_of_prefix_length_le hboth hdrop ?_
    rw [List.length_dropLast, List.length_append, List.length_append]
    omega
  exact (List.suffix_append front' sig).isInfix.trans hprefix.isInfix

theorem First.unique (hsig : sig ≠ []) (h : First sig front back s)
    (h' : First sig front' back' s) : front = front' ∧ back = back' := by
  have hle := h.length_le hsig h'.split
  have hle' := h'.length_le hsig h.split
  have heq := h.split.symm.trans h'.split
  rw [List.append_assoc, List.append_assoc] at heq
  obtain ⟨hfront, hrest⟩ := List.append_inj heq (by omega)
  exact ⟨hfront, List.append_cancel_left hrest⟩

theorem exists_first (hsig : sig ≠ []) (h : sig <:+: s) : ∃ front back, First sig front back s := by
  obtain ⟨front, back, heq⟩ := h
  have hsplit := heq.symm
  clear heq
  induction hn : front.length using Nat.strongRecOn generalizing front back with
  | ind n ih =>
    by_cases hfirst : sig <:+: (front ++ sig).dropLast
    · -- an occurrence that ends before begins before
      obtain ⟨front', back', heq⟩ := hfirst
      have hsigLen : 0 < sig.length := List.length_pos_iff.mpr hsig
      have hlen := congrArg List.length heq
      simp only [List.length_append, List.length_dropLast] at hlen
      obtain ⟨tail, htail⟩ : (front ++ sig).dropLast <+: s :=
        (List.dropLast_prefix _).trans ⟨back, hsplit.symm⟩
      have hsplit' : s = front' ++ sig ++ (back' ++ tail) := by
        rw [← htail, ← heq, List.append_assoc]
      exact ih front'.length (by omega) front' (back' ++ tail) hsplit' rfl
    · exact ⟨front, back, hsplit, hfirst⟩

/-- An occurrence does not contain an element that the signature does not have. -/
theorem isInfix_append_cons {x : α} (hx : x ∉ sig) (h : sig <:+: front ++ x :: back) :
    sig <:+: front ∨ sig <:+: back := by
  obtain ⟨before, after, heq⟩ := h
  rw [List.append_assoc] at heq
  rcases List.append_eq_append_iff.mp heq with ⟨mid, hfront, hrest⟩ | ⟨mid, hbefore, hrest⟩
  · -- it begins in `front`
    rcases List.append_eq_append_iff.mp hrest with ⟨tail, hmid, -⟩ | ⟨tail, hsig, hback⟩
    · left
      rw [hfront, hmid, ← List.append_assoc]
      exact ⟨before, tail, rfl⟩
    · cases tail with
      | nil =>
        left
        rw [hfront, hsig, List.append_nil]
        exact (List.suffix_append before mid).isInfix
      | cons y tail =>
        obtain ⟨rfl, -⟩ := List.cons.inj hback
        exact absurd (hsig ▸ List.mem_append_right mid List.mem_cons_self) hx
  · right
    cases mid with
    | nil =>
      cases sig with
      | nil => exact List.nil_infix
      | cons y sig =>
        obtain ⟨rfl, -⟩ := List.cons.inj hrest
        exact absurd List.mem_cons_self hx
    | cons y mid =>
      obtain ⟨-, rfl⟩ := List.cons.inj hrest
      exact ⟨mid, after, List.append_assoc ..⟩

theorem not_isInfix_append {mid : List α} (hmid : ∀ x ∈ mid, x ∉ sig) (hsig : sig ≠ [])
    (hback : ¬ sig <:+: back) : ¬ sig <:+: mid ++ back := by
  induction mid with
  | nil => exact hback
  | cons x mid ih =>
    intro h
    have hinfix : sig <:+: [] ++ x :: (mid ++ back) := h
    rcases isInfix_append_cons (hmid x List.mem_cons_self) hinfix with hnil | hrest
    · exact hsig (List.infix_nil.mp hnil)
    · exact ih (fun y hy => hmid y (List.mem_cons_of_mem x hy)) hrest

/-- Elements that the signature does not have keep what is before them and what is after them
apart. -/
theorem not_isInfix_between {mid : List α} (hmid : ∀ x ∈ mid, x ∉ sig) (hne : mid ≠ [])
    (hfront : ¬ sig <:+: front) (hback : ¬ sig <:+: back) : ¬ sig <:+: front ++ (mid ++ back) := by
  obtain ⟨x, mid, rfl⟩ := List.exists_cons_of_ne_nil hne
  intro h
  rcases isInfix_append_cons (hmid x List.mem_cons_self) h with h | h
  · exact hfront h
  · have hsig : sig ≠ [] := fun hnil => hfront (hnil ▸ List.nil_infix)
    exact not_isInfix_append (fun y hy => hmid y (List.mem_cons_of_mem x hy)) hsig hback h

/-! ## Signatures with one element only -/

/-- What does not contain `n` times the element `a` and does not end with `a` is read in failed
attempts; `k` elements are read already. -/
theorem attempts_of_replicate {a : α} {n k : ℕ} (hk : k < n)
    (hno : ¬ List.replicate n a <:+: List.replicate k a ++ front)
    (hlast : (List.replicate k a ++ front).getLast? ≠ some a) :
    Attempts (List.replicate n a) (List.replicate k a ++ front) := by
  classical
  induction front generalizing k with
  | nil =>
    cases k with
    | zero => exact Attempts.nil
    | succ k =>
      rw [List.append_nil, List.replicate_succ', List.getLast?_concat] at hlast
      exact absurd rfl hlast
  | cons c front ih =>
    by_cases hc : c = a
    · have hmove : List.replicate k a ++ c :: front = List.replicate (k + 1) a ++ front := by
        rw [List.replicate_succ', hc, List.append_assoc]
        rfl
      rw [hmove] at hno hlast ⊢
      have hne : k + 1 ≠ n := by
        rintro rfl
        exact hno (List.prefix_append _ _).isInfix
      exact ih (by omega) hno hlast
    · have htake : List.replicate k a = (List.replicate n a).take k := by
        rw [List.take_replicate, Nat.min_eq_left (Nat.le_of_lt hk)]
      have hsuffix : front <:+ List.replicate k a ++ c :: front :=
        (List.suffix_cons c front).trans (List.suffix_append _ _)
      have hrest : Attempts (List.replicate n a) (List.replicate 0 a ++ front) := by
        refine ih (by omega) (fun h => hno (h.trans hsuffix.isInfix)) ?_
        show front.getLast? ≠ some a
        cases front with
        | nil => exact fun h => by cases h
        | cons d front =>
          rwa [List.getLast?_append_of_ne_nil _ (List.cons_ne_nil c _),
            List.getLast?_cons_cons] at hlast
      rw [htake]
      refine Attempts.skip (by rw [List.length_replicate]; exact hk) ?_ hrest
      rw [List.getElem?_replicate, if_pos hk]
      exact fun h => hc (Option.some.inj h).symm

/-- Before the first occurrence of a signature whose elements are all the same, there are failed
attempts only. -/
theorem First.attempts_of_replicate {a : α} {n : ℕ} (hn : 0 < n)
    (h : First (List.replicate n a) front back s) : Attempts (List.replicate n a) front := by
  have hdrop : (front ++ List.replicate n a).dropLast = front ++ List.replicate (n - 1) a := by
    rw [List.dropLast_append_of_ne_nil (List.ne_nil_of_length_pos (by simpa using hn)),
      List.dropLast_replicate]
  have hfirst := h.first
  rw [hdrop] at hfirst
  refine Search.attempts_of_replicate (k := 0) hn ?_ ?_
  · intro hin
    exact hfirst (hin.trans (List.prefix_append front _).isInfix)
  · intro hlast
    -- the occurrence would begin one element before
    obtain ⟨init, hinit⟩ := List.getLast?_eq_some_iff.mp hlast
    have hinit : front = init ++ [a] := hinit
    have hjoin : front ++ List.replicate (n - 1) a = init ++ List.replicate n a := by
      obtain ⟨m, rfl⟩ := Nat.exists_eq_add_of_le' hn
      rw [hinit, List.append_assoc, Nat.add_sub_cancel, List.replicate_succ]
      rfl
    rw [hjoin] at hfirst
    exact hfirst (List.suffix_append init _).isInfix

/-- The first element of the signature alone is not a failed attempt. -/
theorem not_attempts_singleton {a : α} {sig : List α} : ¬ Attempts (a :: sig) [a] := by
  intro h
  generalize hl : [a] = l at h
  cases h with
  | nil => cases hl
  | @skip k c front hk hc h =>
    cases k with
    | zero =>
      obtain ⟨rfl, -⟩ := List.cons.inj hl
      exact hc rfl
    | succ k =>
      have hlen := congrArg List.length hl
      simp at hlen

theorem eq_replicate_of_shift {a : α} {l : List α} (h : l = (a :: l).dropLast) :
    l = List.replicate l.length a := by
  induction l with
  | nil => rfl
  | cons b l ih =>
    rw [List.dropLast_cons_cons] at h
    obtain ⟨rfl, hl⟩ := List.cons.inj h
    exact congrArg (b :: ·) (ih hl)

/-- A signature with two different elements, after one more copy of its first element. -/
theorem first_cons {a : α} {sig : List α} (h : ∀ n, a :: sig ≠ List.replicate n a) :
    First (a :: sig) [a] [] (a :: a :: sig) := by
  refine ⟨by simp, fun hin => ?_⟩
  have hlen : (a :: sig).length = ([a] ++ a :: sig).dropLast.length := by simp
  have heq := hin.eq_of_length hlen
  exact h _ (eq_replicate_of_shift heq)

end Search
