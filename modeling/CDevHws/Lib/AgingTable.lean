import Mathlib.Data.List.Basic
import Mathlib.Data.List.Induction

/-!
# Learning tables with ageing

A learning table remembers for each key the port it was last seen at, and forgets keys that have not
been seen for a while. Its history is a list of events, the oldest first: a key is seen at a port,
or the clock ticks. The table is described twice, as a machine that reacts to the events (`after`)
and as a fact about the history (`Seen`); `after_eq_some_iff` says that the two agree.
-/

namespace AgingTable

variable {K P : Type*}

/-- An event in the history of a learning table. -/
inductive Event (K P : Type*) where
  /-- Key `k` was seen at port `p`. -/
  | learn (k : K) (p : P)
  /-- The clock ticked. -/
  | tick

/-- A learning table: for each known key its port and its age. -/
abbrev Table (K P : Type*) := K → Option (P × ℕ)

/-- The table after `k` was seen at `p`. -/
def learn [DecidableEq K] (t : Table K P) (k : K) (p : P) : Table K P :=
  fun k' => if k' = k then some (p, 0) else t k'

/-- The table after a tick: entries older than `limit` go, the others age. -/
def tick (limit : ℕ) (t : Table K P) : Table K P :=
  fun k => (t k).bind fun e => if limit < e.2 then none else some (e.1, e.2 + 1)

/-- The reaction of the table to one event. -/
def step [DecidableEq K] (limit : ℕ) (t : Table K P) : Event K P → Table K P
  | .learn k p => learn t k p
  | .tick => tick limit t

/-- The table after a whole history, from the empty table. -/
def after [DecidableEq K] (limit : ℕ) (h : List (Event K P)) : Table K P :=
  h.foldl (step limit) fun _ => none

/-- The number of ticks in a history. -/
def ticks : List (Event K P) → ℕ
  | [] => 0
  | .learn _ _ :: h => ticks h
  | .tick :: h => ticks h + 1

/-- In the history `h`, key `k` was last seen at port `p`, `n` ticks ago. -/
def Seen (h : List (Event K P)) (k : K) (p : P) (n : ℕ) : Prop :=
  ∃ pre post, h = pre ++ .learn k p :: post ∧ (∀ p', .learn k p' ∉ post) ∧ ticks post = n

theorem ticks_append (h h' : List (Event K P)) : ticks (h ++ h') = ticks h + ticks h' := by
  induction h with
  | nil => simp [ticks]
  | cons e h ih =>
    cases e with
    | learn k p => simpa [ticks] using ih
    | tick => simp only [List.cons_append, ticks, ih]; omega

section After

variable [DecidableEq K] (limit : ℕ)

@[simp] theorem after_nil (k : K) : after limit ([] : List (Event K P)) k = none := rfl

theorem after_append_singleton (h : List (Event K P)) (e : Event K P) :
    after limit (h ++ [e]) = step limit (after limit h) e := by
  simp [after]

end After

/-! ## The last time a key was seen -/

theorem not_seen_nil {k : K} {p : P} {n : ℕ} : ¬ Seen [] k p n := by
  rintro ⟨pre, post, h, -⟩
  simp at h

/-- Where an event lies in a history that ends with `e`: it is that last event, or it lies before.
-/
theorem append_singleton_eq_iff {E : Type*} {h pre post : List E} {e a : E} :
    h ++ [e] = pre ++ a :: post ↔
      (h = pre ∧ e = a ∧ post = []) ∨ ∃ post', post = post' ++ [e] ∧ h = pre ++ a :: post' := by
  constructor
  · intro heq
    rcases List.eq_nil_or_concat post with rfl | ⟨post', x, hpost⟩
    · obtain ⟨h1, h2⟩ := List.append_inj' heq rfl
      exact Or.inl ⟨h1, (List.cons.inj h2).1, rfl⟩
    · rw [List.concat_eq_append] at hpost
      subst hpost
      have heq' : h ++ [e] = (pre ++ a :: post') ++ [x] := by simpa using heq
      obtain ⟨h1, h2⟩ := List.append_inj' heq' rfl
      exact Or.inr ⟨post', by rw [(List.cons.inj h2).1], h1⟩
  · rintro (⟨rfl, rfl, rfl⟩ | ⟨post', rfl, rfl⟩)
    · rfl
    · simp

/-- Seeing a key makes it the last one seen under that key, and says nothing about other keys. -/
theorem seen_append_learn {h : List (Event K P)} {k k' : K} {p p' : P} {n : ℕ} :
    Seen (h ++ [.learn k' p']) k p n ↔
      (k = k' ∧ p = p' ∧ n = 0) ∨ (k ≠ k' ∧ Seen h k p n) := by
  constructor
  · rintro ⟨pre, post, heq, hno, hn⟩
    rcases append_singleton_eq_iff.mp heq with ⟨-, he, rfl⟩ | ⟨post', rfl, heq'⟩
    · cases he
      exact Or.inl ⟨rfl, rfl, hn.symm⟩
    · refine Or.inr ⟨?_, pre, post', heq', fun q hq => hno q (List.mem_append_left _ hq), ?_⟩
      · rintro rfl
        exact hno p' (by simp)
      · rw [← hn, ticks_append]; rfl
  · rintro (⟨rfl, rfl, rfl⟩ | ⟨hk, pre, post, rfl, hno, rfl⟩)
    · exact ⟨h, [], rfl, by simp, rfl⟩
    · refine ⟨pre, post ++ [.learn k' p'], by simp, ?_, by rw [ticks_append]; rfl⟩
      intro q hq
      rcases List.mem_append.mp hq with hq | hq
      · exact hno q hq
      · simp only [List.mem_singleton, Event.learn.injEq] at hq
        exact hk hq.1

theorem seen_append_tick {h : List (Event K P)} {k : K} {p : P} {n : ℕ} :
    Seen (h ++ [.tick]) k p n ↔ ∃ m, n = m + 1 ∧ Seen h k p m := by
  constructor
  · rintro ⟨pre, post, heq, hno, hn⟩
    rcases append_singleton_eq_iff.mp heq with ⟨-, he, -⟩ | ⟨post', rfl, heq'⟩
    · cases he
    · refine ⟨ticks post', by rw [← hn, ticks_append]; rfl, pre, post', heq', ?_, rfl⟩
      exact fun q hq => hno q (List.mem_append_left _ hq)
  · rintro ⟨m, rfl, pre, post, rfl, hno, rfl⟩
    refine ⟨pre, post ++ [.tick], by simp, ?_, by rw [ticks_append]; rfl⟩
    intro q hq
    rcases List.mem_append.mp hq with hq | hq
    · exact hno q hq
    · simp at hq

/-- The last sighting of a key that was seen at all. -/
theorem exists_seen_of_mem {h : List (Event K P)} {k : K} {p : P} (hmem : .learn k p ∈ h) :
    ∃ p' n, Seen h k p' n ∧ .learn k p' ∈ h := by
  induction h using List.reverseRecOn with
  | nil => simp at hmem
  | append_singleton h e ih =>
    have hold : Event.learn k p ∈ h → ∃ p' n, Seen h k p' n ∧ .learn k p' ∈ h := ih
    rcases e with ⟨k2, p2⟩ | _
    · by_cases hk : k = k2
      · subst hk
        exact ⟨p2, 0, seen_append_learn.mpr (Or.inl ⟨rfl, rfl, rfl⟩), by simp⟩
      · obtain ⟨p', n, hs, hm⟩ := hold (by simpa [hk] using hmem)
        exact ⟨p', n, seen_append_learn.mpr (Or.inr ⟨hk, hs⟩), List.mem_append_left _ hm⟩
    · obtain ⟨p', n, hs, hm⟩ := hold (by simpa using hmem)
      exact ⟨p', n + 1, seen_append_tick.mpr ⟨n, rfl, hs⟩, List.mem_append_left _ hm⟩

/-- What was seen before `h'` counts only as long as `h'` does not see the key again. -/
theorem seen_append_of_seen {h h' : List (Event K P)} {k : K} {p : P} {n : ℕ}
    (hs : Seen h' k p n) : Seen (h ++ h') k p n := by
  obtain ⟨pre, post, rfl, hno, hn⟩ := hs
  exact ⟨h ++ pre, post, by simp, hno, hn⟩

theorem Seen.le_ticks {h : List (Event K P)} {k : K} {p : P} {n : ℕ} (hs : Seen h k p n) :
    n ≤ ticks h := by
  obtain ⟨pre, post, rfl, -, rfl⟩ := hs
  rw [ticks_append, ticks]
  omega

/-! ## The machine computes the last sightings -/

/-- The table holds exactly the keys seen within the last `limit + 1` ticks, with the port and the
age of the last sighting. -/
theorem after_eq_some_iff [DecidableEq K] (limit : ℕ) (h : List (Event K P)) (k : K) (p : P)
    (n : ℕ) : after limit h k = some (p, n) ↔ Seen h k p n ∧ n ≤ limit + 1 := by
  induction h using List.reverseRecOn generalizing n with
  | nil => simp [not_seen_nil]
  | append_singleton h e ih =>
    rw [after_append_singleton]
    cases e with
    | learn k2 p2 =>
      rw [seen_append_learn]
      simp only [step, learn]
      by_cases hk : k = k2
      · rw [if_pos hk]
        simp only [Option.some.injEq, Prod.mk.injEq, hk, true_and, ne_eq, not_true_eq_false,
          false_and, or_false]
        constructor
        · rintro ⟨rfl, rfl⟩
          exact ⟨⟨rfl, rfl⟩, Nat.zero_le _⟩
        · rintro ⟨⟨rfl, rfl⟩, -⟩
          exact ⟨rfl, rfl⟩
      · rw [if_neg hk, ih]
        simp [hk]
    | tick =>
      rw [seen_append_tick]
      simp only [step, tick, Option.bind_eq_some_iff, Prod.exists]
      constructor
      · rintro ⟨q, m, hm, hif⟩
        split_ifs at hif with hlt
        · simp only [Option.some.injEq, Prod.mk.injEq] at hif
          obtain ⟨rfl, rfl⟩ := hif
          exact ⟨⟨m, rfl, ((ih m).mp hm).1⟩, by omega⟩
      · rintro ⟨⟨m, rfl, hs⟩, hle⟩
        exact ⟨p, m, (ih m).mpr ⟨hs, by omega⟩, by rw [if_neg (by omega)]⟩

end AgingTable
