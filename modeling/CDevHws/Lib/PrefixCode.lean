import Mathlib.Logic.Function.Defs

/-!
# Codes that can be read from the left

A code in which the first word of a text can be recognised, whatever follows it. Such a code is
decodable: different sequences of symbols have different texts.
-/

namespace PrefixCode

variable {α β : Type*}

/-- No word is empty, and a text begins with the word of one symbol at most. -/
structure IsPrefixCode (word : α → List β) : Prop where
  ne_nil : ∀ a, word a ≠ []
  eq_of_append : ∀ a b rest rest', word a ++ rest = word b ++ rest' → a = b

/-- Texts of a prefix code are decodable. -/
theorem IsPrefixCode.flatMap_injective {word : α → List β} (h : IsPrefixCode word) :
    Function.Injective (List.flatMap word) := by
  intro s
  induction s with
  | nil =>
    intro s' heq
    cases s' with
    | nil => rfl
    | cons b s' =>
      rw [List.flatMap_nil, List.flatMap_cons] at heq
      exact absurd (List.append_eq_nil_iff.mp heq.symm).1 (h.ne_nil b)
  | cons a s ih =>
    intro s' heq
    cases s' with
    | nil =>
      rw [List.flatMap_nil, List.flatMap_cons] at heq
      exact absurd (List.append_eq_nil_iff.mp heq).1 (h.ne_nil a)
    | cons b s' =>
      rw [List.flatMap_cons, List.flatMap_cons] at heq
      obtain rfl := h.eq_of_append a b _ _ heq
      rw [ih (List.append_cancel_left heq)]

end PrefixCode
