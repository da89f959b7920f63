import CDevHws.Hw08.Proofs.JsonParseProofs

/-!
# Proofs: the rounds of the parsing loops

The loops over the items of an array and over the members of an object do the same behind each
value: there is a comma and something more to read, or the closing bracket. What a whole loop reads
is proved by induction on its rounds.
-/

namespace CDevHws.Hw08

open CString (isspace)

variable {N : Type}

theorem exists_blank (s : List UInt8) : ∃ w, Blank w ∧ s = w ++ skipWhitespaces s :=
  ⟨s.takeWhile isspace, fun _ hc => List.mem_takeWhile_imp hc, List.takeWhile_append_dropWhile.symm⟩

theorem isspace_of_skip {s t : List UInt8} {c : UInt8} (h : skipWhitespaces s = c :: t) :
    isspace c = false := by
  have hnot := List.head?_dropWhile_not isspace s
  rw [show s.dropWhile isspace = c :: t from h] at hnot
  exact hnot

/-- What the loops over items and members do behind a value, if there is `c`. -/
def behindValue (closing : UInt8) (close loop : Parser N) (c : UInt8) : Parser N := fun s =>
  if c = 44 then
    if (skipWhitespaces s).head? = some closing then close (skipWhitespaces s)
    else loop (skipWhitespaces s)
  else close (c :: s)

/-- A closing bracket is read, and white space in front of it. -/
def Closes (closing : UInt8) (value : JsonValue N) (close : Parser N) : Prop :=
  ∀ s value' rest, close s = some (value', rest) ↔
    value' = value ∧ skipWhitespaces s = closing :: rest

/-- Either the container is closed, or the loop goes on further behind. -/
theorem behindValue_cases {closing c : UInt8} {container value : JsonValue N}
    {close loop : Parser N} {s rest : List UInt8} (hclose : Closes closing container close)
    (h : behindValue closing close loop c s = some (value, rest)) :
    (value = container ∧ rest <:+ c :: s) ∨ ∃ s', s' <:+ c :: s ∧ loop s' = some (value, rest) := by
  have hnext : skipWhitespaces s <:+ c :: s :=
    (List.dropWhile_suffix _).trans (List.suffix_cons c s)
  have hclosed {t : List UInt8} (ht : t <:+ c :: s) (h : close t = some (value, rest)) :
      value = container ∧ rest <:+ c :: s := by
    obtain ⟨hvalue, hskip⟩ := (hclose _ _ _).mp h
    have hrest : rest <:+ skipWhitespaces t := by
      rw [hskip]
      exact List.suffix_cons _ _
    exact ⟨hvalue, (hrest.trans (List.dropWhile_suffix _)).trans ht⟩
  unfold behindValue at h
  split_ifs at h
  · exact Or.inl (hclosed hnext h)
  · exact Or.inr ⟨_, hnext, h⟩
  · exact Or.inl (hclosed List.suffix_rfl h)

section Rounds

variable {parse : Parser N} {items : List (JsonValue N)} {object object' : JsonObject (JsonValue N)}
  {value new : JsonValue N} {w string rest s : List UInt8} {c : UInt8} {fuel : ℕ}

/-! ## Arrays -/

theorem closes_array (items : List (JsonValue N)) :
    Closes 93 (.array items) (closeArray items) := by
  intro s value' rest
  unfold closeArray
  simp only
  rcases skipWhitespaces s with _ | ⟨c, t⟩
  · simp
  · rw [List.head?_cons, List.tail_cons]
    split_ifs with hc
    · simp_all [eq_comm]
    · simp_all

theorem arrayLoop_step (hne : string ≠ []) (hnew : parse string = some (new, w ++ c :: s))
    (hw : Blank w) (hc : isspace c = false) :
    arrayLoop parse (fuel + 1) items string =
      behindValue 93 (closeArray (items ++ [new])) (arrayLoop parse fuel (items ++ [new])) c s := by
  rw [arrayLoop, if_neg hne, hnew, Option.bind_eq_bind, Option.bind_some]
  simp only [skipWhitespaces_blank hw, skipWhitespaces_cons hc, List.head?_cons, List.tail_cons,
    Option.some.injEq, behindValue]

/-- What a round of the loop has read if the array is read to its end. -/
theorem arrayLoop_round (h : arrayLoop parse (fuel + 1) items string = some (value, rest)) :
    string ≠ [] ∧ ∃ new w c s, parse string = some (new, w ++ c :: s) ∧ Blank w ∧
      isspace c = false := by
  by_cases hne : string = []
  · rw [hne, arrayLoop, if_pos rfl] at h
    cases ((closes_array _ _ _ _).mp h).2
  rw [arrayLoop, if_neg hne] at h
  obtain ⟨⟨new, tail⟩, hnew, h⟩ := Option.bind_eq_some_iff.mp h
  obtain ⟨w, hw, htail⟩ := exists_blank tail
  cases hskip : skipWhitespaces tail with
  | nil =>
    simp only [hskip, List.head?_nil, reduceCtorEq, if_false] at h
    cases ((closes_array _ _ _ _).mp h).2
  | cons c s =>
    rw [hskip] at htail
    exact ⟨hne, new, w, c, s, htail ▸ hnew, hw, isspace_of_skip hskip⟩

/-! ## Objects -/

theorem closes_object (object : JsonObject (JsonValue N)) :
    Closes 125 (.object object) (closeObject object) := by
  intro s value' rest
  unfold closeObject
  simp only
  rcases skipWhitespaces s with _ | ⟨c, t⟩
  · simp
  · rw [List.head?_cons, List.tail_cons]
    split_ifs with hc
    · simp_all [eq_comm]
    · simp_all

theorem objectLoop_step {key w' t : List UInt8} (hne : string ≠ [])
    (hkey : getQuotedString string = some (key, w' ++ 58 :: t)) (hw' : Blank w')
    (hnul : key.length = (CString.ofBytes key).length)
    (hnew : parse t = some (new, w ++ c :: s)) (hw : Blank w) (hc : isspace c = false)
    (hadd : jsonObjectAdd object key new = some (object', .success)) :
    objectLoop parse (fuel + 1) object string =
      behindValue 125 (closeObject object') (objectLoop parse fuel object') c s := by
  have hcolon := skipWhitespaces_cons (c := 58) rfl t
  rw [objectLoop, if_neg hne, hkey, Option.bind_eq_bind, Option.bind_some]
  simp only [← hnul, skipWhitespaces_blank hw', hcolon, List.head?_cons, List.tail_cons, hnew, hadd,
    ne_eq, not_true_eq_false, if_false, Option.bind_eq_bind, Option.bind_some,
    skipWhitespaces_blank hw, skipWhitespaces_cons hc, Option.some.injEq, behindValue]

/-- A member that has been added is the last one. -/
theorem entries_of_add {key : List UInt8} (hobject : object.Inv)
    (hadd : jsonObjectAdd object key new = some (object', .success)) :
    object'.Inv ∧ object'.entries = object.entries ++ [(key, new)] := by
  rcases jsonObjectAdd_spec hobject key new with ⟨-, hfail⟩ | ⟨-, -, hnone⟩ |
    ⟨-, -, added, hadded, hinv, hentries⟩
  · rw [hadd] at hfail
    cases hfail
  · rw [hadd] at hnone
    cases hnone
  · rw [hadd] at hadded
    cases hadded
    exact ⟨hinv, hentries⟩

/-- What a round of the loop has read if the object is read to its end. -/
theorem objectLoop_round (h : objectLoop parse (fuel + 1) object string = some (value, rest)) :
    string ≠ [] ∧ ∃ key w' t new w c s object',
      getQuotedString string = some (key, w' ++ 58 :: t) ∧ Blank w' ∧
      key.length = (CString.ofBytes key).length ∧
      parse t = some (new, w ++ c :: s) ∧ Blank w ∧ isspace c = false ∧
      jsonObjectAdd object key new = some (object', .success) := by
  by_cases hne : string = []
  · rw [hne, objectLoop, if_pos rfl] at h
    cases ((closes_object _ _ _ _).mp h).2
  rw [objectLoop, if_neg hne] at h
  obtain ⟨⟨key, tail⟩, hkey, h⟩ := Option.bind_eq_some_iff.mp h
  obtain ⟨w', hw', htail⟩ := exists_blank tail
  simp only at h
  split_ifs at h with hnul hcolon
  rw [not_not] at hnul hcolon
  rw [List.eq_cons_of_mem_head? hcolon] at htail
  obtain ⟨⟨new, tail'⟩, hnew, h⟩ := Option.bind_eq_some_iff.mp h
  obtain ⟨⟨object', status⟩, hadd, h⟩ := Option.bind_eq_some_iff.mp h
  obtain ⟨w, hw, htail'⟩ := exists_blank tail'
  cases status with
  | failure => cases h
  | success =>
    cases hskip : skipWhitespaces tail' with
    | nil =>
      simp only [hskip, List.head?_nil, reduceCtorEq, if_false] at h
      cases ((closes_object _ _ _ _).mp h).2
    | cons c s =>
      rw [hskip] at htail'
      exact ⟨hne, key, w', _, new, w, c, s, object', htail ▸ hkey, hw', hnul, htail' ▸ hnew, hw,
        isspace_of_skip hskip, hadd⟩

end Rounds

end CDevHws.Hw08
