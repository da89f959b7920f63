import CDevHws.Hw32.Dbstat
import Mathlib.Algebra.BigOperators.Group.List.Basic
import Mathlib.Data.List.Induction

/-!
# Proofs: the variance of a column

The array has one element for each number of the column, but `get_disp` is called for each row. So
the two fit together only if there is no NULL; and the index of the array is an `unsigned int`, so
the elements from 2^32 on are never written.
-/

namespace CDevHws.Hw32

open Outcome (Meets)

/-- The mean of the squares of the distances from the mean. -/
def variance (xs : List ℚ) : ℚ :=
  (xs.map fun x => (x - xs.sum / xs.length) ^ 2).sum / xs.length

variable {rangeError : ℚ → Bool} {sqlite : Query → Exec} {column : List (Option ℚ)}

/-! ## The callbacks -/

section

variable {σ : Type} {callback : σ → Row → Except Fault (σ × Bool)} {data data' : σ} {call : Exec}

theorem exec_of_ok (hok : call.ok) : exec callback data call =
    call.rows.foldlM (fun data argv => Prod.fst <$> callback data argv) data := by
  unfold exec
  simp only [if_pos hok]
  exact bind_pure _

/-- If a query gets `main` any further, it has succeeded. -/
theorem ok_of_exec (h : exec callback data call = .ok data') : call.ok := by
  obtain ⟨data', -, hres⟩ := Outcome.exists_of_bind_eq_ok h
  by_contra hok
  rw [if_neg hok] at hres
  cases hres

end

theorem exec_getDouble {call : Exec} {x : ℚ} (hok : call.ok) (hrows : call.rows = [[some x]]) :
    exec (getDouble rangeError) none call = .ok (some x) := by
  rw [exec_of_ok hok, hrows]
  rfl

theorem exec_getLong {call : Exec} {n : ℕ} (hn : n < 2 ^ 63) (hok : call.ok)
    (hrows : call.rows = [[some (n : ℚ)]]) : exec getLong none call = .ok (some (n : ℤ)) := by
  have hlow : ¬ (n : ℤ) < -2 ^ 63 := by omega
  have hhigh : ¬ 2 ^ 63 ≤ (n : ℤ) := by omega
  have hlong : strtol (some (n : ℚ)) = .ok (n, false) := by
    simp only [strtol]
    rw [Rat.num_natCast, if_neg hlow, if_neg hhigh]
  rw [exec_of_ok hok, hrows]
  show (Prod.fst <$> (strtol (some (n : ℚ)) >>= fun _ => _)) >>= pure = _
  rw [hlong]
  rfl

theorem getDisp_number {array : ArrayT} (h : array.n.toNat < array.values.length) {x : ℚ}
    (hx : rangeError x = false) : Prod.fst <$> getDisp rangeError array [some x] =
      .ok ⟨array.n + 1, array.values.set array.n.toNat (some x)⟩ := by
  have hval : getVal rangeError [some x] 1 none = .ok (some x, true) := by
    show (if rangeError x then _ else _) = _
    rw [hx]
    rfl
  show Prod.fst <$> (getVal rangeError [some x] 1 none >>= fun _ => _) = _
  rw [hval]
  show Prod.fst <$> (if array.n.toNat < array.values.length then _ else _) = _
  rw [if_pos h]
  rfl

/-- One more number in the array. -/
theorem getDisp_fill {xs : List ℚ} {size : ℕ} (hlen : xs.length < size)
    (hsize : xs.length < 2 ^ 32) {x : ℚ} (hx : rangeError x = false) :
    Prod.fst <$> getDisp rangeError
      ⟨UInt32.ofNat xs.length, xs.map some ++ List.replicate (size - xs.length) none⟩ [some x] =
      .ok ⟨UInt32.ofNat (xs ++ [x]).length, (xs ++ [x]).map some ++
        List.replicate (size - (xs ++ [x]).length) none⟩ := by
  have hindex : (UInt32.ofNat xs.length).toNat = xs.length := UInt32.toNat_ofNat_of_lt' hsize
  obtain ⟨k, hk⟩ : ∃ k, size - xs.length = k + 1 := ⟨size - xs.length - 1, by omega⟩
  have hnext : size - (xs ++ [x]).length = k := by
    rw [List.length_append, List.length_singleton]
    omega
  rw [getDisp_number _ hx, hindex, hnext, hk]
  · have hset : (xs.map some ++ List.replicate (k + 1) none).set xs.length (some x) =
        (xs ++ [x]).map some ++ List.replicate k none := by
      rw [List.set_append_right _ _ (by rw [List.length_map]), List.length_map, Nat.sub_self,
        List.replicate_succ, List.set_cons_zero, List.map_append, List.append_assoc]
      rfl
    rw [hset, List.length_append, List.length_singleton, UInt32.ofNat_add]
    rfl
  · rw [hindex, List.length_append, List.length_map, List.length_replicate]
    omega

/-- The rows of a column. -/
theorem map_rows_append (xs : List ℚ) (x : ℚ) :
    ((xs ++ [x]).map some).map (fun x => [x]) = (xs.map some).map (fun x => [x]) ++ [[some x]] := by
  rw [List.map_append, List.map_append]
  rfl

/-- The array after the rows of a column without NULL. -/
theorem foldlM_getDisp {xs : List ℚ} {size : ℕ} (hlen : xs.length ≤ size)
    (hsize : xs.length ≤ 2 ^ 32) (hxs : ∀ x ∈ xs, rangeError x = false) :
    ((xs.map some).map fun x => [x]).foldlM
      (fun array argv => Prod.fst <$> getDisp rangeError array argv)
      ⟨0, List.replicate size none⟩ =
      .ok ⟨UInt32.ofNat xs.length, xs.map some ++ List.replicate (size - xs.length) none⟩ := by
  induction xs using List.reverseRecOn with
  | nil => rfl
  | append_singleton xs x ih =>
    rw [List.length_append, List.length_singleton] at hlen hsize
    have hx : rangeError x = false := hxs x (List.mem_append_right xs (List.mem_singleton_self x))
    have hxs' : ∀ y ∈ xs, rangeError y = false := fun y hy => hxs y (List.mem_append_left [x] hy)
    rw [map_rows_append, List.foldlM_append, ih (by omega) (by omega) hxs']
    show (Prod.fst <$> getDisp rangeError _ [some x]) >>= pure = _
    rw [getDisp_fill (by omega) (by omega) hx]
    rfl

/-- A NULL stops the program. -/
theorem foldlM_getDisp_null (hnull : none ∈ column) (array array' : ArrayT) :
    (column.map fun x => [x]).foldlM
      (fun array argv => Prod.fst <$> getDisp rangeError array argv) array ≠ .ok array' := by
  intro h
  obtain ⟨front, back, rfl⟩ := List.append_of_mem hnull
  rw [List.map_append, List.map_cons, List.foldlM_append] at h
  obtain ⟨array₁, -, h⟩ := Outcome.exists_of_bind_eq_ok h
  cases h

/-- The index of the array is an `unsigned int`, so `get_disp` does not write at 2^32. -/
theorem getDisp_keeps {array : ArrayT} (argv : Row)
    (h : ∀ x, array.values[2 ^ 32]? ≠ some (some x)) :
    Meets (Prod.fst <$> getDisp rangeError array argv) (fun _ => True) fun array' =>
      ∀ x, array'.values[2 ^ 32]? ≠ some (some x) := by
  refine Outcome.meets_of_forall_ok fun array' harray' => ?_
  obtain ⟨⟨array₁, success⟩, hdisp, harray₁⟩ := Outcome.exists_of_bind_eq_ok harray'
  cases harray₁
  obtain ⟨⟨val, success⟩, -, hdisp⟩ := Outcome.exists_of_bind_eq_ok hdisp
  cases success with
  | false =>
    cases hdisp
    exact h
  | true =>
    obtain ⟨val, -, hdisp⟩ := Outcome.exists_of_bind_eq_ok hdisp
    by_cases hindex : array.n.toNat < array.values.length
    · rw [if_pos hindex] at hdisp
      cases hdisp
      intro x
      have hne := array.n.toNat_lt
      rw [List.getElem?_set_ne (by omega)]
      exact h x
    · rw [if_neg hindex] at hdisp
      cases hdisp

/-! ## The variance -/

/-- The loop over an array whose elements all have a value. -/
theorem foldlM_addSquare (avg : ℚ) (xs : List ℚ) :
    (List.range xs.length).foldlM (addSquare (xs.map some) avg) 0 =
      .ok (xs.map fun x => (x - avg) ^ 2).sum := by
  have hfront : ∀ n ≤ xs.length, (List.range n).foldlM (addSquare (xs.map some) avg) 0 =
      .ok ((xs.take n).map fun x => (x - avg) ^ 2).sum := by
    intro n hn
    induction n with
    | zero => rfl
    | succ n ih =>
      have helement : (xs.map some)[n]? = some (some xs[n]) := by
        rw [List.getElem?_map, List.getElem?_eq_getElem hn]
        rfl
      rw [List.range_succ, List.foldlM_append, ih (by omega)]
      show addSquare _ avg _ n >>= pure = _
      unfold addSquare
      rw [helement, List.take_succ_eq_append_getElem hn, List.map_append, List.sum_append]
      show Except.ok _ = Except.ok (_ + ([(xs[n] - avg) ^ 2] : List ℚ).sum)
      rw [List.sum_singleton, pow_two]
  have hall := hfront xs.length (le_refl _)
  rw [List.take_length] at hall
  exact hall

/-- The loop needs a value in every element. -/
theorem foldlM_addSquare_none {values : List (Option ℚ)} {avg disp disp' : ℚ} {i n : ℕ}
    (hi : i < n) (hnone : ∀ x, values[i]? ≠ some (some x)) :
    (List.range n).foldlM (addSquare values avg) disp ≠ .ok disp' := by
  intro h
  obtain ⟨front, back, hrange⟩ := List.append_of_mem (List.mem_range.mpr hi)
  rw [hrange, List.foldlM_append] at h
  obtain ⟨disp₁, -, h⟩ := Outcome.exists_of_bind_eq_ok h
  rw [List.foldlM_cons] at h
  obtain ⟨disp₂, h, -⟩ := Outcome.exists_of_bind_eq_ok h
  unfold addSquare at h
  cases hvalue : values[i]? with
  | none =>
    rw [hvalue] at h
    cases h
  | some element =>
    cases element with
    | none =>
      rw [hvalue] at h
      cases h
    | some x => exact hnone x hvalue

/-! ## `main` -/

/-- What has happened in a run that gets through. -/
theorem dbstat_eq_ok {stats : Stats} (h : dbstat rangeError sqlite = .ok stats) :
    (∀ query, (sqlite query).ok) ∧ ∃ colsize array avg disp,
      exec getLong none (sqlite .count) = .ok (some colsize) ∧
      exec (getDisp rangeError) ⟨0, mallocValues colsize⟩ (sqlite .select) = .ok array ∧
      (List.range colsize.toNat).foldlM (addSquare array.values avg) 0 = .ok disp := by
  obtain ⟨avg, havg, h⟩ := Outcome.exists_of_bind_eq_ok h
  obtain ⟨max, hmax, h⟩ := Outcome.exists_of_bind_eq_ok h
  obtain ⟨min, hmin, h⟩ := Outcome.exists_of_bind_eq_ok h
  obtain ⟨sum, hsum, h⟩ := Outcome.exists_of_bind_eq_ok h
  obtain ⟨colsize, hcount, h⟩ := Outcome.exists_of_bind_eq_ok h
  cases colsize with
  | none => cases h
  | some colsize =>
    obtain ⟨array, hselect, h⟩ := Outcome.exists_of_bind_eq_ok h
    obtain ⟨avg, -, h⟩ := Outcome.exists_of_bind_eq_ok h
    obtain ⟨disp, hdisp, -⟩ := Outcome.exists_of_bind_eq_ok h
    refine ⟨fun query => ?_, colsize, array, avg, disp, hcount, hselect, hdisp⟩
    cases query with
    | avg => exact ok_of_exec havg
    | max => exact ok_of_exec hmax
    | min => exact ok_of_exec hmin
    | sum => exact ok_of_exec hsum
    | count => exact ok_of_exec hcount
    | select => exact ok_of_exec hselect

/-- Without NULL, there are as many numbers as rows. -/
theorem map_some_numbers (hnull : none ∉ column) : (numbers column).map some = column := by
  induction column with
  | nil => rfl
  | cons value column ih =>
    cases value with
    | none => exact absurd List.mem_cons_self hnull
    | some x =>
      have hrest := ih fun hmem => hnull (List.mem_cons_of_mem _ hmem)
      show some x :: (numbers column).map some = _
      rw [hrest]

theorem length_numbers (hnull : none ∉ column) : (numbers column).length = column.length := by
  rw [← List.length_map some, map_some_numbers hnull]

/-- The variance of a column without NULL that is not too long. -/
theorem dbstat_of_no_null (hanswers : Answers rangeError sqlite column) (h : numbers column ≠ [])
    (hok : ∀ query, (sqlite query).ok) (hnull : none ∉ column) (hlen : column.length ≤ 2 ^ 32) :
    ∃ stats, dbstat rangeError sqlite = .ok stats ∧ stats.disp = variance (numbers column) := by
  have hlen' : (numbers column).length ≤ 2 ^ 32 := by rwa [length_numbers hnull]
  obtain ⟨max, hmax⟩ := hanswers.max (hok .max) h
  obtain ⟨min, hmin⟩ := hanswers.min (hok .min) h
  obtain ⟨sum, hsum⟩ := hanswers.sum (hok .sum) h
  obtain ⟨hlong, hcount⟩ := hanswers.count (hok .count)
  have hselect := hanswers.select (hok .select)
  have hxs : ∀ x ∈ numbers column, rangeError x = false := by
    intro x hx
    refine hanswers.errno .select (by decide) (hok .select) x ?_
    rw [hselect, ← map_some_numbers hnull]
    exact List.mem_map_of_mem (List.mem_map_of_mem hx)
  have hmalloc : mallocValues (numbers column).length =
      List.replicate (numbers column).length none := by
    unfold mallocValues
    congr 1
    omega
  have hfill := foldlM_getDisp (le_refl (numbers column).length) hlen' hxs
  rw [Nat.sub_self, List.replicate_zero, List.append_nil, map_some_numbers hnull, ← hselect,
    ← hmalloc, ← exec_of_ok (hok .select)] at hfill
  have hsquares := foldlM_addSquare ((numbers column).sum / (numbers column).length)
    (numbers column)
  rw [map_some_numbers hnull] at hsquares
  unfold dbstat
  rw [exec_getDouble (hok .avg) (hanswers.avg (hok .avg) h), exec_getDouble (hok .max) hmax,
    exec_getDouble (hok .min) hmin, exec_getDouble (hok .sum) hsum,
    exec_getLong hlong (hok .count) hcount]
  show ∃ stats, (exec (getDisp rangeError) ⟨0, mallocValues (numbers column).length⟩
    (sqlite .select) >>= fun array => (_ : Except Fault Stats)) = _ ∧ _
  rw [hfill]
  show ∃ stats, ((List.range (numbers column).length).foldlM (addSquare column _) 0 >>=
    fun disp => (_ : Except Fault Stats)) = _ ∧ _
  rw [hsquares]
  exact ⟨_, rfl, rfl⟩

/-- For every column with a number: the program gets through and prints the variance of the numbers
if and only if all queries succeed, there is no NULL in the column, and it has at most 2^32 rows. -/
theorem dbstat_variance_iff (hanswers : Answers rangeError sqlite column)
    (h : numbers column ≠ []) :
    (∃ stats, dbstat rangeError sqlite = .ok stats ∧ stats.disp = variance (numbers column)) ↔
      (∀ query, (sqlite query).ok) ∧ none ∉ column ∧ column.length ≤ 2 ^ 32 := by
  constructor
  · rintro ⟨stats, hstats, -⟩
    obtain ⟨hok, colsize, array, avg, disp, hcount, hselect, hdisp⟩ := dbstat_eq_ok hstats
    rw [exec_of_ok (hok .select), hanswers.select (hok .select)] at hselect
    obtain ⟨hlong, hrows⟩ := hanswers.count (hok .count)
    rw [exec_getLong hlong (hok .count) hrows] at hcount
    cases hcount
    have hnull : none ∉ column := fun hmem => foldlM_getDisp_null hmem _ _ hselect
    refine ⟨hok, hnull, ?_⟩
    by_contra hlen
    rw [← length_numbers hnull, not_le] at hlen
    have hstart : ∀ x, (mallocValues (numbers column).length)[2 ^ 32]? ≠ some (some x) := by
      intro x hx
      have hmem := List.mem_of_getElem? hx
      cases (List.mem_replicate.mp hmem).2
    have hkeeps : ∀ x, array.values[2 ^ 32]? ≠ some (some x) :=
      (Outcome.meets_foldlM (fun array harray argv _ => getDisp_keeps argv harray)
        hstart).of_ok hselect
    exact foldlM_addSquare_none hlen hkeeps hdisp
  · rintro ⟨hok, hnull, hlen⟩
    exact dbstat_of_no_null hanswers h hok hnull hlen

/-- SQLite with a column of a few small integers. -/
def smallColumn (column : List (Option ℚ)) : Query → Exec
  | .avg => ⟨[[some ((numbers column).sum / (numbers column).length)]], true⟩
  | .max => ⟨[[(numbers column).max?]], true⟩
  | .min => ⟨[[(numbers column).min?]], true⟩
  | .sum => ⟨[[some (numbers column).sum]], true⟩
  | .count => ⟨[[some ((numbers column).length : ℚ)]], true⟩
  | .select => ⟨column.map fun x => [x], true⟩

theorem answers_smallColumn (hlen : (numbers column).length < 2 ^ 63) :
    Answers (fun _ => false) (smallColumn column) column where
  avg _ _ := rfl
  max _ h := by
    obtain ⟨x, hx⟩ := Option.ne_none_iff_exists'.mp fun hnone => h (List.max?_eq_none_iff.mp hnone)
    exact ⟨x, congrArg (fun x => [[x]]) hx⟩
  min _ h := by
    obtain ⟨x, hx⟩ := Option.ne_none_iff_exists'.mp fun hnone => h (List.min?_eq_none_iff.mp hnone)
    exact ⟨x, congrArg (fun x => [[x]]) hx⟩
  sum _ _ := ⟨_, rfl⟩
  count _ := ⟨hlen, rfl⟩
  select _ := rfl
  errno _ _ _ _ _ := rfl

/-- A column with the numbers 1, 3 and 8. -/
theorem dbstat_variance_iff_three :
    ∃ stats, dbstat (fun _ => false) (smallColumn [some 1, some 3, some 8]) = .ok stats ∧
      stats.disp = variance (numbers [some 1, some 3, some 8]) := by
  have hanswers := @answers_smallColumn [some 1, some 3, some 8] (by decide)
  refine (dbstat_variance_iff hanswers (List.cons_ne_nil 1 [3, 8])).mpr ⟨?_, by simp, by simp⟩
  rintro ⟨⟩ <;> rfl

/-- With a NULL before a number, `strtod` gets a null pointer. -/
theorem dbstat_null_pointer :
    Answers (fun _ => false) (smallColumn [none, some 1]) [none, some 1] ∧
      numbers [none, some 1] = [1] ∧
      dbstat (fun _ => false) (smallColumn [none, some 1]) = .error .nullPointer :=
  ⟨answers_smallColumn (by decide), rfl, rfl⟩

end CDevHws.Hw32
