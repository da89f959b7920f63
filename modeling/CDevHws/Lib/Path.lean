import Mathlib.Data.List.Infix

/-!
# Paths that stay inside a directory

A path is a list of bytes. It is confined if it is relative and, read component by component, never
leaves the directory in which it starts: no beginning of it has more ".." than ordinary names. The
bytes can be checked one by one, with the depth reached so far and the kind of the component that
has begun.
-/

namespace Path

/-- The components between the slashes. -/
def components (path : List UInt8) : List (List UInt8) := path.splitOnP (· == 47)

/-- The component "..". -/
def parent : List UInt8 := [46, 46]

/-- A component that names an entry of the directory: neither empty nor "." nor "..". -/
def Ordinary (name : List UInt8) : Prop := name ≠ [] ∧ name ≠ [46] ∧ name ≠ parent

instance : DecidablePred Ordinary := fun _ => inferInstanceAs (Decidable (_ ∧ _ ∧ _))

/-- A path below the depth `depth` never goes above depth 0. -/
def StaysBelow (depth : ℕ) (names : List (List UInt8)) : Prop :=
  ∀ front, front <+: names → front.count parent ≤ depth + front.countP Ordinary

/-- The path is relative and stays inside the directory. -/
def Confined (path : List UInt8) : Prop :=
  path.head? ≠ some 47 ∧ StaysBelow 0 (components path)

/-! ## The scanner -/

/-- The kind of the component so far. -/
inductive Part where
  /-- Nothing yet. -/
  | empty
  /-- ".". -/
  | dot
  /-- "..". -/
  | dotdot
  /-- Anything else. -/
  | name
deriving DecidableEq

/-- One more byte of a component. -/
def Part.push : Part → UInt8 → Part
  | .empty, c => if c = 46 then .dot else .name
  | .dot, c => if c = 46 then .dotdot else .name
  | _, _ => .name

/-- The depth after a component, if it does not lead out. -/
def Part.leave (depth : ℕ) : Part → Option ℕ
  | .dotdot => if depth = 0 then none else some (depth - 1)
  | .name => some (depth + 1)
  | _ => some depth

/-- Scan the bytes, with the depth before the current component and its kind so far. -/
def scan (depth : ℕ) (part : Part) : List UInt8 → Bool
  | [] => (part.leave depth).isSome
  | c :: rest =>
    if c = 47 then
      match part.leave depth with
      | none => false
      | some depth => scan depth .empty rest
    else scan depth (part.push c) rest

/-- The kind of a component. -/
def partOf (name : List UInt8) : Part := name.foldl Part.push .empty

theorem foldl_push_name (name : List UInt8) : name.foldl Part.push .name = .name := by
  induction name with
  | nil => rfl
  | cons c name ih => exact ih

theorem foldl_push_dotdot (name : List UInt8) :
    name.foldl Part.push .dotdot = if name = [] then .dotdot else .name := by
  cases name with
  | nil => rfl
  | cons c name => exact foldl_push_name name

theorem partOf_eq (name : List UInt8) : partOf name =
    if name = [] then .empty else if name = [46] then .dot
    else if name = parent then .dotdot else .name := by
  unfold partOf parent
  rcases name with _ | ⟨c, _ | ⟨d, name⟩⟩
  · rfl
  · by_cases hc : c = 46
    · simp [Part.push, hc]
    · simp [Part.push, hc]
  · by_cases hc : c = 46
    · by_cases hd : d = 46
      · simp [Part.push, hc, hd, foldl_push_dotdot]
      · simp [Part.push, hc, hd, foldl_push_name]
    · simp [Part.push, hc, foldl_push_name]

theorem partOf_append_singleton (name : List UInt8) (c : UInt8) :
    partOf (name ++ [c]) = (partOf name).push c := by
  unfold partOf
  rw [List.foldl_append]
  rfl

/-- What a component does to the depth. -/
theorem leave_partOf (name : List UInt8) (depth : ℕ) : (partOf name).leave depth =
    if name = parent then (if depth = 0 then none else some (depth - 1))
    else if Ordinary name then some (depth + 1) else some depth := by
  rw [partOf_eq]
  by_cases hparent : name = parent
  · have hempty : name ≠ [] := by rw [hparent]; exact List.cons_ne_nil _ _
    have hdot : name ≠ [46] := by rw [hparent]; exact fun h => by cases h
    rw [if_neg hempty, if_neg hdot, if_pos hparent, if_pos hparent]
    rfl
  · rw [if_neg hparent, if_neg hparent]
    by_cases hempty : name = []
    · have hord : ¬ Ordinary name := fun h => h.1 hempty
      rw [if_pos hempty, if_neg hord]
      rfl
    · by_cases hdot : name = [46]
      · have hord : ¬ Ordinary name := fun h => h.2.1 hdot
        rw [if_neg hempty, if_pos hdot, if_neg hord]
        rfl
      · have hord : Ordinary name := ⟨hempty, hdot, hparent⟩
        rw [if_neg hempty, if_neg hdot, if_pos hord]
        rfl

theorem staysBelow_cons_iff {depth : ℕ} {name : List UInt8} {names : List (List UInt8)} :
    StaysBelow depth (name :: names) ↔ ∀ front, front <+: names →
      front.count parent + (if name = parent then 1 else 0) ≤
        depth + (front.countP Ordinary + if Ordinary name then 1 else 0) := by
  constructor
  · intro h front hfront
    have hcons := h (name :: front) (List.cons_prefix_cons.mpr ⟨rfl, hfront⟩)
    rw [List.count_cons, List.countP_cons] at hcons
    simpa using hcons
  · intro h front hfront
    rcases List.prefix_cons_iff.mp hfront with rfl | ⟨front', rfl, hfront'⟩
    · exact Nat.zero_le _
    · have hrest := h front' hfront'
      rw [List.count_cons, List.countP_cons]
      simpa using hrest

/-- One component more in front. -/
theorem staysBelow_cons {depth : ℕ} {name : List UInt8} {names : List (List UInt8)} :
    StaysBelow depth (name :: names) ↔
      ∃ depth', (partOf name).leave depth = some depth' ∧ StaysBelow depth' names := by
  rw [staysBelow_cons_iff, leave_partOf]
  by_cases hparent : name = parent
  · have hord : ¬ Ordinary name := fun h => h.2.2 hparent
    simp only [if_pos hparent, if_neg hord]
    by_cases hdepth : depth = 0
    · -- the beginning that consists of this component alone leads out
      rw [if_pos hdepth]
      constructor
      · intro h
        have hone := h [] List.nil_prefix
        rw [hdepth] at hone
        simp at hone
      · rintro ⟨depth', h, -⟩
        cases h
    · rw [if_neg hdepth]
      constructor
      · intro h
        refine ⟨depth - 1, rfl, fun front hfront => ?_⟩
        have hle := h front hfront
        omega
      · rintro ⟨depth', h, hstays⟩ front hfront
        have hle := hstays front hfront
        have hd := Option.some.inj h
        omega
  · simp only [if_neg hparent]
    by_cases hord : Ordinary name
    · simp only [if_pos hord]
      constructor
      · intro h
        refine ⟨depth + 1, rfl, fun front hfront => ?_⟩
        have hle := h front hfront
        omega
      · rintro ⟨depth', h, hstays⟩ front hfront
        have hle := hstays front hfront
        have hd := Option.some.inj h
        omega
    · simp only [if_neg hord]
      constructor
      · exact fun h => ⟨depth, rfl, h⟩
      · rintro ⟨depth', h, hstays⟩
        rw [Option.some.inj h]
        exact hstays

theorem staysBelow_nil (depth : ℕ) : StaysBelow depth [] := by
  intro front hfront
  rw [List.prefix_nil.mp hfront]
  exact Nat.zero_le _

/-- The scanner is right, whatever has been read of the current component. -/
theorem scan_iff (rest : List UInt8) {name : List UInt8} (hname : 47 ∉ name) (depth : ℕ) :
    scan depth (partOf name) rest = true ↔ StaysBelow depth (components (name ++ rest)) := by
  have hno : ∀ c ∈ name, (c == 47) = false := fun c hc => by
    rw [beq_eq_false_iff_ne]
    exact fun heq => hname (heq ▸ hc)
  unfold components
  induction rest generalizing name depth with
  | nil =>
    rw [List.append_nil, List.splitOnP_eq_singleton hno, staysBelow_cons]
    unfold scan
    cases hleave : (partOf name).leave depth with
    | none => simp
    | some depth' => simp [staysBelow_nil]
  | cons c rest ih =>
    unfold scan
    by_cases hc : c = 47
    · rw [if_pos hc, hc, List.splitOnP_append_cons_of_forall_mem hno 47 rfl, staysBelow_cons]
      cases hleave : (partOf name).leave depth with
      | none => simp
      | some depth' =>
        simp only [Option.some.injEq, exists_eq_left']
        exact ih List.not_mem_nil depth' (fun _ h => absurd h List.not_mem_nil)
    · have hname' : 47 ∉ name ++ [c] := by
        rw [List.mem_append, List.mem_singleton]
        exact not_or.mpr ⟨hname, Ne.symm hc⟩
      have hno' : ∀ c' ∈ name ++ [c], (c' == 47) = false := fun c' hc' => by
        rw [beq_eq_false_iff_ne]
        exact fun heq => hname' (heq ▸ hc')
      have hrest := ih hname' depth hno'
      rw [List.append_assoc, partOf_append_singleton] at hrest
      rw [if_neg hc]
      exact hrest

/-- A path is confined if and only if it does not start with a slash and the scanner accepts it. -/
theorem confined_iff (path : List UInt8) :
    Confined path ↔ path.head? ≠ some 47 ∧ scan 0 .empty path = true := by
  unfold Confined
  rw [← List.nil_append (components path), List.nil_append]
  exact and_congr_right fun _ => (scan_iff path (List.not_mem_nil) 0).symm

end Path
