import Mathlib.Logic.Basic

/-!
# Outcomes of computations that can fail

A computation of type `Except ε α` meets a postcondition if it returns a value with it, or else
fails in a way that is allowed. The rules below follow the structure of the computation.
-/

namespace Outcome

universe u v

variable {ε : Type u} {α β : Type v}

/-- `x` returns a value with `post`, or it fails with an error that `fail` allows. -/
def Meets (x : Except ε α) (fail : ε → Prop) (post : α → Prop) : Prop :=
  match x with
  | .ok a => post a
  | .error e => fail e

@[simp] theorem meets_ok {a : α} {fail : ε → Prop} {post : α → Prop} :
    Meets (.ok a : Except ε α) fail post ↔ post a := Iff.rfl

@[simp] theorem meets_pure {a : α} {fail : ε → Prop} {post : α → Prop} :
    Meets (pure a : Except ε α) fail post ↔ post a := Iff.rfl

/-- The rule of consequence. -/
theorem Meets.mono {x : Except ε α} {fail fail' : ε → Prop} {post post' : α → Prop}
    (h : Meets x fail post) (hfail : ∀ e, fail e → fail' e) (hpost : ∀ a, post a → post' a) :
    Meets x fail' post' := by
  cases x with
  | ok a => exact hpost a h
  | error e => exact hfail e h

/-- A computation that cannot fail meets its postcondition whatever failures are allowed. -/
theorem Meets.of_never {x : Except ε α} {post : α → Prop} (h : Meets x (fun _ => False) post)
    (fail : ε → Prop) : Meets x fail post :=
  h.mono (fun _ => False.elim) fun _ h => h

/-- The rule of sequence. -/
theorem Meets.bind {x : Except ε α} {f : α → Except ε β} {fail : ε → Prop} {mid : α → Prop}
    {post : β → Prop} (h : Meets x fail mid) (hf : ∀ a, mid a → Meets (f a) fail post) :
    Meets (x >>= f) fail post := by
  cases x with
  | ok a => exact hf a h
  | error e => exact h

/-- A computation that is known to return can be replaced by its value. -/
theorem meets_bind_of_eq {x : Except ε α} {a : α} (hx : x = .ok a) {f : α → Except ε β}
    {fail : ε → Prop} {post : β → Prop} (h : Meets (f a) fail post) :
    Meets (x >>= f) fail post := by
  rw [hx]
  exact h

/-- A sequence that returns has a first part that returns. -/
theorem exists_of_bind_eq_ok {x : Except ε α} {f : α → Except ε β} {b : β}
    (h : x >>= f = .ok b) : ∃ a, x = .ok a ∧ f a = .ok b := by
  cases x with
  | ok a => exact ⟨a, rfl, h⟩
  | error e => cases h

/-- The rule of a fold: what every step preserves holds at the end. -/
theorem meets_foldlM {f : β → α → Except ε β} {fail : ε → Prop} {inv : β → Prop} {l : List α}
    (hf : ∀ b, inv b → ∀ a ∈ l, Meets (f b a) fail inv) {b : β} (hb : inv b) :
    Meets (l.foldlM f b) fail inv := by
  induction l generalizing b with
  | nil => exact hb
  | cons a l ih =>
    rw [List.foldlM_cons]
    refine Meets.bind (hf b hb a List.mem_cons_self) fun b' hb' => ?_
    exact ih (fun b hb a ha => hf b hb a (List.mem_cons_of_mem _ ha)) hb'

theorem Meets.of_ok {x : Except ε α} {fail : ε → Prop} {post : α → Prop}
    (h : Meets x fail post) {a : α} (hx : x = .ok a) : post a := by
  rw [hx] at h
  exact h

theorem Meets.of_error {x : Except ε α} {fail : ε → Prop} {post : α → Prop}
    (h : Meets x fail post) {e : ε} (hx : x = .error e) : fail e := by
  rw [hx] at h
  exact h

theorem meets_of_forall_ok {x : Except ε α} {post : α → Prop} (h : ∀ a, x = .ok a → post a) :
    Meets x (fun _ => True) post := by
  cases x with
  | ok a => exact h a rfl
  | error e => trivial

/-- The rule of conjunction. -/
theorem Meets.and {x : Except ε α} {fail fail' : ε → Prop} {post post' : α → Prop}
    (h : Meets x fail post) (h' : Meets x fail' post') :
    Meets x (fun e => fail e ∧ fail' e) fun a => post a ∧ post' a := by
  cases x with
  | ok a => exact ⟨h, h'⟩
  | error e => exact ⟨h, h'⟩

/-- A computation with no allowed failure returns. -/
theorem Meets.exists_ok {x : Except ε α} {post : α → Prop}
    (h : Meets x (fun _ => False) post) : ∃ a, x = .ok a ∧ post a := by
  cases x with
  | ok a => exact ⟨a, rfl, h⟩
  | error e => exact h.elim

end Outcome
