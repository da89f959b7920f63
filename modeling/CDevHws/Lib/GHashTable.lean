import Mathlib.Data.Finmap

/-!
# glib's `GHashTable` as a finite map

A hash table is a finite map: at most one value for each key. Lookup and insertion are those of
`Finmap`; this file adds the callback-driven removal and the iteration order, which glib leaves
open.
-/

/-- A hash table with keys `K` and values `V`. -/
abbrev GHashTable (K V : Type*) := Finmap (fun _ : K => V)

namespace GHashTable

variable {K V : Type*}

/-- What a callback `f` that may change the value in place and answers whether the entry is to go
leaves of an entry. -/
def keep (f : K → V → Bool × V) (e : Σ _ : K, V) : Option (Σ _ : K, V) :=
  match f e.1 e.2 with
  | (true, _) => none
  | (false, v) => some ⟨e.1, v⟩

theorem keep_eq_some_iff {f : K → V → Bool × V} {e e' : Σ _ : K, V} :
    keep f e = some e' ↔ e.1 = e'.1 ∧ f e.1 e.2 = (false, e'.2) := by
  obtain ⟨k, v⟩ := e
  obtain ⟨k', v'⟩ := e'
  unfold keep
  rcases hf : f k v with ⟨b, w⟩
  cases b with
  | true => simp
  | false =>
    simp only [Option.some.injEq, Sigma.mk.injEq, heq_eq_eq, Prod.mk.injEq, true_and]

/-- The keys that remain are keys of the table, so they stay distinct. -/
theorem nodupKeys_filterMap_keep (f : K → V → Bool × V) {m : Multiset (Σ _ : K, V)}
    (h : m.NodupKeys) : (m.filterMap (keep f)).NodupKeys := by
  induction m using Quotient.inductionOn with
  | _ l =>
    have hl : l.NodupKeys := h
    show (l.filterMap (keep f)).NodupKeys
    induction l with
    | nil => simp
    | cons e l ih =>
      obtain ⟨hk, hn⟩ := List.nodupKeys_cons.mp hl
      rw [List.filterMap_cons]
      cases he : keep f e with
      | none => exact ih hn hn
      | some e' =>
        refine List.nodupKeys_cons.mpr ⟨?_, ih hn hn⟩
        intro hmem
        obtain ⟨v, hv⟩ := List.exists_of_mem_keys hmem
        obtain ⟨e2, he2, hke2⟩ := List.mem_filterMap.mp hv
        apply hk
        rw [(keep_eq_some_iff.mp he).1, ← (keep_eq_some_iff.mp hke2).1]
        exact List.mem_keys_of_mem he2

/-- `g_hash_table_foreach_remove`: the callback runs once on every entry. -/
def foreachRemove (t : GHashTable K V) (f : K → V → Bool × V) : GHashTable K V :=
  ⟨t.entries.filterMap (keep f), nodupKeys_filterMap_keep f t.nodupKeys⟩

/-- Removal by callback, key by key. -/
theorem lookup_foreachRemove [DecidableEq K] (t : GHashTable K V) (f : K → V → Bool × V) (k : K) :
    (t.foreachRemove f).lookup k =
      (t.lookup k).bind fun v => if (f k v).1 then none else some (f k v).2 := by
  ext w
  rw [Finmap.lookup_eq_some_iff]
  simp only [foreachRemove, Multiset.mem_filterMap, keep_eq_some_iff, Option.bind_eq_some_iff,
    Finmap.lookup_eq_some_iff]
  constructor
  · rintro ⟨⟨k', v⟩, hmem, hk, hf⟩
    cases hk
    exact ⟨v, hmem, by simp_all⟩
  · rintro ⟨v, hmem, hf⟩
    refine ⟨⟨k, v⟩, hmem, rfl, ?_⟩
    rcases hfv : f k v with ⟨b, v'⟩
    rw [hfv] at hf
    cases b with
    | true => simp at hf
    | false => simpa using hf

/-- `iter` is an order in which `g_hash_table_iter_next` may deliver the entries of `t`: every entry
once. -/
def Enumerates (iter : List (Σ _ : K, V)) (t : GHashTable K V) : Prop :=
  (iter : Multiset (Σ _ : K, V)) = t.entries

theorem exists_enumerates (t : GHashTable K V) : ∃ iter, Enumerates iter t :=
  ⟨t.entries.toList, t.entries.coe_toList⟩

theorem Enumerates.mem_iff [DecidableEq K] {iter : List (Σ _ : K, V)} {t : GHashTable K V}
    (h : Enumerates iter t) (k : K) (v : V) : ⟨k, v⟩ ∈ iter ↔ t.lookup k = some v := by
  rw [Finmap.lookup_eq_some_iff, ← h, Multiset.mem_coe]

theorem Enumerates.nodupKeys {iter : List (Σ _ : K, V)} {t : GHashTable K V}
    (h : Enumerates iter t) : iter.NodupKeys := by
  have hn := t.nodupKeys
  rw [← h] at hn
  exact hn

end GHashTable
