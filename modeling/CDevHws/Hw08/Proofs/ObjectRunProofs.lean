import CDevHws.Hw08.Proofs.ObjectRemoveProofs
import Mathlib.Data.Set.Card

/-!
# Proofs: an object is a map

What an object is for: a map from names to values. Whatever is done with an object from its start
on, it returns what the map would return, never leaves its arrays, and holds each name once, as long
as there are not more names than an object can hold.
-/

namespace CDevHws.Hw08

variable {V : Type}

/-! ## Maps -/

/-- A map from names to values. -/
abbrev NameMap (V : Type) := List UInt8 → Option V

namespace NameMap

/-- The map with a name bound to a value. -/
def bind (m : NameMap V) (name : List UInt8) (value : V) : NameMap V :=
  fun key => if key = name then some value else m key

/-- The map without a name. -/
def unbind (m : NameMap V) (name : List UInt8) : NameMap V :=
  fun key => if key = name then none else m key

/-- What a call means for the map. -/
def call (m : NameMap V) : ObjectCall V → NameMap V × ObjectResult V
  | .getnValue key => (m, .value (m key))
  | .add name value =>
    if (m name).isSome then (m, .status .failure) else (m.bind name value, .status .success)
  | .setValue name value hasParent =>
    if hasParent then (m, .status .failure) else (m.bind name value, .status .success)
  | .remove name =>
    if (m name).isSome then (m.unbind name, .status .success)
    else (m, .status .failure)
  | .clear => (fun _ => none, .status .success)

/-- What a sequence of calls means for the map. -/
def callAll (m : NameMap V) : List (ObjectCall V) → NameMap V × List (ObjectResult V)
  | [] => (m, [])
  | call :: calls => (((m.call call).1.callAll calls).1,
      (m.call call).2 :: ((m.call call).1.callAll calls).2)

/-- The number of names. -/
noncomputable def size (m : NameMap V) : ℕ := {name | m name ≠ none}.ncard

/-- A sequence of calls never makes the map larger than an object can be. -/
def Fits (m : NameMap V) (calls : List (ObjectCall V)) : Prop :=
  ∀ before, before <+: calls → (m.callAll before).1.size ≤ maxItems

theorem fits_nil {m : NameMap V} (h : m.size ≤ maxItems) : m.Fits [] := by
  intro before hbefore
  rw [List.prefix_nil.mp hbefore]
  exact h

theorem fits_cons_iff {m : NameMap V} {call : ObjectCall V} {calls : List (ObjectCall V)}
    (h : m.size ≤ maxItems) : m.Fits (call :: calls) ↔ (m.call call).1.Fits calls := by
  constructor
  · exact fun hfits before hbefore =>
      hfits (call :: before) (List.cons_prefix_cons.mpr ⟨rfl, hbefore⟩)
  · intro hfits before hbefore
    rcases List.prefix_cons_iff.mp hbefore with rfl | ⟨rest, rfl, hrest⟩
    · exact h
    · exact hfits rest hrest

end NameMap

/-! ## Entries as a map -/

/-- The object has the entries of the map. -/
structure Represents (object : JsonObject V) (m : NameMap V) : Prop where
  inv : object.Inv
  mem_iff : ∀ key value, (key, value) ∈ object.entries ↔ m key = some value

section Represents

variable {object object' : JsonObject V} {m : NameMap V} {name : List UInt8} {value : V}

theorem JsonObject.Inv.entries_nodup (h : object.Inv) : (object.entries.map Prod.fst).Nodup := by
  rw [object.entries_keys]
  exact h.names_nodup

theorem JsonObject.Inv.entry_unique (h : object.Inv) {i j : ℕ} {value' : V}
    (hi : object.entries[i]? = some (name, value)) (hj : object.entries[j]? = some (name, value')) :
    i = j := by
  unfold JsonObject.entries at hi hj
  rw [List.getElem?_map, Option.map_eq_some_iff] at hi hj
  obtain ⟨item, hitem, heq⟩ := hi
  obtain ⟨item', hitem', heq'⟩ := hj
  refine h.index_unique hitem hitem' ?_
  exact (congrArg Prod.fst heq).trans (congrArg Prod.fst heq').symm

theorem Represents.lookup (h : Represents object m) (key : List UInt8) :
    object.entries.lookup key = m key := by
  refine Option.ext fun value => ?_
  rw [lookup_eq_some_iff_mem h.inv.entries_nodup, h.mem_iff]

theorem Represents.mem_names (h : Represents object m) :
    name ∈ object.names ↔ (m name).isSome = true := by
  rw [mem_keys_iff, Option.isSome_iff_exists]
  exact exists_congr fun value => h.mem_iff name value

theorem Represents.setOf_eq (h : Represents object m) :
    {name | m name ≠ none} = ↑object.names.toFinset := by
  ext name
  rw [List.coe_toFinset, Set.mem_ofPred_eq, Set.mem_ofPred_eq, h.mem_names,
    Option.isSome_iff_ne_none]

theorem Represents.size (h : Represents object m) : m.size = object.count := by
  unfold NameMap.size
  rw [h.setOf_eq, Set.ncard_coe_finset, List.toFinset_card_of_nodup h.inv.names_nodup]
  exact List.length_map _

theorem Represents.size_le (h : Represents object m) : m.size ≤ maxItems := by
  rw [h.size]
  exact h.inv.count_le

/-- One name more. -/
theorem Represents.size_bind (h : Represents object m) (hname : name ∉ object.names) (value : V) :
    (m.bind name value).size = object.count + 1 := by
  have hinsert : {key | m.bind name value key ≠ none} = insert name {key | m key ≠ none} := by
    ext key
    rw [Set.mem_insert_iff, Set.mem_ofPred_eq, Set.mem_ofPred_eq, NameMap.bind]
    by_cases hkey : key = name
    · rw [if_pos hkey]
      exact iff_of_true (Option.some_ne_none value) (Or.inl hkey)
    · rw [if_neg hkey, or_iff_right hkey]
  have hfinite : {key | m key ≠ none}.Finite := by
    rw [h.setOf_eq]
    exact Finset.finite_toSet _
  have hnot : name ∉ {key | m key ≠ none} := by
    rw [h.setOf_eq]
    exact fun hmem => hname (List.mem_toFinset.mp hmem)
  unfold NameMap.size
  rw [hinsert, Set.ncard_insert_of_notMem hnot hfinite, ← h.size]
  rfl

/-- A new name at the end. -/
theorem Represents.append (h : Represents object m) (hinv : object'.Inv)
    (hname : name ∉ object.names)
    (hentries : object'.entries = object.entries ++ [(name, value)]) :
    Represents object' (m.bind name value) := by
  refine ⟨hinv, ?_⟩
  intro key value'
  rw [hentries, List.mem_append, List.mem_singleton, h.mem_iff, NameMap.bind]
  by_cases hkey : key = name
  · rw [if_pos hkey, hkey]
    have hnone : m name = none := by
      rw [h.mem_names, Bool.not_eq_true, Option.isSome_eq_false_iff, Option.isNone_iff_eq_none]
        at hname
      exact hname
    rw [hnone, Prod.mk.injEq, Option.some.injEq]
    constructor
    · rintro (hfalse | ⟨-, rfl⟩)
      · cases hfalse
      · rfl
    · rintro rfl
      exact Or.inr ⟨rfl, rfl⟩
  · rw [if_neg hkey, Prod.mk.injEq]
    exact ⟨fun hor => hor.resolve_right fun heq => hkey heq.1, Or.inl⟩

/-- Another value for a name that is there. -/
theorem Represents.replace (h : Represents object m) (hinv : object'.Inv) {ix : ℕ} {old : V}
    (hold : object.entries[ix]? = some (name, old))
    (hentries : object'.entries = object.entries.set ix (name, value)) :
    Represents object' (m.bind name value) := by
  have hlt := (List.getElem?_eq_some_iff.mp hold).1
  refine ⟨hinv, ?_⟩
  intro key value'
  rw [NameMap.bind, hentries]
  constructor
  · intro hmem
    obtain ⟨i, hi⟩ := List.mem_iff_getElem?.mp hmem
    by_cases hix : i = ix
    · rw [hix, List.getElem?_set_self hlt] at hi
      cases hi
      rw [if_pos rfl]
    · rw [List.getElem?_set_ne (Ne.symm hix)] at hi
      have hkey : key ≠ name := by
        rintro rfl
        exact hix (h.inv.entry_unique hi hold)
      rw [if_neg hkey]
      exact (h.mem_iff key value').mp (List.mem_of_getElem? hi)
  · intro hbind
    by_cases hkey : key = name
    · rw [if_pos hkey] at hbind
      cases hbind
      rw [hkey]
      exact List.mem_of_getElem? (List.getElem?_set_self hlt)
    · rw [if_neg hkey] at hbind
      obtain ⟨i, hi⟩ := List.mem_iff_getElem?.mp ((h.mem_iff key value').mpr hbind)
      have hix : i ≠ ix := by
        rintro rfl
        rw [hold] at hi
        cases hi
        exact hkey rfl
      exact List.mem_of_getElem? ((List.getElem?_set_ne (Ne.symm hix)).trans hi)

/-- A name less. -/
theorem Represents.remove (h : Represents object m) (hinv : object'.Inv) {ix : ℕ}
    {last : List UInt8 × V} (hix : object.entries[ix]? = some (name, value))
    (hlast : object.entries[object.count - 1]? = some last)
    (hentries : object'.entries = removeSwap object.entries ix last) :
    Represents object' (m.unbind name) := by
  have hlen : object.entries.length = object.count := List.length_map _
  have hlt := (List.getElem?_eq_some_iff.mp hix).1
  refine ⟨hinv, ?_⟩
  intro key value'
  rw [hentries]
  constructor
  · intro hmem
    obtain ⟨i, hi⟩ := List.mem_iff_getElem?.mp hmem
    have hilt := (List.getElem?_eq_some_iff.mp hi).1
    rw [length_removeSwap] at hilt
    rw [getElem?_removeSwap (by omega)] at hi
    -- the entry comes from another index than `ix`
    have hentry : ∃ i', i' ≠ ix ∧ object.entries[i']? = some (key, value') := by
      split_ifs at hi with hii
      · cases hi
        exact ⟨object.count - 1, by omega, hlast⟩
      · exact ⟨i, hii, hi⟩
    obtain ⟨i', hne, hi'⟩ := hentry
    have hkey : key ≠ name := by
      rintro rfl
      exact hne (h.inv.entry_unique hi' hix)
    rw [NameMap.unbind, if_neg hkey]
    exact (h.mem_iff key value').mp (List.mem_of_getElem? hi')
  · intro hsome
    unfold NameMap.unbind at hsome
    split_ifs at hsome with hkey
    obtain ⟨i, hi⟩ := List.mem_iff_getElem?.mp ((h.mem_iff key value').mpr hsome)
    have hilt := (List.getElem?_eq_some_iff.mp hi).1
    have hne : i ≠ ix := by
      rintro rfl
      rw [hix] at hi
      cases hi
      exact hkey rfl
    by_cases hilast : i = object.count - 1
    · rw [hilast, hlast] at hi
      cases hi
      refine List.mem_of_getElem? (i := ix) ?_
      rw [getElem?_removeSwap (by omega), if_pos rfl]
    · refine List.mem_of_getElem? (i := i) ?_
      rw [getElem?_removeSwap (by omega), if_neg hne]
      exact hi

end Represents

/-! ## Calls -/

section Calls

variable {object : JsonObject V} {m : NameMap V} (h : Represents object m)
include h

theorem Represents.add (name : List UInt8) (value : V) :
    ((m name).isSome = true ∧ jsonObjectAdd object name value = some (object, .failure)) ∨
      ((m name).isSome ≠ true ∧ ∃ object', jsonObjectAdd object name value =
        some (object', .success) ∧ Represents object' (m.bind name value)) ∨
      (name ∉ object.names ∧ object.count = maxItems ∧ jsonObjectAdd object name value = none) := by
  rcases jsonObjectAdd_spec h.inv name value with ⟨hmem, hadd⟩ | hfull |
    ⟨hmem, -, object', hadd, hinv, hent⟩
  · exact Or.inl ⟨h.mem_names.mp hmem, hadd⟩
  · exact Or.inr (Or.inr hfull)
  · exact Or.inr (Or.inl ⟨mt h.mem_names.mpr hmem, object', hadd, h.append hinv hmem hent⟩)

theorem Represents.setValue (name : List UInt8) (value : V) :
    (∃ object', jsonObjectSetValue object name value false = some (object', .success) ∧
      Represents object' (m.bind name value)) ∨
    (name ∉ object.names ∧ object.count = maxItems ∧
      jsonObjectSetValue object name value false = none) := by
  rcases jsonObjectSetValue_spec h.inv name value with hfull |
    ⟨object', hset, hinv, ⟨ix, old, hold, hent⟩ | ⟨hmem, hent⟩⟩
  · exact Or.inr hfull
  · exact Or.inl ⟨object', hset, h.replace hinv hold hent⟩
  · exact Or.inl ⟨object', hset, h.append hinv hmem hent⟩

theorem Represents.removed (name : List UInt8) :
    ((m name).isSome ≠ true ∧ jsonObjectRemove object name = some (object, .failure)) ∨
      ((m name).isSome = true ∧ ∃ object', jsonObjectRemove object name =
        some (object', .success) ∧ Represents object' (m.unbind name)) := by
  rcases jsonObjectRemove_spec h.inv name with ⟨hmem, hremove⟩ |
    ⟨ix, value, last, object', hix, hlast, hremove, hinv, hent⟩
  · exact Or.inl ⟨mt h.mem_names.mpr hmem, hremove⟩
  · have hmem : name ∈ object.names := mem_keys_iff.mpr ⟨value, List.mem_of_getElem? hix⟩
    exact Or.inr ⟨h.mem_names.mp hmem, object', hremove, h.remove hinv hix hlast hent⟩

end Calls

theorem represents_empty {object : JsonObject V} (h : object.Inv) (hempty : object.items = []) :
    Represents object fun _ => none := by
  refine ⟨h, fun key value => ?_⟩
  rw [JsonObject.entries, hempty]
  exact ⟨fun hmem => absurd hmem List.not_mem_nil, fun hnone => by cases hnone⟩

/-- A new name is too much for an object with the most items. -/
theorem Represents.size_bind_full {object : JsonObject V} {m : NameMap V} {name : List UInt8}
    (h : Represents object m) (hname : name ∉ object.names) (hmax : object.count = maxItems)
    (value : V) : maxItems < (m.bind name value).size := by
  rw [h.size_bind hname, hmax]
  exact Nat.lt_succ_self _

/-- Every call does to the object what it means for the map, unless the map becomes too large. -/
theorem Represents.call {object : JsonObject V} {m : NameMap V} (h : Represents object m)
    (call : ObjectCall V) :
    (∃ object', object.call call = some (object', (m.call call).2) ∧
      Represents object' (m.call call).1) ∨
    (maxItems < (m.call call).1.size ∧ object.call call = none) := by
  cases call with
  | getnValue key =>
    refine Or.inl ⟨object, ?_, h⟩
    rw [JsonObject.call, jsonObjectGetnValue_spec h.inv, h.lookup]
    rfl
  | add name value =>
    rw [JsonObject.call, NameMap.call]
    rcases h.add name value with ⟨hsome, hadd⟩ | ⟨hsome, object', hadd, h'⟩ | ⟨hmem, hmax, hadd⟩
    · rw [if_pos hsome, hadd]
      exact Or.inl ⟨object, rfl, h⟩
    · rw [if_neg hsome, hadd]
      exact Or.inl ⟨object', rfl, h'⟩
    · rw [if_neg (mt h.mem_names.mpr hmem), hadd]
      exact Or.inr ⟨h.size_bind_full hmem hmax value, rfl⟩
  | setValue name value hasParent =>
    rw [JsonObject.call, NameMap.call]
    cases hasParent with
    | true => exact Or.inl ⟨object, rfl, h⟩
    | false =>
      rw [if_neg Bool.false_ne_true]
      rcases h.setValue name value with ⟨object', hset, h'⟩ | ⟨hmem, hmax, hset⟩
      · rw [hset]
        exact Or.inl ⟨object', rfl, h'⟩
      · rw [hset]
        exact Or.inr ⟨h.size_bind_full hmem hmax value, rfl⟩
  | remove name =>
    rw [JsonObject.call, NameMap.call]
    rcases h.removed name with ⟨hsome, hremove⟩ | ⟨hsome, object', hremove, h'⟩
    · rw [if_neg hsome, hremove]
      exact Or.inl ⟨object, rfl, h⟩
    · rw [if_pos hsome, hremove]
      exact Or.inl ⟨object', rfl, h'⟩
  | clear =>
    have hclear : jsonObjectClear object =
        ⟨List.replicate object.cellCapacity none, [], object.cellCapacity * 7 / 10⟩ := by
      rw [jsonObjectClear, h.inv.itemCapacity]
    refine Or.inl ⟨jsonObjectClear object, rfl, represents_empty ?_ rfl⟩
    rw [hclear]
    exact inv_empty h.inv.capacity h.inv.limit

theorem Represents.callAll {c : List (ObjectCall V)} : ∀ {object : JsonObject V}
    {m : NameMap V}, Represents object m →
      (m.Fits c → ∃ object', object.callAll c = some (object', (m.callAll c).2) ∧
        Represents object' (m.callAll c).1) ∧
      (¬ m.Fits c → object.callAll c = none) := by
  induction c with
  | nil =>
    intro object m h
    exact ⟨fun _ => ⟨object, rfl, h⟩, fun hnot => absurd (NameMap.fits_nil h.size_le) hnot⟩
  | cons call calls ih =>
    intro object m h
    rw [NameMap.fits_cons_iff h.size_le, JsonObject.callAll]
    rcases h.call call with ⟨mid, hcall, hmid⟩ | ⟨hmax, hcall⟩
    · rw [hcall, Option.bind_eq_bind, Option.bind_some]
      obtain ⟨hfits, hnone⟩ := ih hmid
      constructor
      · intro hall
        obtain ⟨object', hcalls, hobject'⟩ := hfits hall
        refine ⟨object', ?_, hobject'⟩
        simp only
        rw [hcalls]
        rfl
      · intro hnot
        simp only
        rw [hnone hnot]
        rfl
    · rw [hcall]
      refine ⟨fun hall => absurd (hall [] List.nil_prefix) (Nat.not_le_of_lt hmax), fun _ => rfl⟩

/-- Whatever is called on a new object, all results are those of a map, no array is left, and at the
end the object holds the map: each name once, with its value. If the map becomes larger than an
object can be, the call that makes it so does not return. -/
theorem object_is_map (calls : List (ObjectCall V)) :
    (NameMap.Fits (fun _ => none) calls →
      ∃ object, (jsonObjectMake V).callAll calls =
          some (object, (NameMap.callAll (fun _ => none) calls).2) ∧
        object.names.Nodup ∧ object.count ≤ object.itemCapacity ∧
        ∀ key value, (key, value) ∈ object.entries ↔
          (NameMap.callAll (fun _ => none) calls).1 key = some value) ∧
    (¬ NameMap.Fits (fun _ => none) calls → (jsonObjectMake V).callAll calls = none) := by
  have hempty : Represents (jsonObjectMake V) fun _ => none := represents_empty inv_make rfl
  obtain ⟨hfits, hnone⟩ := hempty.callAll (c := calls)
  refine ⟨fun hall => ?_, hnone⟩
  obtain ⟨object, hcalls, hobject⟩ := hfits hall
  exact ⟨object, hcalls, hobject.inv.names_nodup, hobject.inv.room, hobject.mem_iff⟩

end CDevHws.Hw08
