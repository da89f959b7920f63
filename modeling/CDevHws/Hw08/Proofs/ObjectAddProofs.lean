import CDevHws.Hw08.Proofs.ObjectProofs

/-!
# Proofs: adding and looking up

The entries of an object are its names and values in order. `json_object_add` puts a new name at
their end and makes the object grow when it is full, `json_object_set_value` also replaces a value,
and `json_object_getn_value` looks a name up.
-/

namespace CDevHws.Hw08

open Probing (visit StopsAt WellProbed)

variable {V : Type}

/-- The names and values, by their index. -/
def JsonObject.entries (object : JsonObject V) : List (List UInt8 × V) :=
  object.items.map fun item => (item.name, item.value)

theorem JsonObject.entries_keys (object : JsonObject V) :
    object.entries.map Prod.fst = object.names := by
  unfold JsonObject.entries JsonObject.names
  rw [List.map_map]
  rfl

theorem mem_keys_iff {object : JsonObject V} {name : List UInt8} :
    name ∈ object.names ↔ ∃ value, (name, value) ∈ object.entries := by
  rw [← object.entries_keys, List.mem_map]
  constructor
  · rintro ⟨⟨k, value⟩, hmem, rfl⟩
    exact ⟨value, hmem⟩
  · rintro ⟨value, hmem⟩
    exact ⟨_, hmem, rfl⟩

section Names

variable {object : JsonObject V}

/-- Two items with the same name are the same. -/
theorem JsonObject.Inv.index_unique (h : object.Inv) {ix ix' : ℕ} {item item' : Item V}
    (hitem : object.items[ix]? = some item) (hitem' : object.items[ix']? = some item')
    (hname : item.name = item'.name) : ix = ix' := by
  have hcell := h.cell_of_item ix item hitem
  have hcell' := h.cell_of_item ix' item' hitem'
  obtain ⟨i, hi, -, -, hkeys⟩ := h.keys_of_cell hcell
  obtain ⟨i', hi', -, -, hkeys'⟩ := h.keys_of_cell hcell'
  obtain rfl : i = item := Option.some.inj (hi.symm.trans hitem)
  obtain rfl : i' = item' := Option.some.inj (hi'.symm.trans hitem')
  rw [← hname] at hkeys'
  have heq := h.probed.unique _ (List.getElem?_eq_some_iff.mp hcell).1 _
    (List.getElem?_eq_some_iff.mp hcell').1 _ hkeys hkeys'
  rw [heq, hcell'] at hcell
  exact (Option.some.inj (Option.some.inj hcell)).symm

theorem JsonObject.Inv.names_nodup (h : object.Inv) : object.names.Nodup := by
  rw [List.nodup_iff_injective_get]
  intro a b heq
  have hget : ∀ c : Fin object.names.length, ∃ item, object.items[c.val]? = some item ∧
      item.name = object.names.get c := by
    intro c
    have hc : object.names[c.val]? = some (object.names.get c) := List.getElem?_eq_getElem c.isLt
    unfold JsonObject.names at hc
    rw [List.getElem?_map, Option.map_eq_some_iff] at hc
    exact hc
  obtain ⟨item, hitem, hname⟩ := hget a
  obtain ⟨item', hitem', hname'⟩ := hget b
  exact Fin.ext (h.index_unique hitem hitem' (by rw [hname, hname', heq]))

end Names

/-! ## A new object -/

/-- An object without items. -/
theorem inv_empty {capacity : ℕ} (h : capacity = 0 ∨ ∃ e, capacity = startingCapacity * 2 ^ e)
    (hlimit : capacity < 2 ^ 32) :
    (⟨List.replicate capacity none, [], capacity * 7 / 10⟩ : JsonObject V).Inv := by
  set object : JsonObject V := ⟨List.replicate capacity none, [], capacity * 7 / 10⟩ with hobject
  have hcells : ∀ (c : ℕ) (ix : ℕ), (List.replicate capacity none)[c]? ≠ some (some ix) := by
    intro c ix hc
    cases List.eq_of_mem_replicate (List.mem_of_getElem? hc)
  have hlen : object.cellCapacity = capacity := List.length_replicate
  refine ⟨⟨?_, ?_, ?_⟩, ?_, ?_, ?_, Nat.zero_le _, ?_⟩
  · intro item hitem
    cases hitem
  · intro ix item hitem
    cases hitem
  · intro c ix hc
    exact absurd hc (hcells c ix)
  · rw [hlen]
    exact h
  · rw [hlen]
    exact hlimit
  · rw [hlen]
  · refine Probing.wellProbed_empty fun c _ => ?_
    show ((List.replicate capacity none)[c]?.join.bind fun ix => ([] : List (List UInt8))[ix]?) = _
    cases (List.replicate capacity none)[c]?.join with
    | none => rfl
    | some ix => rfl

theorem jsonObjectInit_eq {capacity : ℕ} (h : capacity < 2 ^ 32) : jsonObjectInit V capacity =
    some ⟨List.replicate capacity none, [], capacity * 7 / 10⟩ := by
  have hcast : capacity * 7 / 10 % 2 ^ 32 = capacity * 7 / 10 := Nat.mod_eq_of_lt (by omega)
  unfold jsonObjectInit
  rw [if_pos h, hcast]

theorem inv_make : (jsonObjectMake V).Inv := inv_empty (Or.inl rfl) (Nat.two_pow_pos 32)

/-! ## Appending an item -/

section Append

variable {object : JsonObject V} {name : List UInt8} {c : ℕ}

/-- The object with a new item in the free cell `c`. -/
def JsonObject.appended (object : JsonObject V) (name : List UInt8) (value : V) (c : ℕ) :
    JsonObject V where
  cells := object.cells.set c (some object.count)
  items := object.items ++ [{ name, value, hash := hashString name, cellIx := c }]
  itemCapacity := object.itemCapacity

theorem append_eq (value : V) (hc : c < object.cellCapacity)
    (hroom : object.count < object.itemCapacity) :
    object.append name value (hashString name) (some c) = some (object.appended name value c) := by
  unfold JsonObject.append
  rw [Option.bind_eq_bind, Option.bind_some, if_pos ⟨hc, hroom⟩]
  rfl

theorem entries_appended (value : V) :
    (object.appended name value c).entries = object.entries ++ [(name, value)] := by
  unfold JsonObject.entries JsonObject.appended
  rw [List.map_append]
  rfl

theorem JsonObject.Linked.keys_appended (h : object.Linked) (value : V)
    (hc : c < object.cellCapacity) : (object.appended name value c).keys =
      Function.update object.keys c (some name) := by
  have hnames : (object.appended name value c).names = object.names ++ [name] := by
    unfold JsonObject.names JsonObject.appended
    rw [List.map_append]
    rfl
  have hlen : object.names.length = object.count := List.length_map _
  unfold JsonObject.keys
  rw [hnames]
  show keysOf (object.cells.set c (some object.count)) (object.names ++ [name]) = _
  rw [keysOf_set hc, Option.bind_some, ← hlen, List.getElem?_concat_length]
  congr 1
  funext c'
  unfold keysOf
  cases hcell : object.cells[c']?.join with
  | none => rfl
  | some ix =>
    obtain ⟨item, hitem, -⟩ := h.item_of_cell c' ix (Option.join_eq_some_iff.mp hcell)
    have hlt : ix < object.names.length := by
      rw [hlen]
      exact (List.getElem?_eq_some_iff.mp hitem).1
    exact List.getElem?_append_left hlt

/-- A new name in the cell at which the search for it stops keeps the invariant. -/
theorem JsonObject.Inv.appended (h : object.Inv) (value : V) (hnone : object.keys c = none)
    (hstop : StopsAt object.cellCapacity home object.keys name c)
    (hroom : object.count < object.itemCapacity) : (object.appended name value c).Inv := by
  have hc := hstop.lt
  have hfree := h.keys_eq_none hc hnone
  have hlen : (object.appended name value c).cellCapacity = object.cellCapacity := List.length_set
  have hcount : (object.appended name value c).count = object.count + 1 := List.length_append
  have hset : ∀ c', c' ≠ c →
      (object.appended name value c).cells[c']? = object.cells[c']? :=
    fun c' hne => List.getElem?_set_ne (Ne.symm hne)
  have hself : (object.appended name value c).cells[c]? = some (some object.count) :=
    List.getElem?_set_self hc
  have hlast : (object.appended name value c).items[object.count]? =
      some { name, value, hash := hashString name, cellIx := c } := List.getElem?_concat_length
  have hold : ∀ ix < object.count,
      (object.appended name value c).items[ix]? = object.items[ix]? :=
    fun ix hix => List.getElem?_append_left hix
  refine ⟨⟨?_, ?_, ?_⟩, ?_, ?_, ?_, ?_, ?_⟩
  · intro item hitem
    rcases List.mem_append.mp hitem with hitem | hitem
    · exact h.hash item hitem
    · rw [List.mem_singleton.mp hitem]
  · intro ix item hitem
    by_cases hix : ix < object.count
    · rw [hold ix hix] at hitem
      have hcell := h.cell_of_item ix item hitem
      rw [hset item.cellIx (fun heq => ?_)]
      · exact hcell
      · rw [heq, hfree] at hcell
        cases hcell
    · have hlt := (List.getElem?_eq_some_iff.mp hitem).1
      have heq : ix = object.count := by
        change ix < (object.appended name value c).count at hlt
        omega
      rw [heq, hlast] at hitem
      rw [← Option.some.inj hitem, heq]
      exact hself
  · intro c' ix hcell
    by_cases hc' : c' = c
    · rw [hc', hself] at hcell
      cases hcell
      exact ⟨_, hlast, hc'.symm⟩
    · rw [hset c' hc'] at hcell
      obtain ⟨item, hitem, hcellIx⟩ := h.item_of_cell c' ix hcell
      exact ⟨item, by rw [hold ix (List.getElem?_eq_some_iff.mp hitem).1, hitem], hcellIx⟩
  · rw [hlen]
    exact h.capacity
  · rw [hlen]
    exact h.limit
  · rw [hlen]
    exact h.itemCapacity
  · rw [hcount]
    exact hroom
  · rw [hlen, h.keys_appended value hc]
    exact h.probed.insert hstop

end Append

/-! ## Adding and growing -/

variable {object : JsonObject V} {name : List UInt8}

/-- A new name is appended at once if there is room, whatever growing would do. -/
theorem addBody_room (h : object.Inv) (hname : name ∉ object.names)
    (hroom : object.count < object.itemCapacity) (grow : Grow V) (value : V) :
    ∃ object', addBody grow object name value = some (object', .success) ∧ object'.Inv ∧
      object'.entries = object.entries ++ [(name, value)] ∧ object'.count = object.count + 1 ∧
      object'.cellCapacity = object.cellCapacity := by
  obtain ⟨cellIx, found, hget, hsearch⟩ := jsonObjectGetCellIx_spec h name
  cases hsearch with
  | found hkey hc => exact absurd (h.mem_names_iff.mpr ⟨_, hc, hkey⟩) hname
  | empty hzero =>
    have hcap := h.itemCapacity
    omega
  | @free c hmem hnone hstop =>
    refine ⟨object.appended name value c, ?_, h.appended value hnone hstop hroom,
      entries_appended value, List.length_append, List.length_set⟩
    unfold addBody appendGrowing
    simp only [hget, Option.bind_eq_bind, Option.bind_some, Bool.false_eq_true, if_false, ge_iff_le,
      not_le.mpr hroom, append_eq value hstop.lt hroom, Option.pure_def]

theorem names_of_entries {object object' : JsonObject V} {name : List UInt8} {value : V}
    (h : object'.entries = object.entries ++ [(name, value)]) :
    object'.names = object.names ++ [name] := by
  rw [← object'.entries_keys, h, List.map_append, object.entries_keys]
  rfl

theorem count_of_entries {object object' : JsonObject V} {name : List UInt8} {value : V}
    (h : object'.entries = object.entries ++ [(name, value)]) :
    object'.count = object.count + 1 := by
  have hlen := congrArg List.length h
  rwa [List.length_append, JsonObject.entries, JsonObject.entries, List.length_map, List.length_map]
    at hlen

/-- The items go over to an object that has room for all of them. -/
theorem rehash_spec (grow : Grow V) : ∀ (items : List (Item V)) (newObject : JsonObject V),
    newObject.Inv → (newObject.names ++ items.map Item.name).Nodup →
    newObject.count + items.length ≤ newObject.itemCapacity →
    ∃ object', rehash (addBody grow) items newObject = some (object', .success) ∧ object'.Inv ∧
      object'.entries = newObject.entries ++ items.map (fun item => (item.name, item.value)) ∧
      object'.cellCapacity = newObject.cellCapacity := by
  intro items
  induction items with
  | nil =>
    intro newObject hinv _ _
    exact ⟨newObject, rfl, hinv, (List.append_nil _).symm, rfl⟩
  | cons item items ih =>
    intro newObject hinv hnodup hroom
    have hmem : item.name ∉ newObject.names := by
      intro hmem
      exact (List.nodup_append.mp hnodup).2.2 _ hmem _ List.mem_cons_self rfl
    rw [List.length_cons] at hroom
    obtain ⟨mid, hadd, hmid, hentries, hcount, hcap⟩ :=
      addBody_room hinv hmem (by omega) grow item.value
    have hnames := names_of_entries hentries
    have hitemCap : mid.itemCapacity = newObject.itemCapacity := by
      rw [hmid.itemCapacity, hinv.itemCapacity, hcap]
    obtain ⟨object', hrehash, hinv', hentries', hcap'⟩ := ih mid hmid
      (by rw [hnames, List.append_assoc]; exact hnodup) (by omega)
    refine ⟨object', ?_, hinv', ?_, by rw [hcap', hcap]⟩
    · unfold rehash
      rw [hadd]
      exact hrehash
    · rw [hentries', hentries, List.append_assoc]
      rfl

/-- The number of cells is a power of two below 2 ^ 32. -/
theorem JsonObject.Inv.capacity_le (h : object.Inv) : object.cellCapacity ≤ 2 ^ 31 := by
  have hlimit := h.limit
  rcases h.capacity with hzero | ⟨e, he⟩
  · rw [hzero]
    exact Nat.zero_le _
  · rw [he, startingCapacity, show 16 = 2 ^ 4 by rfl, ← Nat.pow_add] at hlimit ⊢
    have hexp : 4 + e < 32 := (Nat.pow_lt_pow_iff_right (Nat.one_lt_two)).mp hlimit
    exact Nat.pow_le_pow_right Nat.two_pos (Nat.le_of_lt_succ hexp)

theorem JsonObject.Inv.itemCapacity_le (h : object.Inv) : object.itemCapacity ≤ maxItems := by
  have hle := h.capacity_le
  rw [h.itemCapacity, maxItems]
  omega

theorem JsonObject.Inv.count_le (h : object.Inv) : object.count ≤ maxItems :=
  h.room.trans h.itemCapacity_le

/-- A full object can grow unless it has the most items. -/
theorem JsonObject.Inv.grown_eq_none_iff (h : object.Inv)
    (hfull : object.count ≥ object.itemCapacity) :
    object.grown = none ↔ object.count = maxItems := by
  have hroom := h.room
  have hle := h.capacity_le
  have hitemCap := h.itemCapacity
  have hmax : max (object.cellCapacity * 2) startingCapacity < 2 ^ 32 ↔
      object.cellCapacity < 2 ^ 31 := by
    unfold startingCapacity
    omega
  show (if max (object.cellCapacity * 2) startingCapacity < 2 ^ 32 then _ else _) = _ ↔ _
  rw [ite_eq_right_iff, hmax, maxItems]
  constructor
  · intro hnone
    have hcells : ¬ object.cellCapacity < 2 ^ 31 := fun hlt => by cases hnone hlt
    omega
  · intro hcount hlt
    omega

/-- The new object is empty, and has room for all items and one more. -/
theorem JsonObject.Inv.of_grown (h : object.Inv) {newObject : JsonObject V}
    (hgrown : object.grown = some newObject) :
    newObject.Inv ∧ newObject.items = [] ∧ object.count < newObject.itemCapacity := by
  have hroom := h.room
  have hitemCap := h.itemCapacity
  have hlimit : max (object.cellCapacity * 2) startingCapacity < 2 ^ 32 := by
    by_contra hnot
    have hnone : object.grown = none := if_neg hnot
    rw [hnone] at hgrown
    cases hgrown
  rw [JsonObject.grown, jsonObjectInit_eq hlimit] at hgrown
  cases hgrown
  refine ⟨inv_empty ?_ hlimit, rfl, ?_⟩
  · right
    rcases h.capacity with hzero | ⟨e, he⟩
    · exact ⟨0, by rw [hzero]; rfl⟩
    · refine ⟨e + 1, ?_⟩
      have hpos := Nat.two_pow_pos e
      rw [he, Nat.pow_succ, startingCapacity]
      omega
  · show object.count < max (object.cellCapacity * 2) startingCapacity * 7 / 10
    unfold startingCapacity
    omega

/-- `json_object_grow_and_rehash` keeps the entries and makes room for one more. -/
theorem growBody_spec (h : object.Inv) {newObject : JsonObject V}
    (hgrown : object.grown = some newObject) (grow : Grow V) :
    ∃ object', growBody (addBody grow) object = some (object', .success) ∧ object'.Inv ∧
      object'.entries = object.entries ∧ object'.count < object'.itemCapacity := by
  obtain ⟨hinit, hempty, hroom⟩ := h.of_grown hgrown
  have hsum : newObject.count + object.items.length ≤ newObject.itemCapacity := by
    rw [JsonObject.count, hempty, List.length_nil, Nat.zero_add]
    exact Nat.le_of_lt hroom
  have hnodup : (newObject.names ++ object.items.map Item.name).Nodup := by
    rw [JsonObject.names, hempty]
    exact h.names_nodup
  obtain ⟨object', hrehash, hinv, hentries, hcap⟩ :=
    rehash_spec grow object.items newObject hinit hnodup hsum
  have hnone : newObject.entries = [] := by
    rw [JsonObject.entries, hempty, List.map_nil]
  rw [hnone, List.nil_append] at hentries
  have hcount : object'.count = object.count := by
    have heq := congrArg List.length (show object'.entries = object.entries from hentries)
    rwa [JsonObject.entries, JsonObject.entries, List.length_map, List.length_map] at heq
  refine ⟨object', ?_, hinv, hentries, ?_⟩
  · unfold growBody
    rw [hgrown, Option.bind_eq_bind, Option.bind_some, hrehash]
    rfl
  · rw [hinv.itemCapacity, hcap, ← hinit.itemCapacity, hcount]
    exact hroom

theorem Searched.not_mem {cellIx : Option ℕ} (h : Searched object name cellIx false)
    (hinv : object.Inv) : name ∉ object.names := by
  cases h with
  | free hmem => exact hmem
  | empty hzero =>
    intro hmem
    obtain ⟨c, hc, -⟩ := hinv.mem_names_iff.mp hmem
    omega

/-- The end of the two functions that add a name, which does not come to its end if the object has
the most items. -/
theorem appendGrowing_spec (h : object.Inv) {cellIx : Option ℕ}
    (hsearch : Searched object name cellIx false) (value : V) :
    (object.count = maxItems ∧ appendGrowing jsonObjectGrowAndRehash object name value
        (hashString name) cellIx = none) ∨
      (object.count < maxItems ∧ ∃ object', appendGrowing jsonObjectGrowAndRehash object name value
          (hashString name) cellIx = some (object', .success) ∧ object'.Inv ∧
        object'.entries = object.entries ++ [(name, value)]) := by
  unfold appendGrowing
  by_cases hfull : object.count ≥ object.itemCapacity
  · have hiff := h.grown_eq_none_iff hfull
    cases hgrown : object.grown with
    | none =>
      have hnone : jsonObjectGrowAndRehash object = none := by
        unfold jsonObjectGrowAndRehash growBody
        rw [hgrown]
        rfl
      refine Or.inl ⟨hiff.mp hgrown, ?_⟩
      rw [if_pos hfull, hnone]
      rfl
    | some newObject =>
      have hlt : object.count < maxItems := by
        refine lt_of_le_of_ne h.count_le fun hmax => ?_
        rw [hiff.mpr hmax] at hgrown
        cases hgrown
      obtain ⟨mid, hgrow, hmid, hentries, hroom⟩ := growBody_spec h hgrown (fun _ => none)
      have hgrow' : jsonObjectGrowAndRehash object = some (mid, .success) := hgrow
      have hname : name ∉ mid.names := by
        rw [← mid.entries_keys, hentries, object.entries_keys]
        exact hsearch.not_mem h
      obtain ⟨cellIx', found, hget, hsearch'⟩ := jsonObjectGetCellIx_spec hmid name
      cases hsearch' with
      | found hkey hc => exact absurd (hmid.mem_names_iff.mpr ⟨_, hc, hkey⟩) hname
      | empty hzero =>
        have hcap := hmid.itemCapacity
        omega
      | @free c hmem hnone hstop =>
        refine Or.inr ⟨hlt, mid.appended name value c, ?_,
          hmid.appended value hnone hstop hroom, ?_⟩
        · simp only [if_pos hfull, hgrow', hget, Option.bind_eq_bind, Option.bind_some,
            append_eq value hstop.lt hroom, Option.pure_def]
        · rw [entries_appended, hentries]
  · have hroom : object.count < object.itemCapacity := by omega
    cases hsearch with
    | empty hzero =>
      have hcap := h.itemCapacity
      omega
    | @free c hmem hnone hstop =>
      refine Or.inr ⟨lt_of_lt_of_le hroom h.itemCapacity_le, object.appended name value c, ?_,
        h.appended value hnone hstop hroom, entries_appended value⟩
      simp only [if_neg hfull, append_eq value hstop.lt hroom, Option.bind_eq_bind,
        Option.bind_some, Option.pure_def]

/-- `json_object_add` fails if the name is there, and otherwise puts it at the end. It does not
return if the name is new and the object has the most items. -/
theorem jsonObjectAdd_spec (h : object.Inv) (name : List UInt8) (value : V) :
    (name ∈ object.names ∧ jsonObjectAdd object name value = some (object, .failure)) ∨
      (name ∉ object.names ∧ object.count = maxItems ∧ jsonObjectAdd object name value = none) ∨
      (name ∉ object.names ∧ object.count < maxItems ∧ ∃ object',
        jsonObjectAdd object name value = some (object', .success) ∧ object'.Inv ∧
        object'.entries = object.entries ++ [(name, value)]) := by
  obtain ⟨cellIx, found, hget, hsearch⟩ := jsonObjectGetCellIx_spec h name
  cases found with
  | true =>
    cases hsearch with
    | found hkey hc =>
      refine Or.inl ⟨h.mem_names_iff.mpr ⟨_, hc, hkey⟩, ?_⟩
      unfold jsonObjectAdd addBody
      simp only [hget, Option.bind_eq_bind, Option.bind_some, if_true, Option.pure_def]
  | false =>
    have hadd : jsonObjectAdd object name value =
        appendGrowing jsonObjectGrowAndRehash object name value (hashString name) cellIx := by
      unfold jsonObjectAdd addBody
      simp only [hget, Option.bind_eq_bind, Option.bind_some, Bool.false_eq_true, if_false]
    have hname := hsearch.not_mem h
    rw [hadd]
    exact Or.inr ((appendGrowing_spec h hsearch value).imp (⟨hname, ·⟩) (⟨hname, ·⟩))

/-- A new name is put at the end as long as there may be more items. -/
theorem jsonObjectAdd_new (h : object.Inv) (hname : name ∉ object.names)
    (hlt : object.count < maxItems) (value : V) :
    ∃ object', jsonObjectAdd object name value = some (object', .success) ∧ object'.Inv ∧
      object'.entries = object.entries ++ [(name, value)] := by
  rcases jsonObjectAdd_spec h name value with ⟨hold, -⟩ | ⟨-, hmax, -⟩ | ⟨-, -, hadd⟩
  · exact absurd hold hname
  · exact absurd hmax (Nat.ne_of_lt hlt)
  · exact hadd

/-! ## The recursion of the source -/

theorem addBody_congr (hroom : object.count < object.itemCapacity) (grow grow' : Grow V)
    (name : List UInt8) (value : V) :
    addBody grow object name value = addBody grow' object name value := by
  unfold addBody appendGrowing
  simp only [ge_iff_le, not_le.mpr hroom, if_false]

theorem rehash_congr (grow grow' : Grow V) : ∀ (items : List (Item V)) (newObject : JsonObject V),
    newObject.Inv → (newObject.names ++ items.map Item.name).Nodup →
    newObject.count + items.length ≤ newObject.itemCapacity →
    rehash (addBody grow) items newObject = rehash (addBody grow') items newObject := by
  intro items
  induction items with
  | nil => intro newObject _ _ _; rfl
  | cons item items ih =>
    intro newObject hinv hnodup hroom
    have hmem : item.name ∉ newObject.names := by
      intro hmem
      exact (List.nodup_append.mp hnodup).2.2 _ hmem _ List.mem_cons_self rfl
    rw [List.length_cons] at hroom
    obtain ⟨mid, hadd, hmid, hentries, hcount, hcap⟩ :=
      addBody_room hinv hmem (by omega) grow item.value
    have hnames := names_of_entries hentries
    have hitemCap : mid.itemCapacity = newObject.itemCapacity := by
      rw [hmid.itemCapacity, hinv.itemCapacity, hcap]
    have hadd' : addBody grow' newObject item.name item.value = some (mid, .success) := by
      rw [← hadd]
      exact addBody_congr (by omega) grow' grow item.name item.value
    unfold rehash
    rw [hadd, hadd']
    exact ih mid hmid (by rw [hnames, List.append_assoc]; exact hnodup) (by omega)

/-- `json_object_add` and `json_object_grow_and_rehash` call each other as in the source. -/
theorem jsonObjectAdd_eq (h : object.Inv) (name : List UInt8) (value : V) :
    jsonObjectAdd object name value = addBody (growBody jsonObjectAdd) object name value := by
  have hgrow : jsonObjectGrowAndRehash object = growBody jsonObjectAdd object := by
    show growBody (addBody fun _ => none) object = growBody (addBody jsonObjectGrowAndRehash) object
    unfold growBody
    cases hgrown : object.grown with
    | none => rfl
    | some newObject =>
      obtain ⟨hinit, hempty, hroom⟩ := h.of_grown hgrown
      have hsum : newObject.count + object.items.length ≤ newObject.itemCapacity := by
        rw [JsonObject.count, hempty, List.length_nil, Nat.zero_add]
        exact Nat.le_of_lt hroom
      have hnodup : (newObject.names ++ object.items.map Item.name).Nodup := by
        rw [JsonObject.names, hempty]
        exact h.names_nodup
      rw [Option.bind_eq_bind, Option.bind_some, Option.bind_some,
        rehash_congr (fun _ => none) jsonObjectGrowAndRehash object.items newObject hinit hnodup
          hsum]
  show addBody jsonObjectGrowAndRehash object name value = _
  unfold addBody appendGrowing
  rw [hgrow]

/-! ## Looking up and replacing -/

/-- What is found in the cell of a name. -/
theorem JsonObject.Inv.item_of_key (h : object.Inv) {c : ℕ} (hkey : object.keys c = some name) :
    ∃ (ix : ℕ) (item : Item V), object.cells[c]? = some (some ix) ∧
      object.items[ix]? = some item ∧ item.name = name ∧
      object.entries[ix]? = some (name, item.value) := by
  obtain ⟨ix, item, hcell, hitem, -, rfl⟩ := h.keys_eq_some hkey
  refine ⟨ix, item, hcell, hitem, rfl, ?_⟩
  unfold JsonObject.entries
  rw [List.getElem?_map, hitem]
  rfl

theorem lookup_of_mem {l : List (List UInt8 × V)} (h : (l.map Prod.fst).Nodup) {value : V}
    (hmem : (name, value) ∈ l) : l.lookup name = some value := by
  obtain ⟨before, after, rfl⟩ := List.append_of_mem hmem
  refine List.lookup_eq_some_iff.mpr ⟨before, after, rfl, ?_⟩
  intro entry hentry
  rw [List.map_append] at h
  have hne := (List.nodup_append.mp h).2.2 entry.1 (List.mem_map_of_mem hentry) name
    List.mem_cons_self
  rw [bne_iff_ne]
  exact Ne.symm hne

theorem lookup_eq_some_iff_mem {l : List (List UInt8 × V)} (h : (l.map Prod.fst).Nodup)
    {value : V} : l.lookup name = some value ↔ (name, value) ∈ l := by
  constructor
  · intro hlookup
    obtain ⟨before, after, rfl, -⟩ := List.lookup_eq_some_iff.mp hlookup
    exact List.mem_append_right before List.mem_cons_self
  · exact lookup_of_mem h

theorem lookup_of_not_mem {l : List (List UInt8 × V)} (h : name ∉ l.map Prod.fst) :
    l.lookup name = none := by
  rw [List.lookup_eq_none_iff]
  intro entry hentry
  rw [bne_iff_ne]
  rintro rfl
  exact h (List.mem_map_of_mem hentry)

/-- `json_object_getn_value` looks the key up in the entries. -/
theorem jsonObjectGetnValue_spec (h : object.Inv) (key : List UInt8) :
    jsonObjectGetnValue object key = some (object.entries.lookup key) := by
  obtain ⟨cellIx, found, hget, hsearch⟩ := jsonObjectGetCellIx_spec h key
  unfold jsonObjectGetnValue
  cases hsearch with
  | found hkey hc =>
    obtain ⟨ix, item, hcell, hitem, -, hentry⟩ := h.item_of_key hkey
    have hnodup : (object.entries.map Prod.fst).Nodup := by
      rw [object.entries_keys]
      exact h.names_nodup
    rw [lookup_of_mem hnodup (List.mem_of_getElem? hentry)]
    simp only [hget, hcell, hitem, Option.bind_eq_bind, Option.bind_some, if_true, Option.pure_def]
  | free hmem =>
    rw [← object.entries_keys] at hmem
    rw [lookup_of_not_mem hmem]
    simp only [hget, Option.bind_eq_bind, Option.bind_some, Bool.false_eq_true, if_false,
      Option.pure_def]
  | empty hzero =>
    have hmem : key ∉ object.entries.map Prod.fst := by
      rw [object.entries_keys]
      exact (Searched.empty hzero).not_mem h
    rw [lookup_of_not_mem hmem]
    simp only [hget, Option.bind_eq_bind, Option.bind_some, Bool.false_eq_true, if_false,
      Option.pure_def]

/-- Another value for an item keeps the invariant. -/
theorem JsonObject.Inv.set_value (h : object.Inv) {ix : ℕ} {item : Item V}
    (hitem : object.items[ix]? = some item) (value : V) :
    ({ object with items := object.items.set ix { item with value } } : JsonObject V).Inv := by
  set object' : JsonObject V := { object with items := object.items.set ix { item with value } }
    with hobject'
  have hlt := (List.getElem?_eq_some_iff.mp hitem).1
  -- an item of the new object has the place, the name and the hash of one of the old object
  have hsame : ∀ (ix' : ℕ) (item' : Item V), object'.items[ix']? = some item' →
      ∃ old : Item V, object.items[ix']? = some old ∧
        old.name = item'.name ∧ old.hash = item'.hash ∧ old.cellIx = item'.cellIx := by
    intro ix' item' hitem'
    by_cases hix : ix' = ix
    · rw [hix, hobject', List.getElem?_set_self hlt] at hitem'
      cases hitem'
      exact ⟨item, hix ▸ hitem, rfl, rfl, rfl⟩
    · rw [hobject', List.getElem?_set_ne (Ne.symm hix)] at hitem'
      exact ⟨item', hitem', rfl, rfl, rfl⟩
  have hnames : object'.names = object.names := map_set_of_eq hitem rfl
  refine ⟨⟨?_, ?_, ?_⟩, h.capacity, h.limit, h.itemCapacity, ?_, ?_⟩
  · intro item' hmem
    obtain ⟨ix', hitem'⟩ := List.mem_iff_getElem?.mp hmem
    obtain ⟨old, hold, hname, hhash, -⟩ := hsame ix' item' hitem'
    rw [← hname, ← hhash]
    exact h.hash old (List.mem_of_getElem? hold)
  · intro ix' item' hitem'
    obtain ⟨old, hold, -, -, hcell⟩ := hsame ix' item' hitem'
    rw [← hcell]
    exact h.cell_of_item ix' old hold
  · intro c ix' hc
    obtain ⟨old, hold, hcell⟩ := h.item_of_cell c ix' hc
    have hlen : ix' < object'.items.length := by
      rw [hobject', List.length_set]
      exact (List.getElem?_eq_some_iff.mp hold).1
    have hget : object'.items[ix']? = some object'.items[ix'] := List.getElem?_eq_getElem hlen
    obtain ⟨old', hold', -, -, hcell'⟩ := hsame ix' _ hget
    obtain rfl : old' = old := Option.some.inj (hold'.symm.trans hold)
    exact ⟨_, hget, hcell'.symm.trans hcell⟩
  · show (object.items.set ix { item with value }).length ≤ _
    rw [List.length_set]
    exact h.room
  · have hkeys : object'.keys = object.keys := by
      unfold JsonObject.keys
      rw [hnames]
    rw [hkeys]
    exact h.probed

/-- `json_object_set_value` replaces the value of a name, or puts a new name at the end; for that it
does not return if the object has the most items. -/
theorem jsonObjectSetValue_spec (h : object.Inv) (name : List UInt8) (value : V) :
    (name ∉ object.names ∧ object.count = maxItems ∧
        jsonObjectSetValue object name value false = none) ∨
      (∃ object', jsonObjectSetValue object name value false = some (object', .success) ∧
        object'.Inv ∧
        ((∃ ix old, object.entries[ix]? = some (name, old) ∧
            object'.entries = object.entries.set ix (name, value)) ∨
          (name ∉ object.names ∧ object'.entries = object.entries ++ [(name, value)]))) := by
  obtain ⟨cellIx, found, hget, hsearch⟩ := jsonObjectGetCellIx_spec h name
  unfold jsonObjectSetValue
  cases found with
  | true =>
    cases hsearch with
    | found hkey hc =>
      obtain ⟨ix, item, hcell, hitem, rfl, hentry⟩ := h.item_of_key hkey
      refine Or.inr ⟨_, ?_, h.set_value hitem value, Or.inl ⟨ix, item.value, hentry, ?_⟩⟩
      · simp only [hget, hcell, hitem, Option.bind_eq_bind, Option.bind_some, if_true,
          Option.pure_def, Bool.false_eq_true, if_false]
      · unfold JsonObject.entries
        rw [List.map_set]
  | false =>
    have hname := hsearch.not_mem h
    simp only [hget, Option.bind_eq_bind, Option.bind_some, Bool.false_eq_true, if_false]
    rcases appendGrowing_spec h hsearch value with ⟨hmax, hnone⟩ | ⟨-, object', happend, hinv, hent⟩
    · exact Or.inl ⟨hname, hmax, hnone⟩
    · exact Or.inr ⟨object', happend, hinv, Or.inr ⟨hname, hent⟩⟩

end CDevHws.Hw08
