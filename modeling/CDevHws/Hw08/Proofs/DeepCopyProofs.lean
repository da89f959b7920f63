import CDevHws.Hw08.ValueOps
import CDevHws.Hw08.Proofs.JsonRoundTripProofs

/-!
# Proofs: copies

A copy has an object of its own for each object of the value, built name by name, with hash tables
that may differ. It stands for the same tree.
-/

namespace CDevHws.Hw08

variable {N : Type}

/-! ## Members -/

section Object

variable {P : JsonValue N → Prop} {object : JsonObject (JsonValue N)} (h : Holds P object)
include h

theorem Holds.entries_nodup : (object.entries.map Prod.fst).Nodup := by
  rw [object.entries_keys]
  exact h.1.names_nodup

theorem Holds.getValue {name : List UInt8} (hname : 0 ∉ name) :
    jsonObjectGetValue object name = some (object.entries.lookup name) := by
  unfold jsonObjectGetValue
  rw [CString.ofBytes_eq_self hname, jsonObjectGetnValue_spec h.1]

theorem Holds.item_no_nul {item : Item (JsonValue N)} (hmem : item ∈ object.items) :
    0 ∉ item.name := (h.2 _ (List.mem_map_of_mem hmem)).1

theorem Holds.getValue_item {item : Item (JsonValue N)} (hmem : item ∈ object.items) :
    jsonObjectGetValue object item.name = some (some item.value) := by
  have hentry : (item.name, item.value) ∈ object.entries := List.mem_map_of_mem hmem
  rw [h.getValue (h.item_no_nul hmem), lookup_of_mem h.entries_nodup hentry]

end Object

/-! ## The loop over an object -/

/-- A copy of a value. -/
def IsCopy (value valueCopy : JsonValue N) : Prop :=
  valueCopy.WellFormed ∧ valueCopy.tree = value.tree

/-- The members are added in their order, none of them twice. -/
theorem copyMembers_spec {deepCopy : JsonValue N → Option (JsonValue N)}
    {P : JsonValue N → Prop} {object : JsonObject (JsonValue N)} (h : Holds P object)
    (hcopy : ∀ item ∈ object.items, ∃ valueCopy, deepCopy item.value = some valueCopy ∧
      IsCopy item.value valueCopy) :
    ∀ (items : List (Item (JsonValue N))) (objectCopy : JsonObject (JsonValue N)),
      (∀ item ∈ items, item ∈ object.items) → Holds JsonValue.WellFormed objectCopy →
      (objectCopy.names ++ items.map Item.name).Nodup →
      objectCopy.count + items.length ≤ maxItems →
      ∃ object', copyMembers deepCopy object items objectCopy = some object' ∧
        Holds JsonValue.WellFormed object' ∧
        object'.trees = objectCopy.trees ++ items.map fun item => (item.name, item.value.tree) := by
  intro items
  induction items with
  | nil =>
    intro objectCopy _ hcopied _ _
    exact ⟨objectCopy, rfl, hcopied, (List.append_nil _).symm⟩
  | cons item items ih =>
    intro objectCopy hsub hcopied hnodup hmax
    have hmem := hsub item List.mem_cons_self
    have hname := h.item_no_nul hmem
    obtain ⟨valueCopy, hvalue, hwell, htree⟩ := hcopy item hmem
    have hnew : item.name ∉ objectCopy.names := by
      rw [List.map_cons] at hnodup
      exact fun hold => (List.nodup_append.mp hnodup).2.2 _ hold _ List.mem_cons_self rfl
    rw [List.length_cons] at hmax
    obtain ⟨mid, hadd, hinv, hentries⟩ := jsonObjectAdd_new hcopied.1 hnew (by omega) valueCopy
    have hnodup' : (mid.names ++ items.map Item.name).Nodup := by
      rw [names_of_entries hentries, List.append_assoc]
      exact hnodup
    have hmax' : mid.count + items.length ≤ maxItems := by
      rw [count_of_entries hentries]
      omega
    obtain ⟨object', hrest, hcopied', htrees⟩ := ih mid
      (fun item' hmem' => hsub item' (List.mem_cons_of_mem _ hmem'))
      (hcopied.append hinv hentries hname hwell) hnodup' hmax'
    refine ⟨object', ?_, hcopied', ?_⟩
    · simp only [copyMembers, h.getValue_item hmem, hvalue, CString.ofBytes_eq_self hname, hadd,
        Option.bind_eq_bind, Option.bind_some, hrest]
    · rw [htrees]
      unfold JsonObject.trees
      rw [hentries, List.map_append, List.append_assoc, List.map_singleton, htree]
      rfl

/-! ## All values -/

theorem mapM_copies {deepCopy : JsonValue N → Option (JsonValue N)} {items : List (JsonValue N)}
    (h : ∀ item ∈ items, ∃ itemCopy, deepCopy item = some itemCopy ∧ IsCopy item itemCopy) :
    ∃ items', items.mapM deepCopy = some items' ∧ (∀ item ∈ items', item.WellFormed) ∧
      items'.map JsonValue.tree = items.map JsonValue.tree := by
  induction items with
  | nil => exact ⟨[], rfl, fun _ hmem => absurd hmem List.not_mem_nil, rfl⟩
  | cons item items ih =>
    obtain ⟨itemCopy, hcopy, hwell, htree⟩ := h item List.mem_cons_self
    obtain ⟨items', hmap, hitems', htrees⟩ :=
      ih fun item' hmem => h item' (List.mem_cons_of_mem _ hmem)
    refine ⟨itemCopy :: items', ?_, List.forall_mem_cons.mpr ⟨hwell, hitems'⟩, ?_⟩
    · rw [List.mapM_cons, hcopy, hmap]
      rfl
    · rw [List.map_cons, List.map_cons, htree, htrees]

theorem jsonValueDeepCopy_spec {value : JsonValue N} (h : value.WellFormed) :
    ∀ levels, value.tree.depth < levels →
      ∃ valueCopy, jsonValueDeepCopy levels value = some valueCopy ∧ IsCopy value valueCopy := by
  induction h with
  | null =>
    intro levels hlt
    obtain ⟨n, rfl⟩ := Nat.exists_eq_add_of_lt hlt
    exact ⟨.null, rfl, .null, rfl⟩
  | @boolean boolean =>
    intro levels hlt
    obtain ⟨n, rfl⟩ := Nat.exists_eq_add_of_lt hlt
    exact ⟨.boolean boolean, rfl, .boolean, rfl⟩
  | @number number =>
    intro levels hlt
    obtain ⟨n, rfl⟩ := Nat.exists_eq_add_of_lt hlt
    exact ⟨.number number, rfl, .number, rfl⟩
  | @string chars =>
    intro levels hlt
    obtain ⟨n, rfl⟩ := Nat.exists_eq_add_of_lt hlt
    exact ⟨.string chars, rfl, .string, rfl⟩
  | @array items _ ih =>
    intro levels hlt
    obtain ⟨left, rfl⟩ := Nat.exists_eq_succ_of_ne_zero (Nat.ne_zero_of_lt hlt)
    have hdepth := depth_array_le.mp (Nat.le_of_lt_succ hlt)
    obtain ⟨items', hmap, hitems', htrees⟩ :=
      mapM_copies fun item hmem => ih item hmem left (hdepth item hmem)
    refine ⟨.array items', ?_, .array ?_, ?_⟩
    · rw [jsonValueDeepCopy, hmap]
      rfl
    · intro item' hmem'
      exact hitems' item' hmem'
    · rw [tree_array, tree_array, htrees]
  | @object object hobject hnames hvalues ih =>
    intro levels hlt
    obtain ⟨left, rfl⟩ := Nat.exists_eq_succ_of_ne_zero (Nat.ne_zero_of_lt hlt)
    have hdepth := depth_object_le.mp (Nat.le_of_lt_succ hlt)
    have hholds := wellFormed_object_iff.mp (.object hobject hnames hvalues)
    have hmax : (jsonObjectMake (JsonValue N)).count + object.items.length ≤ maxItems := by
      rw [JsonObject.count, jsonObjectMake, List.length_nil, Nat.zero_add]
      exact hobject.count_le
    obtain ⟨object', hmembers, hcopied', htrees⟩ := copyMembers_spec hholds
      (fun item hmem => ih item hmem left (hdepth item hmem)) object.items _ (fun _ hmem => hmem)
      holds_make hobject.names_nodup hmax
    refine ⟨.object object', ?_, wellFormed_object_iff.mpr hcopied', ?_⟩
    · rw [jsonValueDeepCopy, hmembers]
      rfl
    · rw [tree_object, tree_object, htrees, trees_make, List.nil_append]
      unfold JsonObject.trees JsonObject.entries
      rw [List.map_map]
      rfl

/-- `json_value_deep_copy` gives a value that stands for the same tree and is written the same way.
-/
theorem json_value_deep_copy_same (format : NumberFormat N) {value : JsonValue N}
    (h : value.WellFormed) {levels : ℕ} (hlt : value.tree.depth < levels) :
    ∃ valueCopy, jsonValueDeepCopy levels value = some valueCopy ∧ valueCopy.WellFormed ∧
      valueCopy.tree = value.tree ∧
      jsonSerializeToString format valueCopy = jsonSerializeToString format value ∧
      jsonSerializeToStringPretty format valueCopy = jsonSerializeToStringPretty format value := by
  obtain ⟨valueCopy, hcopy, hwell, htree⟩ := jsonValueDeepCopy_spec h levels hlt
  have hsame (isPretty : Bool) : serializeToString format isPretty valueCopy =
      serializeToString format isPretty value := by
    unfold serializeToString jsonSerializationSize
    rw [serialize_eq_of_tree h 0 valueCopy htree]
  exact ⟨valueCopy, hcopy, hwell, htree, hsame false, hsame true⟩

theorem json_value_deep_copy_same_sample :
    ∃ valueCopy, jsonValueDeepCopy 3 sampleSwapped = some valueCopy ∧ valueCopy.WellFormed ∧
      valueCopy.tree = sampleSwapped.tree ∧
      jsonSerializeToString digitFormat valueCopy =
        jsonSerializeToString digitFormat sampleSwapped ∧
      jsonSerializeToStringPretty digitFormat valueCopy =
        jsonSerializeToStringPretty digitFormat sampleSwapped := by
  have hdepth : sampleSwapped.tree.depth < 3 := by decide
  exact json_value_deep_copy_same digitFormat sampleSwapped_wellFormed hdepth

end CDevHws.Hw08
