import CDevHws.Hw08.Proofs.DeepCopyProofs
import Mathlib.Data.List.Zip

/-!
# Proofs: comparisons and schemas

`json_value_equals` and `json_validate` go through the names of one object only. That this is enough
for the first, and that the second may give up at once if there are fewer values than the schema has
names, follows from the names of an object being distinct.
-/

namespace CDevHws.Hw08

open Json (Same Conforms)

variable {N : Type}

/-! ## Decisions -/

/-- The result is `yes` if and only if `p`. -/
def Decides {α : Type} (yes : α) (result : Option α) (p : Prop) : Prop :=
  ∃ r, result = some r ∧ (r = yes ↔ p)

theorem Decides.congr {α : Type} {yes : α} {result : Option α} {p q : Prop}
    (h : Decides yes result p) (hiff : p ↔ q) : Decides yes result q := by
  obtain ⟨r, hr, hp⟩ := h
  exact ⟨r, hr, hp.trans hiff⟩

theorem decides_bool (b : Bool) : Decides true (some b) b := ⟨b, rfl, Iff.rfl⟩

theorem decides_of_true {α : Type} {yes : α} {p : Prop} (h : p) : Decides yes (some yes) p :=
  ⟨yes, rfl, iff_of_true rfl h⟩

theorem decides_of_false {α : Type} {yes no : α} {p : Prop} (hne : no ≠ yes) (h : ¬ p) :
    Decides yes (some no) p := ⟨no, rfl, iff_of_false hne h⟩

/-- A loop goes through a list, and each round goes on only if it has succeeded. -/
theorem decides_loop {α β : Type} {yes : α} (loop : List β → Option α) {p : β → Prop}
    {all : List β} (hnil : loop [] = some yes)
    (hcons : ∀ x ∈ all, ∀ rest q, Decides yes (loop rest) q →
      Decides yes (loop (x :: rest)) (p x ∧ q)) :
    ∀ l : List β, (∀ x ∈ l, x ∈ all) → Decides yes (loop l) (∀ x ∈ l, p x) := by
  intro l
  induction l with
  | nil =>
    intro _
    rw [hnil]
    exact decides_of_true fun x hmem => absurd hmem List.not_mem_nil
  | cons x l ih =>
    intro hsub
    rw [List.forall_mem_cons]
    exact hcons x (hsub x List.mem_cons_self) l _
      (ih fun x' hmem => hsub x' (List.mem_cons_of_mem _ hmem))

/-- One round of a loop of `json_value_equals`. -/
theorem Decides.and {first rest : Option Bool} {p q : Prop} (hfirst : Decides true first p)
    (hrest : Decides true rest q) :
    Decides true (do if ← first then rest else return false) (p ∧ q) := by
  obtain ⟨r, rfl, hp⟩ := hfirst
  obtain ⟨r', rfl, hq⟩ := hrest
  cases r with
  | true => exact ⟨r', rfl, by rw [hq, and_iff_right (hp.mp rfl)]⟩
  | false =>
    exact decides_of_false Bool.noConfusion fun h => Bool.noConfusion (hp.mpr h.1)

/-- One round of a loop of `json_validate`. -/
theorem Decides.andStatus {first rest result : Option JsonStatus} {p q : Prop}
    (hfirst : Decides .success first p) (hrest : Decides .success rest q)
    (hsuccess : first = some .success → result = rest)
    (hfailure : first = some .failure → result = some .failure) :
    Decides .success result (p ∧ q) := by
  obtain ⟨r, hr, hp⟩ := hfirst
  cases r with
  | success =>
    rw [hsuccess hr]
    refine hrest.congr ?_
    rw [and_iff_right (hp.mp rfl)]
  | failure =>
    rw [hfailure hr]
    exact decides_of_false JsonStatus.noConfusion fun h => JsonStatus.noConfusion (hp.mpr h.1)

/-! ## Members of two objects -/

section Members

variable {V W : Type} {l : List (List UInt8 × V)} {l' : List (List UInt8 × W)} {R : V → W → Prop}

/-- Looking up all names of the first list compares all values with the same name. -/
theorem members_iff (h' : (l'.map Prod.fst).Nodup) :
    (∀ e ∈ l, ∃ y, (e.1, y) ∈ l' ∧ R e.2 y) ↔
      (∀ name ∈ l.map Prod.fst, name ∈ l'.map Prod.fst) ∧
        ∀ name x y, (name, x) ∈ l → (name, y) ∈ l' → R x y := by
  constructor
  · intro h
    constructor
    · intro name hname
      obtain ⟨e, he, rfl⟩ := List.mem_map.mp hname
      obtain ⟨y, hy, -⟩ := h e he
      exact List.mem_map_of_mem hy
    · intro name x y hx hy
      obtain ⟨y', hy', hR⟩ := h (name, x) hx
      have heq : y' = y := by
        have hlookup := lookup_of_mem h' hy'
        rw [lookup_of_mem h' hy] at hlookup
        exact (Option.some.inj hlookup).symm
      rwa [heq] at hR
  · rintro ⟨hnames, hvalues⟩ ⟨name, x⟩ he
    obtain ⟨⟨name', y⟩, hy, rfl⟩ := List.mem_map.mp (hnames name (List.mem_map_of_mem he))
    exact ⟨y, hy, hvalues _ x y he hy⟩

/-- Distinct names that all occur in the second list are not more than there are in it, and if they
are as many, then they are the same. -/
theorem length_of_names (h : (l.map Prod.fst).Nodup)
    (hsub : ∀ name ∈ l.map Prod.fst, name ∈ l'.map Prod.fst) :
    l.length ≤ l'.length ∧
      (l.length = l'.length → ∀ name ∈ l'.map Prod.fst, name ∈ l.map Prod.fst) := by
  have hsubperm : (l.map Prod.fst).Subperm (l'.map Prod.fst) := List.subperm_of_subset h hsub
  constructor
  · have hle := hsubperm.length_le
    rwa [List.length_map, List.length_map] at hle
  · intro hlen name hname
    have hle : (l'.map Prod.fst).length ≤ (l.map Prod.fst).length := by
      rw [List.length_map, List.length_map, hlen]
    exact (hsubperm.perm_of_length_le hle).mem_iff.mpr hname

/-- Only the value that is found counts. -/
theorem decides_lookup {α : Type} {yes no : α} (hne : no ≠ yes) {f : Option W → Option α}
    {p : W → Prop} {name : List UInt8} (h' : (l'.map Prod.fst).Nodup) (hnone : f none = some no)
    (hsome : ∀ y, (name, y) ∈ l' → Decides yes (f (some y)) (p y)) :
    Decides yes (f (l'.lookup name)) (∃ y, (name, y) ∈ l' ∧ p y) := by
  cases hlookup : l'.lookup name with
  | none =>
    rw [hnone]
    refine decides_of_false hne ?_
    rintro ⟨y, hy, -⟩
    rw [lookup_of_mem h' hy] at hlookup
    cases hlookup
  | some y =>
    have hy := (lookup_eq_some_iff_mem h').mp hlookup
    refine (hsome y hy).congr ⟨fun hp => ⟨y, hy, hp⟩, ?_⟩
    rintro ⟨y', hy', hp⟩
    rw [lookup_of_mem h' hy'] at hlookup
    cases hlookup
    exact hp

end Members

section Trees

/-- The type of the values that a tree stands for. -/
def Json.type : Json N → JsonValueType
  | .null => .null
  | .boolean _ => .boolean
  | .number _ => .number
  | .string _ => .string
  | .array _ => .array
  | .object _ => .object

theorem type_tree (value : JsonValue N) : value.tree.type = jsonValueGetType value := by
  cases value <;> rfl

variable {a b : JsonObject (JsonValue N)}

theorem names_trees (a : JsonObject (JsonValue N)) : a.trees.map Prod.fst = a.names := by
  rw [← a.entries_keys]
  unfold JsonObject.trees
  rw [List.map_map]
  rfl

theorem forall_entries_iff {p : List UInt8 → JsonValue N → Prop} :
    (∀ item ∈ a.items, p item.name item.value) ↔ ∀ e ∈ a.entries, p e.1 e.2 := by
  unfold JsonObject.entries
  rw [List.forall_mem_map]

theorem forall_trees_iff {R : Json N → Json N → Prop} :
    (∀ name x y, (name, x) ∈ a.trees → (name, y) ∈ b.trees → R x y) ↔
      ∀ name x y, (name, x) ∈ a.entries → (name, y) ∈ b.entries → R x.tree y.tree := by
  constructor
  · intro h name x y hx hy
    exact h name x.tree y.tree (List.mem_map_of_mem (f := fun e => (e.1, e.2.tree)) hx)
      (List.mem_map_of_mem (f := fun e => (e.1, e.2.tree)) hy)
  · intro h name x y hx hy
    obtain ⟨⟨name', x'⟩, hx', heq⟩ := List.mem_map.mp hx
    obtain ⟨⟨name'', y'⟩, hy', heq'⟩ := List.mem_map.mp hy
    cases heq
    cases heq'
    exact h _ x' y' hx' hy'

end Trees

/-! ## `json_value_equals` -/

section Equals

variable {close : N → N → Bool} {equals : JsonValue N → JsonValue N → Option Bool}
  {R : JsonValue N → JsonValue N → Prop}

theorem equalItems_spec : ∀ {a b : List (JsonValue N)},
    (∀ x y, (x, y) ∈ a.zip b → Decides true (equals x y) (R x y)) →
    Decides true (equalItems equals a b) (∀ x y, (x, y) ∈ a.zip b → R x y) := by
  intro a
  induction a with
  | nil =>
    intro b _
    exact decides_of_true fun x y hmem => absurd hmem List.not_mem_nil
  | cons x a ih =>
    intro b h
    cases b with
    | nil => exact decides_of_true fun x y hmem => absurd hmem List.not_mem_nil
    | cons y b =>
      have hhead := h x y List.mem_cons_self
      have htail := ih fun x' y' hmem => h x' y' (List.mem_cons_of_mem _ hmem)
      refine (hhead.and htail).congr ?_
      rw [List.zip_cons_cons]
      constructor
      · rintro ⟨hxy, hrest⟩ x' y' hmem
        rcases List.mem_cons.mp hmem with heq | hmem
        · cases heq
          exact hxy
        · exact hrest x' y' hmem
      · intro hall
        exact ⟨hall x y List.mem_cons_self,
          fun x' y' hmem => hall x' y' (List.mem_cons_of_mem _ hmem)⟩

variable {P Q : JsonValue N → Prop} {a b : JsonObject (JsonValue N)}

theorem equalMembers_spec (ha : Holds P a) (hb : Holds Q b)
    (h : ∀ item ∈ a.items, ∀ y, (item.name, y) ∈ b.entries →
      Decides true (equals item.value y) (R item.value y)) :
    Decides true (equalMembers equals a b a.items)
      (∀ item ∈ a.items, ∃ y, (item.name, y) ∈ b.entries ∧ R item.value y) := by
  refine decides_loop (equalMembers equals a b) rfl (fun item hmem rest q hrest => ?_) a.items
    fun _ hmem => hmem
  have hfirst : Decides true
      (equalPointers equals (some item.value) (b.entries.lookup item.name))
      (∃ y, (item.name, y) ∈ b.entries ∧ R item.value y) :=
    decides_lookup Bool.noConfusion hb.entries_nodup rfl (h item hmem)
  rw [equalMembers, ha.getValue_item hmem, hb.getValue (ha.item_no_nul hmem)]
  exact hfirst.and hrest

theorem same_object_iff : Same close (.object a.trees) (.object b.trees) ↔
    (∀ name, name ∈ a.names ↔ name ∈ b.names) ∧
      ∀ name x y, (name, x) ∈ a.entries → (name, y) ∈ b.entries → Same close x.tree y.tree := by
  rw [← forall_trees_iff, ← names_trees a, ← names_trees b]
  constructor
  · intro h
    cases h with
    | object hnames hvalues => exact ⟨hnames, hvalues⟩
  · rintro ⟨hnames, hvalues⟩
    exact .object hnames hvalues

theorem same_array_iff {a b : List (JsonValue N)} :
    Same close (.array (a.map JsonValue.tree)) (.array (b.map JsonValue.tree)) ↔
      a.length = b.length ∧ ∀ x y, (x, y) ∈ a.zip b → Same close x.tree y.tree := by
  have hzip : (∀ x y, (x, y) ∈ (a.map JsonValue.tree).zip (b.map JsonValue.tree) →
      Same close x y) ↔ ∀ x y, (x, y) ∈ a.zip b → Same close x.tree y.tree := by
    rw [List.zip_map]
    constructor
    · intro h x y hmem
      exact h x.tree y.tree (List.mem_map_of_mem (f := Prod.map JsonValue.tree JsonValue.tree) hmem)
    · intro h x y hmem
      obtain ⟨⟨x', y'⟩, hmem', heq⟩ := List.mem_map.mp hmem
      cases heq
      exact h x' y' hmem'
  rw [← hzip]
  constructor
  · intro h
    cases h with
    | array hlen h =>
      rw [List.length_map, List.length_map] at hlen
      exact ⟨hlen, h⟩
  · rintro ⟨hlen, h⟩
    refine .array ?_ h
    rw [List.length_map, List.length_map, hlen]

theorem equalObjects_spec (ha : Holds P a) (hb : Holds Q b)
    (h : ∀ item ∈ a.items, ∀ y, (item.name, y) ∈ b.entries →
      Decides true (equals item.value y) (Same close item.value.tree y.tree)) :
    Decides true
      (if a.count ≠ b.count then some false else equalMembers equals a b a.items)
      (Same close (.object a.trees) (.object b.trees)) := by
  have hcount : a.count = b.count ↔ a.entries.length = b.entries.length := by
    unfold JsonObject.count JsonObject.entries
    rw [List.length_map, List.length_map]
  have hitems := forall_entries_iff (a := a)
    (p := fun name x => ∃ y, (name, y) ∈ b.entries ∧ Same close x.tree y.tree)
  rw [same_object_iff, ← a.entries_keys, ← b.entries_keys]
  by_cases hlen : a.count = b.count
  · rw [if_neg (not_not.mpr hlen)]
    refine (equalMembers_spec (R := fun x y => Same close x.tree y.tree) ha hb h).congr ?_
    rw [hitems,
      members_iff (R := fun x y : JsonValue N => Same close x.tree y.tree) hb.entries_nodup]
    refine and_congr_left fun _ => ⟨fun hsub name => ⟨hsub name, ?_⟩,
      fun hsame name => (hsame name).mp⟩
    exact (length_of_names ha.entries_nodup hsub).2 (hcount.mp hlen) name
  · rw [if_pos hlen]
    refine decides_of_false Bool.noConfusion fun hsame => hlen (hcount.mpr ?_)
    have hle := (length_of_names ha.entries_nodup fun name => (hsame.1 name).mp).1
    have hge := (length_of_names hb.entries_nodup fun name => (hsame.1 name).mpr).1
    exact Nat.le_antisymm hle hge

theorem type_eq_of_same {x y : Json N} (h : Same close x y) : x.type = y.type := by
  cases h <;> rfl

theorem equals_of_type_ne {a b : JsonValue N} (hne : jsonValueGetType a ≠ jsonValueGetType b)
    (left : ℕ) :
    Decides true (jsonValueEquals close (left + 1) a b) (Same close a.tree b.tree) := by
  have heq : jsonValueEquals close (left + 1) a b = some false := if_pos hne
  rw [heq]
  rw [← type_tree, ← type_tree] at hne
  exact decides_of_false Bool.noConfusion fun hsame => hne (type_eq_of_same hsame)

/-- With enough levels `json_value_equals` decides whether two values are the same. -/
theorem jsonValueEquals_spec (close : N → N → Bool) {a : JsonValue N} (ha : a.WellFormed) :
    ∀ {b : JsonValue N} (levels : ℕ), b.WellFormed → a.tree.depth < levels →
      Decides true (jsonValueEquals close levels a b) (Same close a.tree b.tree) := by
  induction ha with
  | null =>
    intro b levels hb hlt
    obtain ⟨left, rfl⟩ := Nat.exists_eq_succ_of_ne_zero (Nat.ne_zero_of_lt hlt)
    cases hb with
    | null => exact decides_of_true .null
    | _ => exact equals_of_type_ne JsonValueType.noConfusion left
  | @boolean boolean =>
    intro b levels hb hlt
    obtain ⟨left, rfl⟩ := Nat.exists_eq_succ_of_ne_zero (Nat.ne_zero_of_lt hlt)
    cases hb with
    | @boolean boolean' =>
      refine (decides_bool (boolean = boolean')).congr ?_
      rw [decide_eq_true_iff]
      constructor
      · rintro rfl
        exact .boolean boolean
      · intro h
        cases h
        rfl
    | _ => exact equals_of_type_ne JsonValueType.noConfusion left
  | @number number =>
    intro b levels hb hlt
    obtain ⟨left, rfl⟩ := Nat.exists_eq_succ_of_ne_zero (Nat.ne_zero_of_lt hlt)
    cases hb with
    | @number number' =>
      refine (decides_bool (close number number')).congr ⟨.number, ?_⟩
      intro h
      cases h with
      | number h => exact h
    | _ => exact equals_of_type_ne JsonValueType.noConfusion left
  | @string chars =>
    intro b levels hb hlt
    obtain ⟨left, rfl⟩ := Nat.exists_eq_succ_of_ne_zero (Nat.ne_zero_of_lt hlt)
    cases hb with
    | @string chars' =>
      refine (decides_bool (chars = chars')).congr ?_
      rw [decide_eq_true_iff]
      constructor
      · rintro rfl
        exact .string chars
      · intro h
        cases h
        rfl
    | _ => exact equals_of_type_ne JsonValueType.noConfusion left
  | @array items hitems ih =>
    intro b levels hb hlt
    obtain ⟨left, rfl⟩ := Nat.exists_eq_succ_of_ne_zero (Nat.ne_zero_of_lt hlt)
    cases hb with
    | @array items' hitems' =>
      have hdepth := depth_array_le.mp (Nat.le_of_lt_succ hlt)
      rw [tree_array, tree_array, same_array_iff]
      show Decides true (if items.length ≠ items'.length then some false
        else equalItems (jsonValueEquals close left) items items') _
      by_cases hlen : items.length = items'.length
      · rw [if_neg (not_not.mpr hlen), and_iff_right hlen]
        refine equalItems_spec fun x y hmem => ?_
        have hx := List.of_mem_zip hmem
        exact ih x hx.1 left (hitems' y hx.2) (hdepth x hx.1)
      · rw [if_pos hlen]
        exact decides_of_false Bool.noConfusion fun h => hlen h.1
    | _ => exact equals_of_type_ne JsonValueType.noConfusion left
  | @object object hobject hnames hvalues ih =>
    intro b levels hb hlt
    obtain ⟨left, rfl⟩ := Nat.exists_eq_succ_of_ne_zero (Nat.ne_zero_of_lt hlt)
    cases hb with
    | @object object' hobject' hnames' hvalues' =>
      have hdepth := depth_object_le.mp (Nat.le_of_lt_succ hlt)
      have hholds := wellFormed_object_iff.mp (.object hobject hnames hvalues)
      have hholds' := wellFormed_object_iff.mp (.object hobject' hnames' hvalues')
      rw [tree_object, tree_object]
      refine equalObjects_spec hholds hholds' fun item hmem y hy => ?_
      exact ih item hmem left (hholds'.2 _ hy).2 (hdepth item hmem)
    | _ => exact equals_of_type_ne JsonValueType.noConfusion left

/-! ### What it is for -/

theorem Json.Same.refl (hclose : ∀ x, close x x) {value : JsonValue N} (h : value.WellFormed) :
    Same close value.tree value.tree := by
  induction h with
  | null => exact .null
  | boolean => exact .boolean _
  | number => exact .number (hclose _)
  | string => exact .string _
  | @array items _ ih =>
    rw [tree_array, same_array_iff]
    refine ⟨rfl, fun x y hmem => ?_⟩
    rw [List.zip_eq_zipWith, List.zipWith_self] at hmem
    obtain ⟨x', hx', heq⟩ := List.mem_map.mp hmem
    cases heq
    exact ih _ hx'
  | @object object hobject hnames hvalues ih =>
    have hholds := wellFormed_object_iff.mp (.object hobject hnames hvalues)
    rw [tree_object, same_object_iff]
    refine ⟨fun _ => Iff.rfl, fun name x y hx hy => ?_⟩
    have hlookup := lookup_of_mem hholds.entries_nodup hx
    rw [lookup_of_mem hholds.entries_nodup hy] at hlookup
    cases hlookup
    obtain ⟨item, hitem, heq⟩ := List.mem_map.mp hx
    cases heq
    exact ih item hitem

theorem Json.Same.symm (hclose : ∀ x y, close x y → close y x) {x y : Json N} (h : Same close x y) :
    Same close y x := by
  induction h with
  | null => exact .null
  | boolean boolean => exact .boolean boolean
  | number h => exact .number (hclose _ _ h)
  | string chars => exact .string chars
  | @array a b hlen _ ih =>
    refine .array hlen.symm fun y x hmem => ih x y ?_
    rw [← List.zip_swap]
    exact List.mem_map_of_mem (f := Prod.swap) hmem
  | object hnames _ ih =>
    exact .object (fun name => (hnames name).symm) fun name y x hy hx => ih name x y hx hy

/-- `json_value_equals` decides whether two values are the same but for the order of names. It does
not matter which of the two comes first, and a copy equals its original. -/
theorem json_value_equals_iff {a b : JsonValue N} (ha : a.WellFormed) (hb : b.WellFormed)
    {levels : ℕ} (hlta : a.tree.depth < levels) (hltb : b.tree.depth < levels) :
    (∃ result, jsonValueEquals close levels a b = some result ∧
      (result = true ↔ Same close a.tree b.tree)) ∧
    ((∀ x y, close x y = close y x) →
      jsonValueEquals close levels a b = jsonValueEquals close levels b a) ∧
    ((∀ x, close x x) → ∀ valueCopy, jsonValueDeepCopy levels a = some valueCopy →
      jsonValueEquals close levels a valueCopy = some true) := by
  have hdecides : Decides true (jsonValueEquals close levels a b) (Same close a.tree b.tree) :=
    jsonValueEquals_spec close ha levels hb hlta
  refine ⟨hdecides, fun hclose => ?_, fun hclose valueCopy hcopy => ?_⟩
  · have hsymm : ∀ x y, close x y → close y x := by
      intro x y hxy
      rw [hclose]
      exact hxy
    obtain ⟨r, hr, hiff⟩ := hdecides
    obtain ⟨r', hr', hiff'⟩ := jsonValueEquals_spec close hb levels ha hltb
    rw [hr, hr', Option.some.injEq, Bool.eq_iff_iff, hiff, hiff']
    exact ⟨Json.Same.symm hsymm, Json.Same.symm hsymm⟩
  · obtain ⟨copy', hcopy', hwell, htree⟩ := jsonValueDeepCopy_spec ha levels hlta
    rw [hcopy] at hcopy'
    cases hcopy'
    obtain ⟨r, hr, hiff⟩ := jsonValueEquals_spec close ha levels hwell hlta
    rw [htree] at hiff
    rw [hr, hiff.mpr (Json.Same.refl hclose ha)]

/-- The sample, compared with the one whose members have the other order, and with its copy. -/
theorem json_value_equals_iff_sample :
    Same (fun x y => x = y) sampleValue.tree sampleSwapped.tree ∧
    jsonValueEquals (fun x y => x = y) 3 sampleSwapped sampleValue = some true ∧
    ∀ valueCopy, jsonValueDeepCopy 3 sampleValue = some valueCopy →
      jsonValueEquals (fun x y => x = y) 3 sampleValue valueCopy = some true := by
  have hdepth : sampleValue.tree.depth < 3 := by decide
  have hdepth' : sampleSwapped.tree.depth < 3 := by decide
  have hequal : jsonValueEquals (fun x y => x = y) 3 sampleValue sampleSwapped = some true := by
    decide +kernel
  obtain ⟨⟨result, hresult, hiff⟩, hsymm, hcopy⟩ :=
    @json_value_equals_iff (Fin 10) (fun x y => x = y) sampleValue sampleSwapped
      sampleValue_wellFormed sampleSwapped_wellFormed 3 hdepth hdepth'
  rw [hequal] at hresult
  cases hresult
  refine ⟨hiff.mp rfl, ?_, hcopy fun x => decide_eq_true rfl⟩
  rw [← hequal]
  exact (hsymm fun x y => decide_eq_decide.mpr eq_comm).symm

end Equals

/-! ## `json_validate` -/

section Validate

variable {validate : JsonValue N → JsonValue N → Option JsonStatus}
  {R : JsonValue N → JsonValue N → Prop}

theorem validateItems_spec {first : JsonValue N} {items : List (JsonValue N)}
    (h : ∀ item ∈ items, Decides .success (validate first item) (R first item)) :
    Decides .success (validateItems (validate first) items) (∀ item ∈ items, R first item) := by
  refine decides_loop (validateItems (validate first)) rfl (fun item hmem rest q hrest => ?_) items
    fun _ hmem => hmem
  refine (h item hmem).andStatus hrest (fun heq => ?_) fun heq => ?_
  · rw [validateItems, heq]
    rfl
  · rw [validateItems, heq]
    rfl

variable {P Q : JsonValue N → Prop} {a b : JsonObject (JsonValue N)}

theorem validateMembers_spec (ha : Holds P a) (hb : Holds Q b)
    (h : ∀ item ∈ a.items, ∀ y, (item.name, y) ∈ b.entries →
      Decides .success (validate item.value y) (R item.value y)) :
    Decides .success (validateMembers validate a b a.items)
      (∀ item ∈ a.items, ∃ y, (item.name, y) ∈ b.entries ∧ R item.value y) := by
  refine decides_loop (validateMembers validate a b) rfl (fun item hmem rest q hrest => ?_) a.items
    fun _ hmem => hmem
  have hfirst : Decides .success
      (validatePointers validate (some item.value) (b.entries.lookup item.name))
      (∃ y, (item.name, y) ∈ b.entries ∧ R item.value y) :=
    decides_lookup JsonStatus.noConfusion hb.entries_nodup rfl (h item hmem)
  have hvalue := ha.getValue_item hmem
  have hvalue' := hb.getValue (ha.item_no_nul hmem)
  refine hfirst.andStatus hrest (fun heq => ?_) fun heq => ?_
  · rw [validateMembers, hvalue, hvalue']
    simp only [Option.bind_eq_bind, Option.bind_some, heq]
  · rw [validateMembers, hvalue, hvalue']
    simp only [Option.bind_eq_bind, Option.bind_some, heq]
    rfl

theorem conforms_object_iff : Conforms (.object a.trees) (.object b.trees) ↔
    (∀ name ∈ a.names, name ∈ b.names) ∧
      ∀ name x y, (name, x) ∈ a.entries → (name, y) ∈ b.entries → Conforms x.tree y.tree := by
  rw [← forall_trees_iff, ← names_trees a, ← names_trees b]
  constructor
  · intro h
    cases h with
    | object hnames hvalues => exact ⟨hnames, hvalues⟩
  · rintro ⟨hnames, hvalues⟩
    exact .object hnames hvalues

/-- That there are fewer values than names in the schema is found out at once. -/
theorem validateObjects_spec (ha : Holds P a) (hb : Holds Q b)
    (h : ∀ item ∈ a.items, ∀ y, (item.name, y) ∈ b.entries →
      Decides .success (validate item.value y) (Conforms item.value.tree y.tree)) :
    Decides .success
      (if a.count = 0 then some .success
        else if b.count < a.count then some .failure else validateMembers validate a b a.items)
      (Conforms (.object a.trees) (.object b.trees)) := by
  have hcount : ∀ object : JsonObject (JsonValue N), object.entries.length = object.count :=
    fun object => List.length_map _
  have hitems := forall_entries_iff (a := a)
    (p := fun name x => ∃ y, (name, y) ∈ b.entries ∧ Conforms x.tree y.tree)
  rw [conforms_object_iff, ← a.entries_keys, ← b.entries_keys,
    ← members_iff (R := fun x y : JsonValue N => Conforms x.tree y.tree) hb.entries_nodup]
  split_ifs with hzero hless
  · have hnil : a.entries = [] := List.eq_nil_of_length_eq_zero ((hcount a).trans hzero)
    rw [hnil]
    exact decides_of_true fun e hmem => absurd hmem List.not_mem_nil
  · refine decides_of_false JsonStatus.noConfusion fun hall => ?_
    have hsub := ((members_iff (R := fun x y : JsonValue N => Conforms x.tree y.tree)
      hb.entries_nodup).mp hall).1
    have hle := (length_of_names ha.entries_nodup hsub).1
    rw [hcount, hcount] at hle
    omega
  · exact (validateMembers_spec (R := fun x y => Conforms x.tree y.tree) ha hb h).congr hitems

theorem conforms_array_iff {first : JsonValue N} {rest items : List (JsonValue N)} :
    Conforms (.array ((first :: rest).map JsonValue.tree)) (.array (items.map JsonValue.tree)) ↔
      ∀ item ∈ items, Conforms first.tree item.tree := by
  rw [← List.forall_mem_map (P := fun item => Conforms first.tree item), List.map_cons]
  constructor
  · intro h
    cases h with
    | array h => exact h
  · exact .array

theorem type_of_conforms {x y : Json N} (h : Conforms x y) : x.type = y.type ∨ x.type = .null := by
  cases h with
  | any value => exact Or.inr rfl
  | _ => exact Or.inl rfl

theorem validate_of_type_ne {a b : JsonValue N} (hne : jsonValueGetType a ≠ jsonValueGetType b)
    (hnull : jsonValueGetType a ≠ .null) (left : ℕ) :
    Decides .success (jsonValidate (left + 1) a b) (Conforms a.tree b.tree) := by
  have heq : jsonValidate (left + 1) a b = some .failure := if_pos ⟨hne, hnull⟩
  rw [heq]
  rw [← type_tree, ← type_tree] at hne
  rw [← type_tree] at hnull
  exact decides_of_false JsonStatus.noConfusion fun h => (type_of_conforms h).elim hne hnull

theorem jsonValidate_spec {schema : JsonValue N} (hschema : schema.WellFormed) :
    ∀ {value : JsonValue N} (levels : ℕ), value.WellFormed → schema.tree.depth < levels →
      Decides .success (jsonValidate levels schema value) (Conforms schema.tree value.tree) := by
  induction hschema with
  | null =>
    intro value levels _ hlt
    obtain ⟨left, rfl⟩ := Nat.exists_eq_succ_of_ne_zero (Nat.ne_zero_of_lt hlt)
    have heq : jsonValidate (left + 1) .null value = some .success := by
      cases value <;> rfl
    rw [heq]
    exact decides_of_true (.any _)
  | boolean =>
    intro value levels hvalue hlt
    obtain ⟨left, rfl⟩ := Nat.exists_eq_succ_of_ne_zero (Nat.ne_zero_of_lt hlt)
    cases hvalue with
    | boolean => exact decides_of_true (.boolean _ _)
    | _ => exact validate_of_type_ne JsonValueType.noConfusion JsonValueType.noConfusion left
  | number =>
    intro value levels hvalue hlt
    obtain ⟨left, rfl⟩ := Nat.exists_eq_succ_of_ne_zero (Nat.ne_zero_of_lt hlt)
    cases hvalue with
    | number => exact decides_of_true (.number _ _)
    | _ => exact validate_of_type_ne JsonValueType.noConfusion JsonValueType.noConfusion left
  | string =>
    intro value levels hvalue hlt
    obtain ⟨left, rfl⟩ := Nat.exists_eq_succ_of_ne_zero (Nat.ne_zero_of_lt hlt)
    cases hvalue with
    | string => exact decides_of_true (.string _ _)
    | _ => exact validate_of_type_ne JsonValueType.noConfusion JsonValueType.noConfusion left
  | @array schemaItems _ ih =>
    intro value levels hvalue hlt
    obtain ⟨left, rfl⟩ := Nat.exists_eq_succ_of_ne_zero (Nat.ne_zero_of_lt hlt)
    cases hvalue with
    | @array items hitems =>
      have hdepth := depth_array_le.mp (Nat.le_of_lt_succ hlt)
      rw [tree_array, tree_array]
      cases schemaItems with
      | nil => exact decides_of_true (.arrays _)
      | cons first rest =>
        rw [conforms_array_iff]
        refine validateItems_spec (R := fun x y => Conforms x.tree y.tree) fun item hmem => ?_
        exact ih first List.mem_cons_self left (hitems item hmem)
          (hdepth first List.mem_cons_self)
    | _ => exact validate_of_type_ne JsonValueType.noConfusion JsonValueType.noConfusion left
  | @object object hobject hnames hvalues ih =>
    intro value levels hvalue hlt
    obtain ⟨left, rfl⟩ := Nat.exists_eq_succ_of_ne_zero (Nat.ne_zero_of_lt hlt)
    cases hvalue with
    | @object object' hobject' hnames' hvalues' =>
      have hdepth := depth_object_le.mp (Nat.le_of_lt_succ hlt)
      have hholds := wellFormed_object_iff.mp (.object hobject hnames hvalues)
      have hholds' := wellFormed_object_iff.mp (.object hobject' hnames' hvalues')
      rw [tree_object, tree_object]
      refine validateObjects_spec hholds hholds' fun item hmem y hy => ?_
      exact ih item hmem left (hholds'.2 _ hy).2 (hdepth item hmem)
    | _ => exact validate_of_type_ne JsonValueType.noConfusion JsonValueType.noConfusion left

/-- A schema does not look at the order of names, nor at numbers. -/
theorem Json.Conforms.of_same {close : N → N → Bool} {schema x : Json N} (h : Conforms schema x) :
    ∀ {y : Json N}, Same close x y → Conforms schema y := by
  induction h with
  | any value =>
    intro y _
    exact .any y
  | boolean =>
    intro y hsame
    cases hsame
    exact .boolean _ _
  | number =>
    intro y hsame
    cases hsame
    exact .number _ _
  | string =>
    intro y hsame
    cases hsame
    exact .string _ _
  | arrays =>
    intro y hsame
    cases hsame
    exact .arrays _
  | @array first rest items _ ih =>
    intro y hsame
    cases hsame with
    | @array _ items' hlen hitems =>
      refine .array fun y hy => ?_
      obtain ⟨i, hi, rfl⟩ := List.mem_iff_getElem.mp hy
      have hi' : i < items.length := by rwa [hlen]
      have hmem : (items[i], items'[i]) ∈ items.zip items' :=
        List.mem_iff_getElem.mpr ⟨i, by rw [List.length_zip]; omega, List.getElem_zip⟩
      exact ih _ (List.getElem_mem hi') (hitems _ _ hmem)
  | @object schema value hnames _ ih =>
    intro y hsame
    cases hsame with
    | @object _ value' hnames' hvalues =>
      refine .object (fun name hname => (hnames' name).mp (hnames name hname)) ?_
      intro name s y hs hy
      have hname := (hnames' name).mpr (List.mem_map_of_mem hy)
      obtain ⟨⟨name', x⟩, hx, rfl⟩ := List.mem_map.mp hname
      exact ih name' s x hs hx (hvalues name' x y hx hy)

/-- `json_validate` decides whether a value has the form of a schema, and values that
`json_value_equals` takes to be equal have the same forms. -/
theorem json_validate_iff {schema value : JsonValue N} (hschema : schema.WellFormed)
    (hvalue : value.WellFormed) {levels : ℕ} (hlts : schema.tree.depth < levels)
    (hltv : value.tree.depth < levels) :
    ∃ status, jsonValidate levels schema value = some status ∧
      (status = .success ↔ Conforms schema.tree value.tree) ∧
      (status = .success → ∀ (close : N → N → Bool) (value' : JsonValue N), value'.WellFormed →
        jsonValueEquals close levels value value' = some true →
        jsonValidate levels schema value' = some .success) := by
  obtain ⟨status, hstatus, hiff⟩ := jsonValidate_spec hschema levels hvalue hlts
  refine ⟨status, hstatus, hiff, fun hsuccess close value' hvalue' hequal => ?_⟩
  obtain ⟨result, hresult, hsame⟩ := jsonValueEquals_spec close hvalue levels hvalue' hltv
  rw [hequal] at hresult
  cases hresult
  have hconforms := (hiff.mp hsuccess).of_same (hsame.mp rfl)
  obtain ⟨status', hstatus', hiff'⟩ := jsonValidate_spec hschema levels hvalue' hlts
  rw [hstatus', hiff'.mpr hconforms]

/-- The sample with its members in the other order is a schema for the sample, and then also for
itself, which is equal to the sample. -/
theorem json_validate_iff_sample :
    jsonValidate 3 sampleSwapped sampleValue = some .success ∧
      Conforms sampleSwapped.tree sampleValue.tree ∧
      jsonValidate 3 sampleSwapped sampleSwapped = some .success := by
  have hdepth : sampleValue.tree.depth < 3 := by decide
  have hdepth' : sampleSwapped.tree.depth < 3 := by decide
  have hequal : jsonValueEquals (fun x y => x = y) 3 sampleValue sampleSwapped = some true := by
    decide +kernel
  have hvalid : jsonValidate 3 sampleSwapped sampleValue = some .success := by
    decide +kernel
  obtain ⟨status, hstatus, hiff, hother⟩ :=
    json_validate_iff sampleSwapped_wellFormed sampleValue_wellFormed hdepth' hdepth
  rw [hvalid] at hstatus
  cases hstatus
  exact ⟨hvalid, hiff.mp rfl, hother rfl _ sampleSwapped sampleSwapped_wellFormed hequal⟩

end Validate

end CDevHws.Hw08
