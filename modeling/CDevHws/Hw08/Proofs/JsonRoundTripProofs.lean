import CDevHws.Hw08.Proofs.ParseRoundsProofs

/-!
# Proofs: the round trip

`json_parse_string` gives back what was serialized, up to the depth at which it gives up. What it
returns for any other text is well formed too, so that it can be serialized and read again.
-/

namespace CDevHws.Hw08

open CString (isspace isdigit)

variable {N : Type} {format : NumberFormat N}

/-! ## Values -/

section Reading

variable {isPretty : Bool} {level left : ℕ}

/-- A text that is read whenever a value is still allowed. -/
theorem reads_of_scalar {text : List UInt8} {value : JsonValue N} (hdepth : value.tree.depth = 0)
    (hparse : ∀ left rest, Delimited rest →
      parseValue format (left + 1) (text ++ rest) = some (value, rest)) :
    Reads (parseValue format left) text value.tree (value.tree.depth < left) := by
  intro rest hrest
  rw [hdepth]
  cases left with
  | zero => exact ⟨fun hlt => absurd hlt (Nat.lt_irrefl 0), fun _ => rfl⟩
  | succ left =>
    refine ⟨fun _ => ⟨value, hparse left rest hrest, rfl⟩, ?_⟩
    exact fun hnot => absurd (Nat.succ_pos left) hnot

theorem trees_make : (jsonObjectMake (JsonValue N)).trees = [] := rfl

theorem parseObjectValue_serialize {object : JsonObject (JsonValue N)} (hobject : object.Inv)
    (hnames : ∀ item ∈ object.items, 0 ∉ item.name)
    (hreads : ∀ item ∈ object.items, Reads (parseValue format left)
      (serialize format isPretty (level + 1) item.value) item.value.tree
      (item.value.tree.depth < left)) :
    Reads (parseValue format (left + 1)) (serialize format isPretty level (.object object))
      (JsonValue.object object).tree ((JsonValue.object object).tree.depth < left + 1) := by
  intro rest _
  have hempty : (jsonObjectMake (JsonValue N)).Inv := inv_make
  have hmax : (jsonObjectMake (JsonValue N)).count + object.items.length ≤ maxItems := by
    rw [JsonObject.count, jsonObjectMake, List.length_nil, Nat.zero_add]
    exact hobject.count_le
  have htrees : object.trees = object.items.map fun item => (item.name, item.value.tree) :=
    List.map_map
  have hnodup : (object.items.map Item.name).Nodup := hobject.names_nodup
  rw [serialize_object, List.cons_append, parseValue_object, Nat.lt_succ_iff, depth_object_le,
    tree_object, htrees, serializeMember_eq]
  unfold parseObjectValue
  cases hitems : object.items with
  | nil =>
    rw [List.map_nil, skipWhitespaces_containerText_nil rfl]
    exact ⟨fun _ => ⟨.object (jsonObjectMake _), rfl, rfl⟩,
      fun hnot => absurd (fun item hmem => absurd hmem List.not_mem_nil) hnot⟩
  | cons item items =>
    rw [hitems] at hnames hreads hnodup hmax
    obtain ⟨blank, hblank, hskip⟩ := skipWhitespaces_containerText_cons isPretty level
      (memberText (whenPretty isPretty (bytes " ")) (serialize format isPretty (level + 1)) item)
      (items.map (memberText (whenPretty isPretty (bytes " "))
        (serialize format isPretty (level + 1)))) 125 rest
    have hne : (skipWhitespaces (containerText isPretty level ((item :: items).map
        (memberText (whenPretty isPretty (bytes " "))
          (serialize format isPretty (level + 1)))) 125 ++ rest)).head? ≠ some 125 := by
      rw [List.map_cons, hskip, skipWhitespaces_listText (memberText_head item)]
      exact fun heq => absurd (Option.some.inj heq) (by decide)
    obtain ⟨hall, hsome⟩ := objectLoop_spec (fun value => value.tree.depth < left) hblank
      (blank_space.whenPretty isPretty) (parseValue_skipWhitespaces format left) hreads hnames
      (List.cons_ne_nil _ _) _ _ _ hempty hnodup hmax hskip (Nat.lt_succ_self _)
    simp only [hne, if_false]
    refine ⟨?_, hsome⟩
    intro hfits
    obtain ⟨object', htrees', hloop⟩ := hall hfits
    exact ⟨.object object', hloop, by rw [tree_object, htrees', trees_make, List.nil_append]⟩

variable (hnumbers : ∀ number, format.ReadsBack number)

include hnumbers

theorem parseArrayValue_serialize {items : List (JsonValue N)}
    (hreads : ∀ item ∈ items, Reads (parseValue format left)
      (serialize format isPretty (level + 1) item) item.tree (item.tree.depth < left)) :
    Reads (parseValue format (left + 1)) (serialize format isPretty level (.array items))
      (JsonValue.array items).tree ((JsonValue.array items).tree.depth < left + 1) := by
  intro rest _
  rw [serialize_array, List.cons_append, parseValue_array, Nat.lt_succ_iff, depth_array_le]
  unfold parseArrayValue
  cases items with
  | nil =>
    rw [List.map_nil, skipWhitespaces_containerText_nil rfl]
    exact ⟨fun _ => ⟨.array [], rfl, rfl⟩,
      fun hnot => absurd (fun item hmem => absurd hmem List.not_mem_nil) hnot⟩
  | cons item items =>
    obtain ⟨blank, hblank, hskip⟩ := skipWhitespaces_containerText_cons isPretty level
      (serialize format isPretty (level + 1) item)
      (items.map (serialize format isPretty (level + 1))) 93 rest
    have hhead : ∀ item, ∃ c s, serialize format isPretty (level + 1) item = c :: s ∧
        isspace c = false ∧ c ≠ 93 := by
      intro item
      obtain ⟨c, s, htext, hc, h93, -⟩ := serialize_head hnumbers isPretty (level + 1) item
      exact ⟨c, s, htext, hc, h93⟩
    obtain ⟨c, s, htext, hc, h93⟩ := hhead item
    have hne : (skipWhitespaces (containerText isPretty level ((item :: items).map
        (serialize format isPretty (level + 1))) 93 ++ rest)).head? ≠ some 93 := by
      rw [List.map_cons, hskip, skipWhitespaces_listText ⟨c, s, htext, hc⟩, htext]
      exact fun heq => h93 (Option.some.inj heq)
    obtain ⟨hall, hsome⟩ := arrayLoop_spec hblank hhead hreads (List.cons_ne_nil _ _) _ _ [] hskip
      (Nat.lt_succ_self _)
    simp only [hne, if_false]
    refine ⟨?_, hsome⟩
    intro hfits
    obtain ⟨items', htrees, hloop⟩ := hall hfits
    refine ⟨.array items', hloop, ?_⟩
    rw [tree_array, tree_array, htrees]

/-- The text of a value is read back if its containers are not nested too deep. -/
theorem reads_serialize (isPretty : Bool) {value : JsonValue N} (h : value.WellFormed) :
    ∀ level left, Reads (parseValue format left) (serialize format isPretty level value)
      value.tree (value.tree.depth < left) := by
  induction h with
  | null =>
    intro level left
    refine reads_of_scalar rfl fun left rest _ => ?_
    rw [serialize, parseValue_null]
  | boolean =>
    rename_i boolean
    intro level left
    refine reads_of_scalar rfl fun left rest _ => ?_
    cases boolean with
    | true => rw [serialize, parseValue_true]
    | false => rw [serialize, parseValue_false]
  | number =>
    intro level left
    refine reads_of_scalar rfl fun left rest hrest => ?_
    rw [serialize, parseValue_number (hnumbers _) hrest]
  | string =>
    intro level left
    refine reads_of_scalar rfl fun left rest _ => ?_
    rw [serialize, parseValue_string]
  | array _ ih =>
    intro level left
    cases left with
    | zero => exact fun rest _ => ⟨fun hlt => absurd hlt (Nat.not_lt_zero _), fun _ => rfl⟩
    | succ left => exact parseArrayValue_serialize hnumbers fun item hmem => ih item hmem _ left
  | object hobject hnames _ ih =>
    intro level left
    cases left with
    | zero => exact fun rest _ => ⟨fun hlt => absurd hlt (Nat.not_lt_zero _), fun _ => rfl⟩
    | succ left =>
      exact parseObjectValue_serialize hobject hnames fun item hmem => ih item hmem _ left

end Reading

/-! ## Texts are C strings -/

section NoNul

variable {isPretty : Bool} {level : ℕ}

theorem no_nul_of_blank {text : List UInt8} (h : Blank text) : 0 ∉ text :=
  fun hmem => absurd (h 0 hmem) (by decide)

theorem listText_no_nul {texts : List (List UInt8)} (h : ∀ text ∈ texts, 0 ∉ text) :
    0 ∉ listText isPretty level texts := by
  induction texts with
  | nil => exact List.not_mem_nil
  | cons text texts ih =>
    have hcomma : 0 ∉ (if texts.isEmpty then [] else bytes ",") := by
      split
      · exact List.not_mem_nil
      · decide
    rw [listText]
    simp only [List.mem_append, not_or]
    exact ⟨⟨⟨⟨no_nul_of_blank ((blank_indent _).whenPretty _), h text List.mem_cons_self⟩, hcomma⟩,
      no_nul_of_blank (blank_newline.whenPretty _)⟩,
      ih fun text hmem => h text (List.mem_cons_of_mem _ hmem)⟩

theorem containerText_no_nul {texts : List (List UInt8)} {c : UInt8}
    (h : ∀ text ∈ texts, 0 ∉ text) (hc : c ≠ 0) : 0 ∉ containerText isPretty level texts c := by
  unfold containerText
  simp only [List.mem_append, List.mem_singleton, not_or]
  exact ⟨no_nul_of_blank (blank_newline.whenPretty _), listText_no_nul h,
    no_nul_of_blank ((blank_indent _).whenPretty _), hc.symm⟩

theorem serialize_no_nul (hnumbers : ∀ number, format.ReadsBack number) {value : JsonValue N}
    (h : value.WellFormed) : ∀ level, 0 ∉ serialize format isPretty level value := by
  induction h with
  | null =>
    intro level
    rw [serialize]
    decide
  | boolean =>
    rename_i boolean
    intro level
    cases boolean with
    | true =>
      rw [serialize]
      decide
    | false =>
      rw [serialize]
      decide
  | number =>
    intro level
    rw [serialize]
    exact (hnumbers _).no_nul
  | string =>
    intro level
    rw [serialize]
    exact jsonSerializeString_no_nul _
  | array _ ih =>
    intro level
    rw [serialize_array, List.mem_cons, not_or]
    refine ⟨by decide, containerText_no_nul ?_ (by decide)⟩
    rw [List.forall_mem_map]
    exact fun item hmem => ih item hmem _
  | object _ _ _ ih =>
    intro level
    rw [serialize_object, List.mem_cons, not_or, serializeMember_eq]
    refine ⟨by decide, containerText_no_nul ?_ (by decide)⟩
    rw [List.forall_mem_map]
    intro item hmem
    rw [memberText, List.mem_append, List.mem_cons, List.mem_append, not_or, not_or, not_or]
    exact ⟨jsonSerializeString_no_nul _, by decide, no_nul_of_blank (blank_space.whenPretty _),
      ih item hmem _⟩

end NoNul

/-! ## What is read -/

/-- An object that keeps its invariant, with names that are C strings and values with `P`. -/
def Holds (P : JsonValue N → Prop) (object : JsonObject (JsonValue N)) : Prop :=
  object.Inv ∧ ∀ entry ∈ object.entries, 0 ∉ entry.1 ∧ P entry.2

theorem Holds.append {P : JsonValue N → Prop} {object object' : JsonObject (JsonValue N)}
    {name : List UInt8} {value : JsonValue N} (h : Holds P object) (hinv : object'.Inv)
    (hentries : object'.entries = object.entries ++ [(name, value)]) (hname : 0 ∉ name)
    (hvalue : P value) : Holds P object' := by
  refine ⟨hinv, ?_⟩
  intro entry hmem
  rw [hentries] at hmem
  rcases List.mem_append.mp hmem with hold | hnew
  · exact h.2 entry hold
  · rw [List.mem_singleton.mp hnew]
    exact ⟨hname, hvalue⟩

theorem wellFormed_object_iff {object : JsonObject (JsonValue N)} :
    (JsonValue.object object).WellFormed ↔ Holds JsonValue.WellFormed object := by
  constructor
  · intro h
    cases h with
    | object hobject hnames hvalues =>
      refine ⟨hobject, fun entry hmem => ?_⟩
      obtain ⟨item, hitem, rfl⟩ := List.mem_map.mp hmem
      exact ⟨hnames item hitem, hvalues item hitem⟩
  · rintro ⟨hobject, hentries⟩
    refine .object hobject (fun item hitem => ?_) fun item hitem => ?_
    · exact (hentries _ (List.mem_map_of_mem hitem)).1
    · exact (hentries _ (List.mem_map_of_mem hitem)).2

section Read

variable {parse : Parser N} {P : JsonValue N → Prop} {value : JsonValue N}
  {string rest : List UInt8}

theorem no_nul_of_length {key : List UInt8} (h : key.length = (CString.ofBytes key).length) :
    0 ∉ key := by
  have heq : CString.ofBytes key = key := (List.takeWhile_prefix _).eq_of_length h.symm
  intro hmem
  unfold CString.ofBytes at heq
  exact absurd (List.takeWhile_eq_self_iff.mp heq 0 hmem) (by decide)

variable (hparse : ∀ string value rest, parse string = some (value, rest) → P value)

include hparse

theorem arrayLoop_eq_some : ∀ fuel items string, (∀ item ∈ items, P item) →
    arrayLoop parse fuel items string = some (value, rest) →
    ∃ items', value = .array items' ∧ ∀ item ∈ items', P item := by
  intro fuel
  induction fuel with
  | zero =>
    intro items string _ h
    cases h
  | succ fuel ih =>
    intro items string hitems h
    obtain ⟨hne, new, w, c, s, hnew, hw, hc⟩ := arrayLoop_round h
    rw [arrayLoop_step hne hnew hw hc] at h
    have hall : ∀ item ∈ items ++ [new], P item := by
      intro item hmem
      rcases List.mem_append.mp hmem with hmem | hmem
      · exact hitems item hmem
      · rw [List.mem_singleton.mp hmem]
        exact hparse _ _ _ hnew
    rcases behindValue_cases (closes_array _) h with ⟨hvalue, -⟩ | ⟨s', -, hloop⟩
    · exact ⟨_, hvalue, hall⟩
    · exact ih _ _ hall hloop

theorem objectLoop_eq_some : ∀ fuel (object : JsonObject (JsonValue N)) string, Holds P object →
    objectLoop parse fuel object string = some (value, rest) →
    ∃ object', value = .object object' ∧ Holds P object' := by
  intro fuel
  induction fuel with
  | zero =>
    intro object string _ h
    cases h
  | succ fuel ih =>
    intro object string hobject h
    obtain ⟨hne, key, w', t, new, w, c, s, object', hkey, hw', hnul, hnew, hw, hc, hadd⟩ :=
      objectLoop_round h
    rw [objectLoop_step hne hkey hw' hnul hnew hw hc hadd] at h
    obtain ⟨hinv, hentries⟩ := entries_of_add hobject.1 hadd
    have hall := hobject.append hinv hentries (no_nul_of_length hnul) (hparse _ _ _ hnew)
    rcases behindValue_cases (closes_object _) h with ⟨hvalue, -⟩ | ⟨s', -, hloop⟩
    · exact ⟨_, hvalue, hall⟩
    · exact ih _ _ hall hloop

omit hparse in
theorem holds_make : Holds P (jsonObjectMake (JsonValue N)) :=
  ⟨inv_make, fun _ hmem => absurd hmem List.not_mem_nil⟩

theorem parseArrayValue_eq_some (h : parseArrayValue parse string = some (value, rest)) :
    ∃ items, value = .array items ∧ ∀ item ∈ items, P item := by
  unfold parseArrayValue at h
  simp only at h
  split at h
  · cases h
    exact ⟨[], rfl, fun item hmem => absurd hmem List.not_mem_nil⟩
  · exact arrayLoop_eq_some hparse _ _ _ (fun item hmem => absurd hmem List.not_mem_nil) h

theorem parseObjectValue_eq_some (h : parseObjectValue parse string = some (value, rest)) :
    ∃ object, value = .object object ∧ Holds P object := by
  unfold parseObjectValue at h
  simp only at h
  split at h
  · cases h
    exact ⟨_, rfl, holds_make⟩
  · exact objectLoop_eq_some hparse _ _ _ holds_make h

omit hparse

/-- The values that may come out with `left` levels to go. -/
def Allowed (left : ℕ) (value : JsonValue N) : Prop :=
  value.WellFormed ∧ value.tree.depth < left

theorem allowed_array {items : List (JsonValue N)} {left : ℕ}
    (h : ∀ item ∈ items, Allowed left item) : Allowed (left + 1) (.array items) := by
  refine ⟨.array fun item hmem => (h item hmem).1, Nat.lt_succ_of_le (depth_array_le.mpr ?_)⟩
  exact fun item hmem => (h item hmem).2

theorem allowed_object {object : JsonObject (JsonValue N)} {left : ℕ}
    (h : Holds (Allowed left) object) : Allowed (left + 1) (.object object) := by
  have hitem : ∀ item ∈ object.items, 0 ∉ item.name ∧ Allowed left item.value :=
    fun item hmem => h.2 (item.name, item.value) (List.mem_map_of_mem hmem)
  refine ⟨.object h.1 (fun item hmem => (hitem item hmem).1)
    (fun item hmem => (hitem item hmem).2.1), Nat.lt_succ_of_le (depth_object_le.mpr ?_)⟩
  exact fun item hmem => (hitem item hmem).2.2

/-- Whatever `parse_value` returns is well formed, and not nested too deep. -/
theorem parseValue_allowed : ∀ left string (value : JsonValue N) rest,
    parseValue format left string = some (value, rest) → Allowed left value := by
  intro left
  induction left with
  | zero =>
    intro string value rest h
    cases h
  | succ left ih =>
    intro string value rest h
    rw [parseValue] at h
    split at h
    · cases h
    · split_ifs at h
      · obtain ⟨object, rfl, hobject⟩ := parseObjectValue_eq_some ih h
        exact allowed_object hobject
      · obtain ⟨items, rfl, hitems⟩ := parseArrayValue_eq_some ih h
        exact allowed_array hitems
      · obtain ⟨⟨chars, tail⟩, -, h⟩ := Option.bind_eq_some_iff.mp h
        cases h
        exact ⟨.string, Nat.succ_pos left⟩
      · unfold parseBooleanValue at h
        split_ifs at h
        · cases h
          exact ⟨.boolean, Nat.succ_pos left⟩
        · cases h
          exact ⟨.boolean, Nat.succ_pos left⟩
      · obtain ⟨⟨number, read⟩, -, h⟩ := Option.bind_eq_some_iff.mp h
        simp only at h
        split_ifs at h
        cases h
        exact ⟨.number, Nat.succ_pos left⟩
      · unfold parseNullValue at h
        split_ifs at h
        cases h
        exact ⟨.null, Nat.succ_pos left⟩

end Read

/-! ## The round trip -/

/-- `json_parse_string` on the text of a value. -/
theorem jsonParseString_serialize (hnumbers : ∀ number, format.ReadsBack number)
    {value : JsonValue N} (h : value.WellFormed) (isPretty : Bool) :
    (jsonParseString format (serialize format isPretty 0 value)).map JsonValue.tree =
      if value.tree.depth ≤ maxNesting then some value.tree else none := by
  have hstring : CString.ofBytes (serialize format isPretty 0 value) =
      serialize format isPretty 0 value := ofBytes_eq (serialize_no_nul hnumbers h 0)
  have hmark : ¬ [0xEF, 0xBB, 0xBF] <+: serialize format isPretty 0 value := by
    obtain ⟨c, s, htext, -, -, -, hc⟩ := serialize_head hnumbers isPretty 0 value
    rw [htext]
    exact fun hprefix => hc (List.cons_prefix_cons.mp hprefix).1.symm
  obtain ⟨hfits, hunfits⟩ := reads_serialize hnumbers isPretty h 0 (maxNesting + 1) []
    (fun c hc => by cases hc)
  rw [List.append_nil, Nat.lt_succ_iff] at hfits hunfits
  unfold jsonParseString
  rw [hstring]
  simp only [hmark, if_false]
  by_cases hdepth : value.tree.depth ≤ maxNesting
  · obtain ⟨value', hparse, htree⟩ := hfits hdepth
    rw [hparse, if_pos hdepth, ← htree]
    rfl
  · rw [hunfits hdepth, if_neg hdepth]
    rfl

/-- Lists with the same images under `g` have the same images under what depends on `g` only. -/
theorem map_congr_of_map {α β γ : Type} {f : α → γ} {g : α → β} {l : List α}
    (h : ∀ a ∈ l, ∀ a', g a' = g a → f a' = f a) :
    ∀ l' : List α, l'.map g = l.map g → l'.map f = l.map f := by
  induction l with
  | nil =>
    intro l' hmap
    rw [List.map_nil, List.map_eq_nil_iff] at hmap
    rw [hmap]
  | cons a l ih =>
    intro l' hmap
    cases l' with
    | nil => cases hmap
    | cons a' l' =>
      rw [List.map_cons, List.map_cons, List.cons.injEq] at hmap
      rw [List.map_cons, List.map_cons, h a List.mem_cons_self a' hmap.1,
        ih (fun a hmem => h a (List.mem_cons_of_mem _ hmem)) l' hmap.2]

/-- Values that stand for the same tree are written the same way. -/
theorem serialize_eq_of_tree {isPretty : Bool} {value : JsonValue N} (h : value.WellFormed) :
    ∀ level (value' : JsonValue N), value'.tree = value.tree →
      serialize format isPretty level value' = serialize format isPretty level value := by
  induction h with
  | null =>
    intro level value' htree
    cases value' <;> cases htree
    rfl
  | boolean =>
    intro level value' htree
    cases value' <;> cases htree
    rfl
  | number =>
    intro level value' htree
    cases value' <;> cases htree
    rfl
  | string =>
    intro level value' htree
    cases value' <;> cases htree
    rfl
  | array _ ih =>
    rename_i items _
    intro level value' htree
    cases value' with
    | array items' =>
      rw [tree_array, tree_array, Json.array.injEq] at htree
      rw [serialize_array, serialize_array, map_congr_of_map
        (fun item hmem item' heq => ih item hmem _ item' heq) items' htree]
    | _ => cases htree
  | object _ _ _ ih =>
    rename_i object _ _ _
    intro level value' htree
    cases value' with
    | object object' =>
      rw [tree_object, tree_object, Json.object.injEq] at htree
      have htrees : object'.items.map (fun item => (item.name, item.value.tree)) =
          object.items.map fun item => (item.name, item.value.tree) := by
        unfold JsonObject.trees JsonObject.entries at htree
        rw [List.map_map, List.map_map] at htree
        exact htree
      rw [serialize_object, serialize_object, map_congr_of_map ?_ _ htrees]
      intro item hmem item' heq
      rw [Prod.mk.injEq] at heq
      rw [serializeMember_eq, memberText, memberText, heq.1, ih item hmem _ _ heq.2]
    | _ => cases htree

/-- The text of a value is not longer than `INT_MAX`. -/
def ShortText (format : NumberFormat N) (isPretty : Bool) (value : JsonValue N) : Prop :=
  (serialize format isPretty 0 value).length ≤ intMax

theorem serializeToString_of_short {isPretty : Bool} {value : JsonValue N}
    (h : ShortText format isPretty value) :
    serializeToString format isPretty value = some (serialize format isPretty 0 value) := by
  have hsize : jsonSerializationSize format isPretty value =
      some ((serialize format isPretty 0 value).length + 1) := if_pos h
  unfold serializeToString
  rw [hsize]
  rfl

theorem eq_serialize_of_some {isPretty : Bool} {value : JsonValue N} {text : List UInt8}
    (h : serializeToString format isPretty value = some text) :
    text = serialize format isPretty 0 value := by
  by_cases hshort : ShortText format isPretty value
  · rw [serializeToString_of_short hshort] at h
    exact (Option.some.inj h).symm
  · have hsize : jsonSerializationSize format isPretty value = none := if_neg hshort
    unfold serializeToString at h
    rw [hsize] at h
    cases h

/-- What is written is read back, in both forms, unless it is nested deeper than `MAX_NESTING`. It
is written if its length is an `int`. -/
theorem json_round_trip (hnumbers : ∀ number, format.ReadsBack number) {value : JsonValue N}
    (h : value.WellFormed) :
    (ShortText format false value → ∃ text, jsonSerializeToString format value = some text ∧
        (jsonParseString format text).map JsonValue.tree =
          if value.tree.depth ≤ maxNesting then some value.tree else none) ∧
      (ShortText format true value → ∃ text, jsonSerializeToStringPretty format value = some text ∧
        (jsonParseString format text).map JsonValue.tree =
          if value.tree.depth ≤ maxNesting then some value.tree else none) :=
  ⟨fun hshort => ⟨_, serializeToString_of_short hshort, jsonParseString_serialize hnumbers h false⟩,
    fun hshort => ⟨_, serializeToString_of_short hshort, jsonParseString_serialize hnumbers h true⟩⟩

/-! ### Numbers of one digit -/

/-- The number that a digit stands for. -/
def digitValue (c : UInt8) : Fin 10 := ⟨(c.toNat - 48) % 10, Nat.mod_lt _ (Nat.succ_pos 9)⟩

/-- The C library on the numbers from 0 to 9. -/
def digitFormat : NumberFormat (Fin 10) where
  strtod
    | [] => none
    | c :: s =>
      if isdigit c ∧ ¬ s.head?.any isdigit then some (digitValue c, 1) else none
  sprintf digit := [48 + digit.val.toUInt8]

theorem digitFormat_readsBack (digit : Fin 10) : digitFormat.ReadsBack digit := by
  have hdigit : ∀ digit : Fin 10, isdigit (48 + digit.val.toUInt8) ∧
      digitValue (48 + digit.val.toUInt8) = digit ∧ (0 : UInt8) ≠ 48 + digit.val.toUInt8 := by
    decide
  obtain ⟨hchar, hvalue, hzero⟩ := hdigit digit
  refine ⟨⟨_, [], rfl, Or.inr hchar⟩, ?_, ?_, ?_⟩
  · intro hmem
    exact hzero (List.mem_singleton.mp hmem)
  · revert digit
    decide
  · intro rest hrest
    have hnext : ¬ rest.head?.any isdigit := by
      cases rest with
      | nil => exact Bool.noConfusion
      | cons c rest =>
        intro hc
        rcases hrest c rfl with rfl | rfl | rfl | hspace
        · cases hc
        · cases hc
        · cases hc
        · rw [isspace_of_number (Or.inr hc)] at hspace
          cases hspace
    show (if _ then some (digitValue (48 + digit.val.toUInt8), 1) else none) = _
    rw [if_pos ⟨hchar, hnext⟩, hvalue]
    rfl

/-- `["\"", "x"]`. -/
def sampleItems : JsonValue (Fin 10) := .array [.string [34], .string [120]]

/-- The cells of an object with the names `a` and `b`. -/
def sampleCells (a b : ℕ) : List (Option ℕ) :=
  List.replicate 6 none ++ [some a, some b] ++ List.replicate 8 none

/-- The item of the name `a`, which has the number 9. -/
def sampleA : Item (JsonValue (Fin 10)) := ⟨[97], .number (Fin.last 9), hashString [97], 6⟩

/-- The item of the name `b`. -/
def sampleB : Item (JsonValue (Fin 10)) := ⟨[98], sampleItems, hashString [98], 7⟩

/-- `{"a": 9, "b": ["\"", "x"]}`. -/
def sampleValue : JsonValue (Fin 10) := .object ⟨sampleCells 0 1, [sampleA, sampleB], 11⟩

/-- The same with its members in the other order. -/
def sampleSwapped : JsonValue (Fin 10) := .object ⟨sampleCells 1 0, [sampleB, sampleA], 11⟩

theorem sampleItems_wellFormed : sampleItems.WellFormed :=
  .array (List.forall_mem_cons.mpr ⟨.string, List.forall_mem_singleton.mpr .string⟩)

/-- An object with two members, from the calls that add them. -/
theorem wellFormed_two {a b : Item (JsonValue N)} {mid object : JsonObject (JsonValue N)}
    (hadd : jsonObjectAdd (jsonObjectMake (JsonValue N)) a.name a.value = some (mid, .success))
    (hadd' : jsonObjectAdd mid b.name b.value = some (object, .success))
    (ha : 0 ∉ a.name ∧ a.value.WellFormed) (hb : 0 ∉ b.name ∧ b.value.WellFormed) :
    (JsonValue.object object).WellFormed := by
  obtain ⟨hinv, hentries⟩ := entries_of_add inv_make hadd
  obtain ⟨hinv', hentries'⟩ := entries_of_add hinv hadd'
  have hmid : Holds JsonValue.WellFormed mid := holds_make.append hinv hentries ha.1 ha.2
  exact wellFormed_object_iff.mpr (hmid.append hinv' hentries' hb.1 hb.2)

theorem sampleValue_wellFormed : sampleValue.WellFormed := by
  have hadd : jsonObjectAdd (jsonObjectMake (JsonValue (Fin 10))) sampleA.name sampleA.value =
      some (⟨List.replicate 6 none ++ [some 0] ++ List.replicate 9 none, [sampleA], 11⟩,
        .success) := rfl
  have ha : 0 ∉ sampleA.name := by decide
  have hb : 0 ∉ sampleB.name := by decide
  exact wellFormed_two hadd rfl ⟨ha, .number⟩ ⟨hb, sampleItems_wellFormed⟩

theorem sampleValue_short (isPretty : Bool) : ShortText digitFormat isPretty sampleValue := by
  unfold ShortText
  cases isPretty <;> decide +kernel

theorem sampleSwapped_wellFormed : sampleSwapped.WellFormed := by
  have hadd : jsonObjectAdd (jsonObjectMake (JsonValue (Fin 10))) sampleB.name sampleB.value =
      some (⟨List.replicate 7 none ++ [some 0] ++ List.replicate 8 none, [sampleB], 11⟩,
        .success) := rfl
  have ha : 0 ∉ sampleA.name := by decide
  have hb : 0 ∉ sampleB.name := by decide
  exact wellFormed_two hadd rfl ⟨hb, sampleItems_wellFormed⟩ ⟨ha, .number⟩

theorem json_round_trip_sample :
    (∃ text, jsonSerializeToString digitFormat sampleValue = some text ∧
        (jsonParseString digitFormat text).map JsonValue.tree = some sampleValue.tree) ∧
      ∃ text, jsonSerializeToStringPretty digitFormat sampleValue = some text ∧
        (jsonParseString digitFormat text).map JsonValue.tree = some sampleValue.tree := by
  have hdepth : sampleValue.tree.depth ≤ maxNesting := by
    decide
  have h := json_round_trip digitFormat_readsBack sampleValue_wellFormed
  rw [if_pos hdepth] at h
  exact ⟨h.1 (sampleValue_short false), h.2 (sampleValue_short true)⟩

/-- Whatever text is read: the value is well formed, its two texts are read as the same tree, and
these are written as the same texts again, as far as their lengths are of the type `int`. -/
theorem json_reparse (hnumbers : ∀ number, format.ReadsBack number) {string : List UInt8}
    {value : JsonValue N} (h : jsonParseString format string = some value) :
    value.WellFormed ∧ value.tree.depth ≤ maxNesting ∧
      (ShortText format false value → ∃ text value',
        jsonSerializeToString format value = some text ∧
        jsonParseString format text = some value' ∧ value'.tree = value.tree ∧
        jsonSerializeToString format value' = some text) ∧
      (ShortText format true value → ∃ text value',
        jsonSerializeToStringPretty format value = some text ∧
        jsonParseString format text = some value' ∧ value'.tree = value.tree ∧
        jsonSerializeToStringPretty format value' = some text) := by
  obtain ⟨⟨parsed, rest⟩, hparse, rfl⟩ := Option.map_eq_some_iff.mp h
  obtain ⟨hvalue, hdepth⟩ := parseValue_allowed _ _ _ _ hparse
  have hdepth := Nat.le_of_lt_succ hdepth
  have hagain : ∀ isPretty, ShortText format isPretty parsed → ∃ text value',
      serializeToString format isPretty parsed = some text ∧
      jsonParseString format text = some value' ∧ value'.tree = parsed.tree ∧
      serializeToString format isPretty value' = some text := by
    intro isPretty hshort
    have htext := jsonParseString_serialize hnumbers hvalue isPretty
    rw [if_pos hdepth] at htext
    obtain ⟨value', hvalue', htree⟩ := Option.map_eq_some_iff.mp htext
    have hsame : serialize format isPretty 0 value' = serialize format isPretty 0 parsed :=
      serialize_eq_of_tree hvalue 0 value' htree
    have hshort' : ShortText format isPretty value' := by
      rwa [ShortText, hsame]
    refine ⟨_, value', serializeToString_of_short hshort, hvalue', htree, ?_⟩
    rw [serializeToString_of_short hshort', hsame]
  exact ⟨hvalue, hdepth, hagain false, hagain true⟩

/-- The text of the sample is a text that is read. -/
theorem json_reparse_sample : ∃ string value,
    jsonSerializeToString digitFormat sampleValue = some string ∧
      jsonParseString digitFormat string = some value ∧
      value.WellFormed ∧ value.tree.depth ≤ maxNesting ∧
      (∃ text value', jsonSerializeToString digitFormat value = some text ∧
        jsonParseString digitFormat text = some value' ∧ value'.tree = value.tree ∧
        jsonSerializeToString digitFormat value' = some text) ∧
      ∃ text value', jsonSerializeToStringPretty digitFormat value = some text ∧
        jsonParseString digitFormat text = some value' ∧ value'.tree = value.tree ∧
        jsonSerializeToStringPretty digitFormat value' = some text := by
  have hdepth : sampleValue.tree.depth ≤ maxNesting := by
    decide
  have htext := jsonParseString_serialize digitFormat_readsBack sampleValue_wellFormed false
  rw [if_pos hdepth] at htext
  obtain ⟨value, hvalue, htree⟩ := Option.map_eq_some_iff.mp htext
  have hshort (isPretty : Bool) : ShortText digitFormat isPretty value := by
    rw [ShortText, serialize_eq_of_tree sampleValue_wellFormed 0 value htree]
    exact sampleValue_short isPretty
  obtain ⟨hwell, hnested, hcompact, hpretty⟩ := json_reparse digitFormat_readsBack hvalue
  exact ⟨_, value, serializeToString_of_short (sampleValue_short false), hvalue, hwell, hnested,
    hcompact (hshort false), hpretty (hshort true)⟩

end CDevHws.Hw08
