import CDevHws.Hw08.Json
import CDevHws.Hw08.Proofs.JsonStringProofs
import CDevHws.Hw08.Proofs.ObjectAddProofs

/-!
# Proofs: whatever is serialized is read back

By induction on the value, for both forms of the text. The text between two items is blank but for
the comma, so that the loops begin each round at the first byte of an item.
-/

namespace CDevHws.Hw08

open CString (isspace isdigit)

variable {N : Type}

/-! ## Trees -/

theorem itemTrees_eq (items : List (JsonValue N)) : itemTrees items = items.map JsonValue.tree := by
  induction items with
  | nil => rfl
  | cons item items ih => rw [itemTrees, ih, List.map_cons]

theorem memberTrees_eq (items : List (Item (JsonValue N))) :
    memberTrees items = items.map fun item => (item.name, item.value.tree) := by
  induction items with
  | nil => rfl
  | cons item items ih =>
    obtain ⟨name, value, hash, cellIx⟩ := item
    rw [memberTrees, ih, List.map_cons, memberTree]

/-- The names of an object, with the trees of the values. -/
def JsonObject.trees (object : JsonObject (JsonValue N)) : List (List UInt8 × Json N) :=
  object.entries.map fun entry => (entry.1, entry.2.tree)

theorem tree_object (object : JsonObject (JsonValue N)) :
    (JsonValue.object object).tree = .object object.trees := by
  have hmembers : objectTrees object = memberTrees object.items := by
    cases object
    rw [objectTrees]
  rw [JsonValue.tree, hmembers, memberTrees_eq]
  unfold JsonObject.trees JsonObject.entries
  rw [List.map_map]
  rfl

theorem tree_array (items : List (JsonValue N)) :
    (JsonValue.array items).tree = .array (items.map JsonValue.tree) := by
  rw [JsonValue.tree, itemTrees_eq]

theorem itemsDepth_le {items : List (Json N)} {n : ℕ} :
    itemsDepth items ≤ n ↔ ∀ item ∈ items, item.depth < n := by
  induction items with
  | nil => exact ⟨fun _ item hmem => absurd hmem List.not_mem_nil, fun _ => Nat.zero_le n⟩
  | cons item items ih => rw [itemsDepth, Nat.max_le, ih, List.forall_mem_cons, Nat.succ_le_iff]

theorem membersDepth_le {members : List (List UInt8 × Json N)} {n : ℕ} :
    membersDepth members ≤ n ↔ ∀ member ∈ members, member.2.depth < n := by
  induction members with
  | nil => exact ⟨fun _ member hmem => absurd hmem List.not_mem_nil, fun _ => Nat.zero_le n⟩
  | cons member members ih =>
    have hmember : memberDepth member = member.2.depth := by
      cases member
      rw [memberDepth]
    rw [membersDepth, Nat.max_le, ih, List.forall_mem_cons, Nat.succ_le_iff, hmember]

theorem depth_array_le {items : List (JsonValue N)} {n : ℕ} :
    (JsonValue.array items).tree.depth ≤ n ↔ ∀ item ∈ items, item.tree.depth < n := by
  rw [tree_array, Json.depth, itemsDepth_le, List.forall_mem_map]

theorem depth_object_le {object : JsonObject (JsonValue N)} {n : ℕ} :
    (JsonValue.object object).tree.depth ≤ n ↔
      ∀ item ∈ object.items, item.value.tree.depth < n := by
  rw [tree_object, Json.depth, membersDepth_le]
  unfold JsonObject.trees JsonObject.entries
  rw [List.forall_mem_map, List.forall_mem_map]

/-! ## White space -/

/-- A text of white space. -/
def Blank (text : List UInt8) : Prop := ∀ c ∈ text, isspace c

theorem Blank.append {s t : List UInt8} (hs : Blank s) (ht : Blank t) : Blank (s ++ t) := by
  intro c hc
  exact (List.mem_append.mp hc).elim (hs c) (ht c)

theorem Blank.whenPretty {text : List UInt8} (h : Blank text) (isPretty : Bool) :
    Blank (whenPretty isPretty text) := by
  intro c hc
  cases isPretty with
  | true => exact h c hc
  | false => cases hc

theorem blank_replicate (n : ℕ) {c : UInt8} (h : isspace c) : Blank (List.replicate n c) := by
  intro c' hc'
  rw [List.eq_of_mem_replicate hc']
  exact h

theorem blank_newline : Blank (bytes "\n") := blank_replicate 1 rfl

theorem blank_space : Blank (bytes " ") := blank_replicate 1 rfl

theorem blank_indent (level : ℕ) : Blank (indent level) := by
  have hfour : Blank (bytes "    ") := blank_replicate 4 rfl
  intro c hc
  obtain ⟨text, htext, hmem⟩ := List.mem_flatten.mp hc
  rw [List.eq_of_mem_replicate htext] at hmem
  exact hfour c hmem

theorem skipWhitespaces_blank {text : List UInt8} (h : Blank text) (s : List UInt8) :
    skipWhitespaces (text ++ s) = skipWhitespaces s := by
  unfold skipWhitespaces
  exact List.dropWhile_append_of_pos h

theorem skipWhitespaces_cons {c : UInt8} (h : isspace c = false) (s : List UInt8) :
    skipWhitespaces (c :: s) = c :: s := by
  refine List.dropWhile_cons_of_neg ?_
  rw [h]
  exact Bool.noConfusion

theorem skipWhitespaces_idem (s : List UInt8) :
    skipWhitespaces (skipWhitespaces s) = skipWhitespaces s :=
  List.dropWhile_eq_self_iff.mpr (List.dropWhile_get_zero_not _ s)

theorem length_skipWhitespaces_le (s : List UInt8) : (skipWhitespaces s).length ≤ s.length :=
  List.length_dropWhile_le ..

theorem parseValue_skipWhitespaces (format : NumberFormat N) (left : ℕ) (s : List UInt8) :
    parseValue format left (skipWhitespaces s) = parseValue format left s := by
  cases left with
  | zero => rfl
  | succ left => rw [parseValue, parseValue, skipWhitespaces_idem]

/-! ## The text of a container -/

/-- The texts of items or members, one after the other. -/
def listText (isPretty : Bool) (level : ℕ) : List (List UInt8) → List UInt8
  | [] => []
  | text :: texts =>
    whenPretty isPretty (indent (level + 1)) ++ text ++ (if texts.isEmpty then [] else bytes ",") ++
      whenPretty isPretty (bytes "\n") ++ listText isPretty level texts

/-- The text of a container behind its first byte. -/
def containerText (isPretty : Bool) (level : ℕ) (texts : List (List UInt8)) (close : UInt8) :
    List UInt8 :=
  whenPretty (isPretty && !texts.isEmpty) (bytes "\n") ++ (listText isPretty level texts ++
    (whenPretty (isPretty && !texts.isEmpty) (indent level) ++ [close]))

section Texts

variable {format : NumberFormat N} {isPretty : Bool} {level : ℕ}

theorem serializeItems_eq (items : List (JsonValue N)) :
    serializeItems format isPretty level items =
      listText isPretty level (items.map (serialize format isPretty (level + 1))) := by
  induction items with
  | nil => rw [serializeItems, List.map_nil, listText]
  | cons item items ih => rw [serializeItems, List.map_cons, listText, List.isEmpty_map, ih]

theorem serializeMembers_eq (items : List (Item (JsonValue N))) :
    serializeMembers format isPretty level items =
      listText isPretty level (items.map (serializeMember format isPretty level)) := by
  induction items with
  | nil => rw [serializeMembers, List.map_nil, listText]
  | cons item items ih => rw [serializeMembers, List.map_cons, listText, List.isEmpty_map, ih]

theorem serialize_array (items : List (JsonValue N)) :
    serialize format isPretty level (.array items) =
      91 :: containerText isPretty level
        (items.map (serialize format isPretty (level + 1))) 93 := by
  unfold containerText
  rw [serialize, serializeItems_eq, List.isEmpty_map]
  simp only [List.append_assoc]
  rfl

theorem serialize_object (object : JsonObject (JsonValue N)) :
    serialize format isPretty level (.object object) =
      123 :: containerText isPretty level
        (object.items.map (serializeMember format isPretty level)) 125 := by
  unfold containerText
  cases object
  rw [serialize, serializeObject, serializeMembers_eq, List.isEmpty_map]
  simp only [List.append_assoc]
  rfl

/-- A name and a value, as they are written. -/
def memberText (space : List UInt8) (text : JsonValue N → List UInt8)
    (item : Item (JsonValue N)) : List UInt8 :=
  jsonSerializeString (CString.ofBytes item.name) ++ (58 :: (space ++ text item.value))

theorem serializeMember_eq : serializeMember format isPretty level =
    memberText (whenPretty isPretty (bytes " ")) (serialize format isPretty (level + 1)) := by
  funext item
  cases item
  rw [serializeMember, memberText]
  simp only [List.append_assoc]
  rfl

end Texts

/-- What comes after an item, in a text that ends with `last`. -/
def afterItem (isPretty : Bool) (level : ℕ) (texts : List (List UInt8)) (last : List UInt8) :
    List UInt8 :=
  (if texts.isEmpty then [] else bytes ",") ++
    (whenPretty isPretty (bytes "\n") ++ (listText isPretty level texts ++ last))

section AfterItem

variable {isPretty : Bool} {level : ℕ} {texts : List (List UInt8)} {text blank rest : List UInt8}
  {c : UInt8}

theorem listText_cons (last : List UInt8) : listText isPretty level (text :: texts) ++ last =
    whenPretty isPretty (indent (level + 1)) ++ (text ++ afterItem isPretty level texts last) := by
  unfold afterItem
  rw [listText]
  simp only [List.append_assoc]

/-- After white space comes the next item. -/
theorem skipWhitespaces_listText (hhead : ∃ c s, text = c :: s ∧ isspace c = false)
    (last : List UInt8) : skipWhitespaces (listText isPretty level (text :: texts) ++ last) =
      text ++ afterItem isPretty level texts last := by
  obtain ⟨c, s, rfl, hc⟩ := hhead
  rw [listText_cons, skipWhitespaces_blank ((blank_indent _).whenPretty _), List.cons_append,
    skipWhitespaces_cons hc]

/-- After the last item comes the end of the container. -/
theorem skipWhitespaces_afterItem_nil (isPretty : Bool) (level : ℕ) (rest : List UInt8)
    (hblank : Blank blank) (hc : isspace c = false) :
    skipWhitespaces (afterItem isPretty level [] (blank ++ c :: rest)) = c :: rest := by
  show skipWhitespaces (whenPretty isPretty (bytes "\n") ++ (blank ++ c :: rest)) = _
  rw [skipWhitespaces_blank (blank_newline.whenPretty _), skipWhitespaces_blank hblank,
    skipWhitespaces_cons hc]

/-- After another item come a comma and the next items. -/
theorem skipWhitespaces_afterItem_cons (isPretty : Bool) (level : ℕ) (text : List UInt8)
    (texts : List (List UInt8)) (last : List UInt8) : ∃ s,
    skipWhitespaces (afterItem isPretty level (text :: texts) last) = 44 :: s ∧
      skipWhitespaces s = skipWhitespaces (listText isPretty level (text :: texts) ++ last) ∧
      s.length < (afterItem isPretty level (text :: texts) last).length := by
  refine ⟨whenPretty isPretty (bytes "\n") ++ (listText isPretty level (text :: texts) ++ last),
    skipWhitespaces_cons rfl _, skipWhitespaces_blank (blank_newline.whenPretty _) _, ?_⟩
  exact Nat.lt_succ_self _

theorem skipWhitespaces_containerText_nil (hc : isspace c = false) :
    skipWhitespaces (containerText isPretty level [] c ++ rest) = c :: rest := by
  have hnone : containerText isPretty level [] c = [c] := by
    unfold containerText
    rw [List.isEmpty_nil, Bool.not_true, Bool.and_false]
    rfl
  rw [hnone]
  exact skipWhitespaces_cons hc rest

theorem skipWhitespaces_containerText_cons (isPretty : Bool) (level : ℕ) (text : List UInt8)
    (texts : List (List UInt8)) (c : UInt8) (rest : List UInt8) : ∃ blank, Blank blank ∧
    skipWhitespaces (containerText isPretty level (text :: texts) c ++ rest) =
      skipWhitespaces (listText isPretty level (text :: texts) ++ (blank ++ c :: rest)) := by
  refine ⟨whenPretty isPretty (indent level), (blank_indent level).whenPretty _, ?_⟩
  unfold containerText
  rw [List.isEmpty_cons, Bool.not_false, Bool.and_true, List.append_assoc,
    skipWhitespaces_blank (blank_newline.whenPretty _), List.append_assoc, List.append_assoc]
  rfl

theorem delimited_blank (hblank : Blank blank) (hc : c = 44 ∨ c = 93 ∨ c = 125) :
    Delimited (blank ++ c :: rest) := by
  intro d hd
  cases blank with
  | nil =>
    cases hd
    exact hc.elim Or.inl fun h => Or.inr (h.elim Or.inl fun h => Or.inr (Or.inl h))
  | cons e blank =>
    cases hd
    exact Or.inr (Or.inr (Or.inr (hblank d List.mem_cons_self)))

theorem delimited_afterItem (isPretty : Bool) (level : ℕ) (texts : List (List UInt8))
    (hblank : Blank blank) (hc : c = 93 ∨ c = 125) :
    Delimited (afterItem isPretty level texts (blank ++ c :: rest)) := by
  cases texts with
  | nil =>
    have hlast : afterItem isPretty level [] (blank ++ c :: rest) =
        (whenPretty isPretty (bytes "\n") ++ blank) ++ c :: rest := by
      rw [List.append_assoc]
      rfl
    rw [hlast]
    exact delimited_blank ((blank_newline.whenPretty _).append hblank) (Or.inr hc)
  | cons text texts =>
    intro d hd
    cases hd
    exact Or.inl rfl

end AfterItem

/-! ## Reading a text -/

theorem isspace_of_number {c : UInt8} (h : c = 45 ∨ isdigit c) : isspace c = false := by
  rcases h with rfl | h
  · rfl
  · unfold isdigit at h
    unfold isspace
    simp only [Bool.and_eq_true, decide_eq_true_eq, UInt8.le_iff_toNat_le] at h
    simp only [Bool.or_eq_false_iff, Bool.and_eq_false_iff, decide_eq_false_iff_not,
      beq_eq_false_iff_ne, ne_eq, UInt8.le_iff_toNat_le, ← UInt8.toNat_inj]
    have h48 : (48 : UInt8).toNat = 48 := rfl
    have h13 : (13 : UInt8).toNat = 13 := rfl
    have h32 : (32 : UInt8).toNat = 32 := rfl
    omega

theorem ne_of_number {c : UInt8} (h : c = 45 ∨ isdigit c) (d : UInt8)
    (hd : ¬ (d = 45 ∨ isdigit d)) : c ≠ d := by
  rintro rfl
  exact hd h

/-- Every text begins with a byte that is neither blank nor the end of a container, nor the
beginning of a byte order mark. -/
theorem serialize_head {format : NumberFormat N} (hnumbers : ∀ number, format.ReadsBack number)
    (isPretty : Bool) (level : ℕ) (value : JsonValue N) :
    ∃ c s, serialize format isPretty level value = c :: s ∧ isspace c = false ∧
      c ≠ 93 ∧ c ≠ 125 ∧ c ≠ 0xEF := by
  cases value with
  | null => exact ⟨110, _, by rw [serialize]; rfl, rfl, by decide, by decide, by decide⟩
  | boolean boolean =>
    cases boolean with
    | true => exact ⟨116, _, by rw [serialize]; rfl, rfl, by decide, by decide, by decide⟩
    | false => exact ⟨102, _, by rw [serialize]; rfl, rfl, by decide, by decide, by decide⟩
  | number number =>
    obtain ⟨c, s, htext, hc⟩ := (hnumbers number).head
    exact ⟨c, s, by rw [serialize, htext], isspace_of_number hc, ne_of_number hc 93 (by decide),
      ne_of_number hc 125 (by decide), ne_of_number hc 0xEF (by decide)⟩
  | string chars => exact ⟨34, _, by rw [serialize]; rfl, rfl, by decide, by decide, by decide⟩
  | array items => exact ⟨91, _, serialize_array items, rfl, by decide, by decide, by decide⟩
  | object object => exact ⟨123, _, serialize_object object, rfl, by decide, by decide, by decide⟩

/-- A parsing function reads a tree from a text if `fits`, and fails otherwise. -/
def Reads (parse : Parser N) (text : List UInt8) (tree : Json N) (fits : Prop) : Prop :=
  ∀ rest, Delimited rest →
    (fits → ∃ value, parse (text ++ rest) = some (value, rest) ∧ value.tree = tree) ∧
      (¬ fits → parse (text ++ rest) = none)

section Scalars

variable {format : NumberFormat N} {left : ℕ}

theorem parseValue_object (s : List UInt8) : parseValue format (left + 1) (123 :: s) =
    parseObjectValue (parseValue format left) s := by
  rw [parseValue, skipWhitespaces_cons rfl]
  rfl

theorem parseValue_array (s : List UInt8) : parseValue format (left + 1) (91 :: s) =
    parseArrayValue (parseValue format left) s := by
  rw [parseValue, skipWhitespaces_cons rfl]
  rfl

theorem parseValue_null (rest : List UInt8) :
    parseValue format (left + 1) (bytes "null" ++ rest) = some (.null, rest) := by
  show parseValue format (left + 1) (110 :: ([117, 108, 108] ++ rest)) = _
  rw [parseValue, skipWhitespaces_cons rfl]
  show (if bytes "null" <+: bytes "null" ++ rest then some (JsonValue.null, rest) else none) = _
  rw [if_pos (List.prefix_append _ _)]

theorem parseValue_true (rest : List UInt8) :
    parseValue format (left + 1) (bytes "true" ++ rest) = some (.boolean true, rest) := by
  show parseValue format (left + 1) (116 :: ([114, 117, 101] ++ rest)) = _
  rw [parseValue, skipWhitespaces_cons rfl]
  show parseBooleanValue (bytes "true" ++ rest) = _
  unfold parseBooleanValue
  rw [if_pos (List.prefix_append _ _)]
  rfl

theorem parseValue_false (rest : List UInt8) :
    parseValue format (left + 1) (bytes "false" ++ rest) = some (.boolean false, rest) := by
  show parseValue format (left + 1) (102 :: ([97, 108, 115, 101] ++ rest)) = _
  rw [parseValue, skipWhitespaces_cons rfl]
  show parseBooleanValue (bytes "false" ++ rest) = _
  have htrue : ¬ bytes "true" <+: bytes "false" ++ rest := by
    rintro ⟨t, ht⟩
    cases ht
  unfold parseBooleanValue
  rw [if_neg htrue, if_pos (List.prefix_append _ _)]
  rfl

theorem parseValue_string (s rest : List UInt8) :
    parseValue format (left + 1) (jsonSerializeString s ++ rest) = some (.string s, rest) := by
  have htext : jsonSerializeString s ++ rest = 34 :: (s.flatMap escape ++ [34] ++ rest) := rfl
  have hstring : parseStringValue (N := N) (jsonSerializeString s ++ rest) =
      some (.string s, rest) := by
    unfold parseStringValue
    rw [getQuotedString_jsonSerializeString]
    rfl
  rw [htext] at hstring ⊢
  rw [parseValue, skipWhitespaces_cons rfl]
  exact hstring

/-- `is_decimal` looks at the number only. -/
theorem isDecimal_append (s rest : List UInt8) :
    isDecimal (s ++ rest) s.length = isDecimal s s.length := by
  have hget : ∀ i < s.length, (s ++ rest)[i]? = s[i]? := fun i hi => List.getElem?_append_left hi
  have hzero : (s.length > 1 ∧ (s ++ rest)[0]? = some 48 ∧ (s ++ rest)[1]? ≠ some 46) ↔
      (s.length > 1 ∧ s[0]? = some 48 ∧ s[1]? ≠ some 46) := by
    refine and_congr_right fun hlen => ?_
    rw [hget 0 (by omega), hget 1 hlen]
  have hminus : (s.length > 2 ∧ (s ++ rest).take 2 = [45, 48] ∧ (s ++ rest)[2]? ≠ some 46) ↔
      (s.length > 2 ∧ s.take 2 = [45, 48] ∧ s[2]? ≠ some 46) := by
    refine and_congr_right fun hlen => ?_
    rw [hget 2 hlen, List.take_append_of_le_length (by omega)]
  unfold isDecimal
  simp only [hzero, hminus, List.take_left, List.take_length]

theorem parseValue_number {number : N} (h : format.ReadsBack number) {rest : List UInt8}
    (hrest : Delimited rest) : parseValue format (left + 1) (format.sprintf number ++ rest) =
      some (.number number, rest) := by
  have hnumber : parseNumberValue format (format.sprintf number ++ rest) =
      some (.number number, rest) := by
    unfold parseNumberValue
    simp only [h.strtod rest hrest, isDecimal_append, h.decimal, Option.bind_eq_bind,
      Option.bind_some, if_true, List.drop_left, Option.pure_def]
  obtain ⟨c, s, htext, hc⟩ := h.head
  rw [htext, List.cons_append] at hnumber ⊢
  rw [parseValue, skipWhitespaces_cons (isspace_of_number hc)]
  show (if c = 123 then _ else if c = 91 then _ else if c = 34 then _
    else if c = 102 ∨ c = 116 then _ else _) = _
  have hword : ¬ (c = 102 ∨ c = 116) := by
    rintro (rfl | rfl)
    · exact absurd hc (by decide)
    · exact absurd hc (by decide)
  rw [if_neg (ne_of_number hc 123 (by decide)), if_neg (ne_of_number hc 91 (by decide)),
    if_neg (ne_of_number hc 34 (by decide)), if_neg hword, if_pos hc]
  exact hnumber

end Scalars

/-! ## Arrays -/

section Arrays

variable {parse : Parser N} {text : JsonValue N → List UInt8} {fits : JsonValue N → Prop}
  {isPretty : Bool} {level : ℕ} {blank rest : List UInt8}

theorem closeArray_bracket (items : List (JsonValue N)) :
    closeArray items (93 :: rest) = some (.array items, rest) := by
  unfold closeArray
  rw [skipWhitespaces_cons rfl]
  rfl

/-- The loop reads all items if each of them fits. -/
theorem arrayLoop_spec (hblank : Blank blank)
    (hhead : ∀ item, ∃ c s, text item = c :: s ∧ isspace c = false ∧ c ≠ 93)
    {items : List (JsonValue N)} :
    (∀ item ∈ items, Reads parse (text item) item.tree (fits item)) → items ≠ [] →
    ∀ fuel string acc,
      string = skipWhitespaces (listText isPretty level (items.map text) ++ (blank ++ 93 :: rest)) →
      string.length < fuel →
      ((∀ item ∈ items, fits item) → ∃ items', items'.map JsonValue.tree =
          items.map JsonValue.tree ∧
        arrayLoop parse fuel acc string = some (.array (acc ++ items'), rest)) ∧
      (¬ (∀ item ∈ items, fits item) → arrayLoop parse fuel acc string = none) := by
  induction items with
  | nil => exact fun _ hne => absurd rfl hne
  | cons item items ih =>
    intro hreads _ fuel string acc hstring hfuel
    obtain ⟨c, s, hc, hspace, -⟩ := hhead item
    rw [List.map_cons, skipWhitespaces_listText ⟨c, s, hc, hspace⟩] at hstring
    have hne : string ≠ [] := by
      rw [hstring, hc]
      exact List.cons_ne_nil _ _
    obtain ⟨hfits, hunfits⟩ := hreads item List.mem_cons_self _
      (delimited_afterItem isPretty level (items.map text) hblank (Or.inl rfl))
    rw [← hstring] at hfits hunfits
    cases fuel with
    | zero => omega
    | succ fuel =>
      rw [arrayLoop, if_neg hne]
      by_cases hitem : fits item
      · obtain ⟨value, hparse, htree⟩ := hfits hitem
        rw [hparse, Option.bind_eq_bind, Option.bind_some]
        cases items with
        | nil =>
          have hend := skipWhitespaces_afterItem_nil isPretty level rest hblank (c := 93) rfl
          refine ⟨fun _ => ⟨[value], by rw [List.map_singleton, List.map_singleton, htree], ?_⟩,
            fun hno => absurd (List.forall_mem_singleton.mpr hitem) hno⟩
          simp only [List.map_nil, hend]
          exact closeArray_bracket _
        | cons next items =>
          obtain ⟨s', hcomma, hskip, hlen⟩ := skipWhitespaces_afterItem_cons isPretty level
            (text next) (items.map text) (blank ++ 93 :: rest)
          obtain ⟨c', t', hc', hspace', hclose⟩ := hhead next
          have hnext : (skipWhitespaces s').head? ≠ some 93 := by
            rw [hskip, skipWhitespaces_listText ⟨c', t', hc', hspace'⟩, hc']
            exact fun heq => hclose (Option.some.inj heq)
          have hshort : (skipWhitespaces s').length < fuel := by
            have hle := length_skipWhitespaces_le s'
            rw [hstring, List.length_append] at hfuel
            rw [List.map_cons] at hfuel
            omega
          simp only [List.map_cons, hcomma, List.head?_cons, if_true, List.tail_cons, hnext,
            if_false]
          obtain ⟨hall, hsome⟩ := ih (fun item hmem => hreads item (List.mem_cons_of_mem _ hmem))
            (List.cons_ne_nil _ _) fuel _ (acc ++ [value]) hskip hshort
          constructor
          · intro hfit
            obtain ⟨items', htrees, hloop⟩ := hall fun item hmem =>
              hfit item (List.mem_cons_of_mem _ hmem)
            refine ⟨value :: items', ?_, ?_⟩
            · rw [List.map_cons, htree, htrees]
              rfl
            · rw [hloop, List.append_assoc]
              rfl
          · intro hno
            refine hsome fun hfit => hno ?_
            exact List.forall_mem_cons.mpr ⟨hitem, hfit⟩
      · rw [hunfits hitem]
        exact ⟨fun hfit => absurd (hfit item List.mem_cons_self) hitem, fun _ => rfl⟩

end Arrays

/-! ## Objects -/

section Objects

variable {parse : Parser N} {text : JsonValue N → List UInt8} {isPretty : Bool} {level : ℕ}
  {blank space rest : List UInt8}

theorem memberText_head (item : Item (JsonValue N)) :
    ∃ c s, memberText space text item = c :: s ∧ isspace c = false := ⟨34, _, rfl, rfl⟩

theorem closeObject_brace (object : JsonObject (JsonValue N)) :
    closeObject object (125 :: rest) = some (.object object, rest) := by
  unfold closeObject
  rw [skipWhitespaces_cons rfl]
  rfl

theorem ofBytes_eq {name : List UInt8} (h : 0 ∉ name) : CString.ofBytes name = name := by
  unfold CString.ofBytes
  rw [List.takeWhile_eq_self_iff]
  intro c hc
  exact decide_eq_true fun heq => h (heq ▸ hc)

theorem JsonObject.trees_keys (object : JsonObject (JsonValue N)) :
    object.trees.map Prod.fst = object.names := by
  rw [← object.entries_keys]
  unfold JsonObject.trees
  rw [List.map_map]
  rfl

theorem memberText_append_ne_nil (item : Item (JsonValue N)) (tail : List UInt8) :
    memberText space text item ++ tail ≠ [] := List.cons_ne_nil _ _

section Member

variable {item : Item (JsonValue N)} {fuel : ℕ} {object object' : JsonObject (JsonValue N)}
  {tail : List UInt8} (hname : 0 ∉ item.name) (hspace : Blank space)
  (hskip : ∀ s, parse (skipWhitespaces s) = parse s)

include hname

/-- The name is read, and the value comes next. -/
theorem getQuotedString_memberText : getQuotedString (memberText space text item ++ tail) =
    some (item.name, 58 :: (space ++ (text item.value ++ tail))) := by
  rw [memberText, List.append_assoc, getQuotedString_jsonSerializeString, ofBytes_eq hname,
    List.cons_append, List.append_assoc]

include hspace hskip

theorem objectLoop_none (hparse : parse (text item.value ++ tail) = none) :
    objectLoop parse (fuel + 1) object (memberText space text item ++ tail) = none := by
  have hvalue : parse (space ++ (text item.value ++ tail)) = none := by
    rw [← hskip, skipWhitespaces_blank hspace, hskip, hparse]
  have hcolon := skipWhitespaces_cons (c := 58) rfl (space ++ (text item.value ++ tail))
  rw [objectLoop, if_neg (memberText_append_ne_nil item tail), getQuotedString_memberText hname,
    Option.bind_eq_bind, Option.bind_some]
  simp only [ofBytes_eq hname, hcolon, List.head?_cons, List.tail_cons, hvalue, ne_eq,
    not_true_eq_false, if_false]
  rfl

theorem objectLoop_some {value : JsonValue N}
    (hparse : parse (text item.value ++ tail) = some (value, tail))
    (hadd : jsonObjectAdd object item.name value = some (object', .success)) :
    objectLoop parse (fuel + 1) object (memberText space text item ++ tail) =
      if (skipWhitespaces tail).head? = some 44 then
        if (skipWhitespaces (skipWhitespaces tail).tail).head? = some 125 then
          closeObject object' (skipWhitespaces (skipWhitespaces tail).tail)
        else objectLoop parse fuel object' (skipWhitespaces (skipWhitespaces tail).tail)
      else closeObject object' (skipWhitespaces tail) := by
  have hvalue : parse (space ++ (text item.value ++ tail)) = some (value, tail) := by
    rw [← hskip, skipWhitespaces_blank hspace, hskip, hparse]
  have hcolon := skipWhitespaces_cons (c := 58) rfl (space ++ (text item.value ++ tail))
  rw [objectLoop, if_neg (memberText_append_ne_nil item tail), getQuotedString_memberText hname,
    Option.bind_eq_bind, Option.bind_some]
  simp only [ofBytes_eq hname, hcolon, List.head?_cons, List.tail_cons, hvalue, hadd, ne_eq,
    not_true_eq_false, if_false, Option.bind_eq_bind, Option.bind_some]

end Member

/-- The loop reads all members if each of their values fits. -/
theorem objectLoop_spec (fits : JsonValue N → Prop) (hblank : Blank blank) (hspace : Blank space)
    (hskip : ∀ s, parse (skipWhitespaces s) = parse s) {items : List (Item (JsonValue N))} :
    (∀ item ∈ items, Reads parse (text item.value) item.value.tree (fits item.value)) →
    (∀ item ∈ items, 0 ∉ item.name) → items ≠ [] →
    ∀ fuel string (object : JsonObject (JsonValue N)), object.Inv →
      (object.names ++ items.map Item.name).Nodup → object.count + items.length ≤ maxItems →
      string = skipWhitespaces (listText isPretty level (items.map (memberText space text)) ++
        (blank ++ 125 :: rest)) →
      string.length < fuel →
      ((∀ item ∈ items, fits item.value) → ∃ object' : JsonObject (JsonValue N),
        object'.trees = object.trees ++ items.map (fun item => (item.name, item.value.tree)) ∧
        objectLoop parse fuel object string = some (.object object', rest)) ∧
      (¬ (∀ item ∈ items, fits item.value) → objectLoop parse fuel object string = none) := by
  induction items with
  | nil => exact fun _ _ hne => absurd rfl hne
  | cons item items ih =>
    intro hreads hnames _ fuel string object hinv hnodup hmax hstring hfuel
    have hname := hnames item List.mem_cons_self
    rw [List.map_cons, skipWhitespaces_listText (memberText_head item)] at hstring
    obtain ⟨hfits, hunfits⟩ := hreads item List.mem_cons_self _
      (delimited_afterItem isPretty level (items.map (memberText space text)) hblank (Or.inr rfl))
    cases fuel with
    | zero => omega
    | succ fuel =>
      by_cases hitem : fits item.value
      · obtain ⟨value, hparse, htree⟩ := hfits hitem
        have hnew : item.name ∉ object.names := by
          intro hmem
          exact List.disjoint_of_nodup_append hnodup hmem List.mem_cons_self
        rw [List.length_cons] at hmax
        obtain ⟨object', hadd, hinv', hentries⟩ :=
          jsonObjectAdd_new hinv hnew (by omega) value
        have htrees : object'.trees = object.trees ++ [(item.name, item.value.tree)] := by
          unfold JsonObject.trees
          rw [hentries, List.map_append, List.map_singleton, htree]
        rw [hstring, objectLoop_some hname hspace hskip hparse hadd]
        cases items with
        | nil =>
          have hend := skipWhitespaces_afterItem_nil isPretty level rest hblank (c := 125) rfl
          refine ⟨fun _ => ⟨object', htrees, ?_⟩,
            fun hno => absurd (fun other hmem => ?_) hno⟩
          · rw [List.map_nil, hend]
            exact closeObject_brace _
          · rw [List.mem_singleton.mp hmem]
            exact hitem
        | cons next items =>
          obtain ⟨s', hcomma, hnext, hlen⟩ := skipWhitespaces_afterItem_cons isPretty level
            (memberText space text next) (items.map (memberText space text)) (blank ++ 125 :: rest)
          have hquote : (skipWhitespaces s').head? ≠ some 125 := by
            rw [hnext, skipWhitespaces_listText (memberText_head next)]
            exact fun heq => absurd (Option.some.inj heq) (by decide)
          have hshort : (skipWhitespaces s').length < fuel := by
            have hle := length_skipWhitespaces_le s'
            rw [hstring, List.length_append] at hfuel
            rw [List.map_cons] at hfuel
            omega
          have hnodup' : (object'.names ++ (next :: items).map Item.name).Nodup := by
            rw [← object'.trees_keys, htrees, List.map_append, object.trees_keys, List.append_assoc]
            exact hnodup
          have hmax' : object'.count + (next :: items).length ≤ maxItems := by
            rw [count_of_entries hentries]
            omega
          rw [List.map_cons (l := items), hcomma, List.head?_cons, if_pos rfl, List.tail_cons,
            if_neg hquote]
          obtain ⟨hall, hsome⟩ := ih (fun item hmem => hreads item (List.mem_cons_of_mem _ hmem))
            (fun item hmem => hnames item (List.mem_cons_of_mem _ hmem)) (List.cons_ne_nil _ _)
            fuel _ object' hinv' hnodup' hmax' hnext hshort
          constructor
          · intro hfit
            obtain ⟨object'', htrees', hloop⟩ := hall fun item hmem =>
              hfit item (List.mem_cons_of_mem _ hmem)
            refine ⟨object'', ?_, hloop⟩
            rw [htrees', htrees, List.append_assoc]
            rfl
          · intro hno
            refine hsome fun hfit => hno ?_
            exact List.forall_mem_cons.mpr ⟨hitem, hfit⟩
      · rw [hstring, objectLoop_none hname hspace hskip (hunfits hitem)]
        exact ⟨fun hfit => absurd (hfit item List.mem_cons_self) hitem, fun _ => rfl⟩

end Objects

end CDevHws.Hw08
