import CDevHws.Hw08.Weather
import CDevHws.Hw08.Proofs.EqualsProofs

/-!
# Proofs: the weather report

The program goes down the tables of the parsed value, and what it reports is followed on the tree
that the value stands for, step by step.
-/

namespace CDevHws.Hw08

open CString (ofBytes)

variable {N : Type}

/-! ## The transfer -/

/-- The memory holds the bytes so far, and a terminating zero once there are any. -/
structure MemoryStruct.Keeps (mem : MemoryStruct) (kept : List UInt8) : Prop where
  size : mem.size = kept.length
  take : mem.memory.take mem.size = kept
  memory : kept ≠ [] → mem.memory = kept ++ [0]

theorem writeMemoryCallback_keeps {mem : MemoryStruct} {kept : List UInt8} (h : mem.Keeps kept)
    (contents : List UInt8) (reallocated : Bool) :
    (writeMemoryCallback contents reallocated mem).2.Keeps
      (kept ++ received [(contents, reallocated)]) := by
  unfold writeMemoryCallback
  cases reallocated with
  | false =>
    have hreceived : received [(contents, false)] = [] := rfl
    rw [hreceived, List.append_nil]
    exact h
  | true =>
    have hreceived : received [(contents, true)] = contents := List.append_nil contents
    simp only [if_true, hreceived]
    rw [h.take]
    refine ⟨?_, ?_, fun _ => rfl⟩
    · rw [h.size, List.length_append]
    · rw [h.size, ← List.length_append, List.take_left]

theorem received_cons (call : List UInt8 × Bool) (calls : List (List UInt8 × Bool)) :
    received (call :: calls) = received [call] ++ received calls := by
  unfold received
  rw [← List.flatMap_append, ← List.filter_append]
  rfl

theorem foldl_keeps (calls : List (List UInt8 × Bool)) :
    ∀ {mem : MemoryStruct} {kept : List UInt8}, mem.Keeps kept →
      (calls.foldl (fun mem (contents, reallocated) =>
        (writeMemoryCallback contents reallocated mem).2) mem).Keeps (kept ++ received calls) := by
  induction calls with
  | nil =>
    intro mem kept h
    rwa [received, List.filter_nil, List.flatMap_nil, List.append_nil]
  | cons call calls ih =>
    intro mem kept h
    rw [List.foldl_cons, received_cons, ← List.append_assoc]
    exact ih (writeMemoryCallback_keeps h call.1 call.2)

theorem readData_keeps (byte : UInt8) (calls : List (List UInt8 × Bool)) :
    (readData byte calls).Keeps (received calls) :=
  foldl_keeps calls ⟨rfl, rfl, fun h => absurd rfl h⟩

theorem jsonParseString_readData (format : NumberFormat N) (byte : UInt8)
    {calls : List (List UInt8 × Bool)} (hne : received calls ≠ []) :
    jsonParseString format (readData byte calls).memory =
      jsonParseString format (received calls) := by
  unfold jsonParseString
  rw [(readData_keeps byte calls).memory hne, CString.ofBytes_append_nul]

/-! ## Two runs side by side -/

/-- What stops a run, without the message. -/
def Stop.fault : Stop → Fault
  | .undefined => .overflow
  | .exit _ => .missing

/-- The first run stops where the second one does, or they come to results that belong together. -/
inductive Follows {α β : Type} (R : α → β → Prop) : Except Stop α → Except Fault β → Prop
  | ok {a : α} {b : β} (h : R a b) : Follows R (.ok a) (.ok b)
  | error (stop : Stop) : Follows R (.error stop) (.error stop.fault)

theorem Follows.bind {α β γ δ : Type} {R : α → β → Prop} {R' : γ → δ → Prop} {x : Except Stop α}
    {y : Except Fault β} {f : α → Except Stop γ} {g : β → Except Fault δ} (h : Follows R x y)
    (hf : ∀ a b, R a b → Follows R' (f a) (g b)) : Follows R' (x >>= f) (y >>= g) := by
  cases h with
  | ok hR => exact hf _ _ hR
  | error stop => exact .error stop

theorem Follows.exit {α β : Type} {R : α → β → Prop} (message : String) :
    Follows R (.error (.exit message)) (.error .missing) := .error (.exit message)

/-- A value and the tree that it stands for. -/
def StandsFor (value : JsonValue N) (tree : Json N) : Prop :=
  value.WellFormed ∧ value.tree = tree

theorem ok_bind {α β : Type} (a : α) (f : α → Except Stop β) : (Except.ok a >>= f) = f a := rfl

theorem follows_needed {α : Type} (message : String) (a : Option α) :
    Follows Eq (orExit message a) (needed a) := by
  cases a with
  | none => exact .exit message
  | some a => exact .ok rfl

theorem follows_value (message : String) {a : Option (JsonValue N)}
    (h : ∀ value, a = some value → value.WellFormed) :
    Follows StandsFor (orExit message a) (needed (a.map JsonValue.tree)) := by
  cases a with
  | none => exact .exit message
  | some value => exact .ok ⟨h value rfl, rfl⟩

/-- What is stored in memory that has been allocated. Without it the run is not defined. -/
def stored (allocated : Bool) (s : List UInt8) : Except Fault (List UInt8) :=
  if allocated then .ok s else .error .overflow

theorem follows_stored (allocated : Bool) (s : List UInt8) :
    Follows Eq (defined (descCopy allocated s)) (stored allocated s) := by
  cases allocated with
  | false => exact .error .undefined
  | true => exact .ok rfl

theorem follows_intOf (s : List UInt8) : Follows Eq (defined (atoi s)) (intOf s) := by
  unfold intOf
  cases atoi s with
  | none => exact .error .undefined
  | some n => exact .ok rfl

/-! ## What is looked up -/

theorem lookup_map_values {V W : Type} {f : V → W} {name : List UInt8}
    (l : List (List UInt8 × V)) :
    (l.map fun entry => (entry.1, f entry.2)).lookup name = (l.lookup name).map f := by
  induction l with
  | nil => rfl
  | cons entry l ih =>
    rw [List.map_cons, List.lookup_cons, List.lookup_cons]
    cases name == entry.1 with
    | true => rfl
    | false => exact ih

section Object

variable {object : JsonObject (JsonValue N)} (h : Holds JsonValue.WellFormed object)
  {name : String} (hname : 0 ∉ bytes name)

theorem member_object (name : String) : (JsonValue.object object).tree.member name =
    (object.entries.lookup (bytes name)).map JsonValue.tree := by
  rw [tree_object]
  exact lookup_map_values object.entries

omit h in
theorem entries_of_count (hcount : object.count = 0) : object.entries = [] := by
  unfold JsonObject.entries
  rw [List.length_eq_zero_iff.mp hcount, List.map_nil]

include h

theorem Holds.lookup_wellFormed {value : JsonValue N}
    (hlookup : object.entries.lookup (bytes name) = some value) : value.WellFormed :=
  (h.2 _ ((lookup_eq_some_iff_mem h.entries_nodup).mp hlookup)).2

include hname

theorem Holds.getString : jsonObjectGetString object name =
    .ok (((JsonValue.object object).tree.member name).bind Json.text) := by
  unfold jsonObjectGetString
  rw [h.getValue hname, member_object]
  cases object.entries.lookup (bytes name) with
  | none => rfl
  | some value => cases value <;> rfl

theorem Holds.getArray : jsonObjectGetArray object name =
    .ok ((object.entries.lookup (bytes name)).bind jsonValueGetArray) := by
  unfold jsonObjectGetArray
  rw [h.getValue hname]
  rfl

end Object

section Steps

variable {β : Type} {k : JsonValue N → Except Stop Weather} {k' : Json N → Except Fault Weather}
  (hk : ∀ value tree, StandsFor value tree → Follows Eq (k value) (k' tree)) {name : String}
  (hname : 0 ∉ bytes name)

include hk hname

/-- The first item of an array that is looked up in an object. -/
theorem follows_first {object : JsonObject (JsonValue N)} (h : Holds JsonValue.WellFormed object)
    (message message' message'' : String) :
    Follows Eq
      (do
        let array ← orExit message (← jsonObjectGetArray object name)
        exitIf (array.length = 0) message'
        let value ← orExit message'' array.head?
        k value)
      (do
        let tree ← needed (((JsonValue.object object).tree.member name).bind Json.first)
        k' tree) := by
  rw [h.getArray hname, ok_bind, member_object]
  cases hlookup : object.entries.lookup (bytes name) with
  | none => exact .exit message
  | some value =>
    cases value with
    | array items =>
      cases h.lookup_wellFormed hlookup with
      | array hitems =>
        cases items with
        | nil => exact .exit message'
        | cons item items =>
          exact hk item item.tree ⟨hitems item List.mem_cons_self, rfl⟩
    | _ => exact .exit message

/-- A value that is looked up in a value that must be an object. -/
theorem follows_member {value : JsonValue N} (h : value.WellFormed)
    (what message message' : String) :
    Follows Eq
      (do
        let object ← expectObject what value
        exitIf (object.count = 0) message
        let value ← orExit message' (← defined (jsonObjectGetValue object (bytes name)))
        k value)
      (do
        let tree ← needed (value.tree.member name)
        k' tree) := by
  cases h with
  | @object object hobject hnames hvalues =>
    have h : Holds JsonValue.WellFormed object :=
      (wellFormed_object_iff.mp (.object hobject hnames hvalues))
    have hexpect : expectObject what (.object object) = .ok object := rfl
    rw [hexpect, ok_bind, h.getValue hname, member_object]
    by_cases hcount : object.count = 0
    · rw [exitIf, if_pos hcount, entries_of_count hcount]
      exact .exit message
    · rw [exitIf, if_neg hcount]
      refine (follows_value message' fun value hvalue => ?_).bind hk
      exact h.lookup_wellFormed hvalue
  | _ => exact .exit _

end Steps

/-- The names that are looked up are C strings. -/
theorem bytes_no_nul : ∀ name ∈ ["current_condition", "temp_C", "windspeedKmph", "winddir16Point",
    "lang_ru", "value"], 0 ∉ bytes name := by decide

/-- `str2` is never longer than what has been allocated for it. -/
theorem windDir_eq (allocated : Bool) (str : List UInt8) :
    windDir allocated str = descCopy allocated (str.flatMap windLetter) := by
  have hletter (c : UInt8) : (windLetter c).length ≤ 2 := by
    unfold windLetter
    split_ifs <;> decide
  have hlength : (str.flatMap windLetter).length ≤ str.length * 2 := by
    induction str with
    | nil => exact Nat.le_refl 0
    | cons c str ih =>
      rw [List.flatMap_cons, List.length_append, List.length_cons]
      have hle := hletter c
      omega
  have hfits : (str.flatMap windLetter).length < str.length * 3 + 1 := by omega
  unfold windDir descCopy
  simp only [hfits, and_true]

/-! ## The report in memory that may be missing -/

/-- The report of a current condition, as far as there is memory for it. -/
def currentGiven (mallocs : Mallocs) (current : Json N) : Except Fault Weather := do
  let (temp, windSpd, windDir) ← windOfCurrent current
  let windDir ← stored mallocs.str2 windDir
  let desc ← descOfCurrent current
  let desc ← stored mallocs.desc desc
  return { temp, windSpd, windDir, desc }

def reportGiven (mallocs : Mallocs) (tree : Json N) : Except Fault Weather := do
  currentGiven mallocs (← needed tree.current)

/-- Nothing in a description is a number. -/
theorem descOfCurrent_ne_overflow (current : Json N) :
    descOfCurrent current ≠ .error .overflow := by
  unfold descOfCurrent
  cases (current.member "lang_ru").bind Json.first with
  | none => exact nofun
  | some described =>
    change needed _ ≠ _
    cases (described.member "value").bind Json.text <;> exact nofun

theorem reportGiven_eq_ok_iff (mallocs : Mallocs) (tree : Json N) (report : Weather) :
    reportGiven mallocs tree = .ok report ↔
      mallocs.str2 = true ∧ mallocs.desc = true ∧ reportOf tree = .ok report := by
  obtain ⟨str2, desc⟩ := mallocs
  unfold reportGiven reportOf
  cases tree.current with
  | none => exact iff_of_false nofun nofun
  | some current =>
    change currentGiven _ _ = _ ↔ _ ∧ _ ∧ reportOfCurrent _ = _
    unfold currentGiven reportOfCurrent
    cases windOfCurrent current with
    | error fault => exact iff_of_false nofun nofun
    | ok wind =>
      cases descOfCurrent current with
      | error fault => cases str2 <;> exact iff_of_false nofun nofun
      | ok text => cases str2 <;> cases desc <;> simp [stored, bind, Except.bind]

theorem reportGiven_eq_overflow_iff (mallocs : Mallocs) (tree : Json N) :
    reportGiven mallocs tree = .error .overflow ↔
      reportOf tree = .error .overflow ∨
      (mallocs.str2 = false ∧ ∃ wind, windOf tree = .ok wind) ∨
      (mallocs.desc = false ∧ ∃ report, reportOf tree = .ok report) := by
  obtain ⟨str2, desc⟩ := mallocs
  unfold reportGiven reportOf windOf
  cases tree.current with
  | none => simp [needed, bind, Except.bind]
  | some current =>
    have hdesc := descOfCurrent_ne_overflow current
    change currentGiven _ _ = _ ↔ reportOfCurrent _ = _ ∨ (_ ∧ ∃ wind, windOfCurrent _ = _) ∨
      (_ ∧ ∃ report, reportOfCurrent _ = _)
    unfold currentGiven reportOfCurrent
    generalize windOfCurrent current = wind, descOfCurrent current = text at hdesc ⊢
    cases wind with
    | error fault => simp [bind, Except.bind]
    | ok wind =>
      cases text with
      | error fault => cases str2 <;> cases fault <;> simp_all [stored, bind, Except.bind]
      | ok text => cases str2 <;> cases desc <;> simp [stored, bind, Except.bind, pure, Except.pure]

/-- The part of the report that is in the current condition. -/
theorem parseValues_follows (mallocs : Mallocs) {object : JsonObject (JsonValue N)}
    (h : Holds JsonValue.WellFormed object) :
    Follows Eq (parseValues mallocs object)
      (currentGiven mallocs (JsonValue.object object).tree) := by
  have hname {name : String} := bytes_no_nul name
  unfold parseValues currentGiven windOfCurrent descOfCurrent
  simp only [bind_assoc, pure_bind]
  by_cases hcount : object.count = 0
  · rw [exitIf, if_pos hcount, member_object, entries_of_count hcount]
    exact .exit _
  rw [exitIf, if_neg hcount, ok_bind, h.getString (hname (by decide)), ok_bind]
  refine (follows_needed _ _).bind ?_
  rintro str _ rfl
  refine (follows_intOf str).bind ?_
  rintro temp _ rfl
  rw [h.getString (hname (by decide)), ok_bind]
  refine (follows_needed _ _).bind ?_
  rintro str _ rfl
  refine (follows_intOf str).bind ?_
  rintro kmph _ rfl
  rw [h.getString (hname (by decide)), ok_bind]
  refine (follows_needed _ _).bind ?_
  rintro points _ rfl
  rw [windDir_eq]
  refine (follows_stored _ _).bind ?_
  rintro windDir _ rfl
  refine follows_first ?_ (hname (by decide)) h _ _ _
  rintro value _ ⟨hvalue, rfl⟩
  cases hvalue with
  | @object described hobject hnames hvalues =>
    have hdescribed := wellFormed_object_iff.mp (.object hobject hnames hvalues)
    have hexpect : expectObject "desc_array_value" (.object described) = .ok described := rfl
    rw [hexpect, ok_bind, hdescribed.getString (hname (by decide)), ok_bind]
    refine (follows_needed _ _).bind ?_
    rintro desc _ rfl
    refine (follows_stored _ _).bind ?_
    rintro desc _ rfl
    exact .ok rfl
  | _ => exact .exit _

theorem jsonParseString_allowed {format : NumberFormat N} {string : List UInt8}
    {value : JsonValue N} (h : jsonParseString format string = some value) :
    Allowed (maxNesting + 1) value := by
  obtain ⟨⟨value', rest⟩, hparse, rfl⟩ := Option.map_eq_some_iff.mp h
  exact parseValue_allowed _ _ _ _ hparse

theorem reportGiven_eq (mallocs : Mallocs) (tree : Json N) : reportGiven mallocs tree =
    (do
      let condition ← needed (tree.member "current_condition")
      let current ← needed condition.first
      currentGiven mallocs current) := by
  unfold reportGiven Json.current
  cases tree.member "current_condition" <;> rfl

/-- What `parse_data` reports. -/
theorem parseData_follows (format : NumberFormat N) (mallocs : Mallocs) (json : List UInt8) :
    Follows Eq (parseData format mallocs json)
      (do reportGiven mallocs (← needed (jsonParseString format json)).tree) := by
  unfold parseData
  cases hparse : jsonParseString format json with
  | none => exact .exit _
  | some value =>
    have hroot : needed (some value) = .ok value := rfl
    have hname : 0 ∉ bytes "current_condition" := bytes_no_nul _ (by decide)
    rw [hroot]
    change Follows Eq _ (reportGiven mallocs value.tree)
    rw [reportGiven_eq]
    refine follows_member ?_ hname (jsonParseString_allowed hparse).1 _ _ _
    rintro condition _ ⟨hcondition, rfl⟩
    cases hcondition with
    | @array items hitems =>
      cases items with
      | nil => exact .exit _
      | cons item items =>
        have hitem := hitems item List.mem_cons_self
        cases hitem with
        | object hobject hnames hvalues =>
          exact parseValues_follows mallocs
            (wellFormed_object_iff.mp (.object hobject hnames hvalues))
        | _ => exact .exit _
    | _ => exact .exit _

/-- The report does not depend on how the text arrives. -/
theorem weather_follows (format : NumberFormat N) (byte : UInt8)
    (calls : List (List UInt8 × Bool)) (mallocs : Mallocs) :
    Follows Eq (weather format byte calls mallocs)
      (do reportGiven mallocs (← needed (jsonParseString format (received calls))).tree) := by
  have hkeeps := readData_keeps byte calls
  unfold weather
  by_cases hne : received calls = []
  · have hsize : (readData byte calls).size = 0 := by rw [hkeeps.size, hne, List.length_nil]
    simp only [hsize, if_true]
    rw [hne]
    exact .exit _
  · have hsize : (readData byte calls).size ≠ 0 := by
      rw [hkeeps.size]
      exact fun hlength => hne (List.length_eq_zero_iff.mp hlength)
    simp only [hsize, if_false]
    rw [← jsonParseString_readData format byte hne]
    exact parseData_follows format mallocs (readData byte calls).memory

theorem Follows.eq_ok_iff {α : Type} {x : Except Stop α} {y : Except Fault α} (h : Follows Eq x y)
    (a : α) : x = .ok a ↔ y = .ok a := by
  cases h with
  | ok heq => rw [heq, Except.ok.injEq, Except.ok.injEq]
  | error stop => exact iff_of_false nofun nofun

theorem Follows.undefined_iff {α : Type} {x : Except Stop α} {y : Except Fault α}
    (h : Follows Eq x y) : x = .error .undefined ↔ y = .error .overflow := by
  cases h with
  | ok heq => exact iff_of_false nofun nofun
  | error stop => cases stop <;> simp [Stop.fault]

theorem needed_bind_eq_iff {α β : Type} {a : Option α} {f : α → Except Fault β} {x : Except Fault β}
    (hx : x ≠ .error .missing) : (needed a >>= f) = x ↔ ∃ b, a = some b ∧ f b = x := by
  cases a with
  | none =>
    refine iff_of_false (fun h => hx h.symm) ?_
    rintro ⟨b, hb, -⟩
    cases hb
  | some a =>
    constructor
    · exact fun h => ⟨a, rfl, h⟩
    · rintro ⟨b, hb, hf⟩
      cases hb
      exact hf

/-- The program reports what is in the JSON value that the received bytes stand for, however they
are cut into calls. What it does is undefined in three cases only: the temperature or the speed of
the wind is not an `int`, or there is no memory for the direction of the wind or for the description
when it comes to that. -/
theorem weather_report_iff (format : NumberFormat N) (byte : UInt8)
    (calls : List (List UInt8 × Bool)) (mallocs : Mallocs) :
    (∀ report, weather format byte calls mallocs = .ok report ↔
      mallocs.str2 = true ∧ mallocs.desc = true ∧
        ∃ value, jsonParseString format (received calls) = some value ∧
          reportOf value.tree = .ok report) ∧
    (weather format byte calls mallocs = .error .undefined ↔
      ∃ value, jsonParseString format (received calls) = some value ∧
        (reportOf value.tree = .error .overflow ∨
          (mallocs.str2 = false ∧ ∃ wind, windOf value.tree = .ok wind) ∨
          (mallocs.desc = false ∧ ∃ report, reportOf value.tree = .ok report))) := by
  have hfollows := weather_follows format byte calls mallocs
  constructor
  · intro report
    refine ((hfollows.eq_ok_iff report).trans (needed_bind_eq_iff nofun)).trans ?_
    simp only [reportGiven_eq_ok_iff, ← exists_and_left]
    refine exists_congr fun value => ?_
    tauto
  · refine (hfollows.undefined_iff.trans (needed_bind_eq_iff nofun)).trans ?_
    simp only [reportGiven_eq_overflow_iff]

/-! ## Values that are the same -/

section Same

open Json (Same)

variable {close : N → N → Bool} {x y : Json N}

theorem mem_of_lookup {V : Type} {l : List (List UInt8 × V)} {name : List UInt8} {value : V}
    (h : l.lookup name = some value) : (name, value) ∈ l := by
  obtain ⟨before, after, rfl, -⟩ := List.lookup_eq_some_iff.mp h
  exact List.mem_append_right before List.mem_cons_self

theorem not_mem_of_lookup {V : Type} {l : List (List UInt8 × V)} {name : List UInt8}
    (h : l.lookup name = none) : name ∉ l.map Prod.fst := by
  intro hmem
  obtain ⟨entry, hentry, rfl⟩ := List.mem_map.mp hmem
  exact absurd rfl (bne_iff_ne.mp (List.lookup_eq_none_iff.mp h entry hentry))

/-- Both are missing, or they are the same. -/
theorem Json.Same.member (h : Same close x y) (name : String) :
    Option.Rel (Same close) (x.member name) (y.member name) := by
  cases h with
  | @object a b hnames hvalues =>
    change Option.Rel _ (a.lookup (bytes name)) (b.lookup (bytes name))
    cases ha : a.lookup (bytes name) with
    | none =>
      have hnot := not_mem_of_lookup ha
      rw [hnames] at hnot
      rw [lookup_of_not_mem hnot]
      exact .none
    | some value =>
      cases hb : b.lookup (bytes name) with
      | none =>
        have hnot := not_mem_of_lookup hb
        rw [← hnames] at hnot
        exact absurd (List.mem_map_of_mem (mem_of_lookup ha)) hnot
      | some value' => exact .some (hvalues _ _ _ (mem_of_lookup ha) (mem_of_lookup hb))
  | _ => exact .none

theorem Json.Same.first (h : Same close x y) : Option.Rel (Same close) x.first y.first := by
  cases h with
  | @array a b hlength hitems =>
    cases a with
    | nil =>
      rw [List.length_eq_zero_iff.mp hlength.symm]
      exact .none
    | cons item a =>
      cases b with
      | nil => exact absurd hlength (Nat.succ_ne_zero _)
      | cons item' b => exact .some (hitems _ _ List.mem_cons_self)
  | _ => exact .none

theorem Json.Same.text (h : Same close x y) : x.text = y.text := by
  cases h <;> rfl

theorem needed_bind_rel {α : Type} {R : Json N → Json N → Prop} {a b : Option (Json N)}
    (h : Option.Rel R a b) {f g : Json N → Except Fault α}
    (hf : ∀ x y, R x y → f x = g y) : (needed a >>= f) = (needed b >>= g) := by
  cases h with
  | none => rfl
  | some hR => exact hf _ _ hR

theorem Json.Same.memberText (h : Same close x y) (name : String) :
    (x.member name).bind Json.text = (y.member name).bind Json.text := by
  have hmember := h.member name
  generalize x.member name = a, y.member name = b at hmember ⊢
  cases hmember with
  | none => rfl
  | some hsame => exact hsame.text

theorem Json.Same.memberFirst (h : Same close x y) (name : String) :
    Option.Rel (Same close) ((x.member name).bind Json.first)
      ((y.member name).bind Json.first) := by
  have hmember := h.member name
  generalize x.member name = a, y.member name = b at hmember ⊢
  cases hmember with
  | none => exact .none
  | some hsame => exact hsame.first

theorem windOfCurrent_same (h : Same close x y) : windOfCurrent x = windOfCurrent y := by
  unfold windOfCurrent
  rw [h.memberText, h.memberText, h.memberText]

theorem descOfCurrent_same (h : Same close x y) : descOfCurrent x = descOfCurrent y := by
  refine needed_bind_rel (h.memberFirst _) fun described described' hsame => ?_
  rw [hsame.memberText]

theorem reportOf_same (h : Same close x y) : reportOf x = reportOf y := by
  refine needed_bind_rel (h.memberFirst _) fun current current' hsame => ?_
  unfold reportOfCurrent
  rw [windOfCurrent_same hsame, descOfCurrent_same hsame]

/-- Texts that stand for values that `json_value_equals` takes to be equal give the same report. -/
theorem weather_report_same {format : NumberFormat N} {close : N → N → Bool} (byte byte' : UInt8)
    {calls calls' : List (List UInt8 × Bool)} {value value' : JsonValue N}
    (h : jsonParseString format (received calls) = some value)
    (h' : jsonParseString format (received calls') = some value')
    (hequal : jsonValueEquals close (maxNesting + 1) value value' = some true) (mallocs : Mallocs)
    (report : Weather) :
    weather format byte calls mallocs = .ok report ↔
      weather format byte' calls' mallocs = .ok report := by
  have hdepth : value.tree.depth < maxNesting + 1 := (jsonParseString_allowed h).2
  obtain ⟨result, hresult, hiff⟩ := jsonValueEquals_spec close (jsonParseString_allowed h).1
    (maxNesting + 1) (jsonParseString_allowed h').1 hdepth
  rw [hequal] at hresult
  cases hresult
  have hsame := reportOf_same (hiff.mp rfl)
  rw [(weather_follows format byte calls mallocs).eq_ok_iff,
    (weather_follows format byte' calls' mallocs).eq_ok_iff, h, h']
  change reportGiven mallocs value.tree = _ ↔ reportGiven mallocs value'.tree = _
  rw [reportGiven_eq_ok_iff, reportGiven_eq_ok_iff, hsame]

end Same

/-! ### A report of light wind -/

/-- A JSON text that is written with round brackets in place of the curly ones. -/
def jsonText (s : String) : List UInt8 :=
  (bytes s).map fun c => if c = 40 then 123 else if c = 41 then 125 else c

/-- A text that arrives in two pieces. -/
def lightWind : List (List UInt8 × Bool) :=
  [(jsonText "(\"current_condition\":[(\"temp_C\":\"-3\",\"windspeedKmph\":\"13\",", true),
    (jsonText "\"winddir16Point\":\"NNW\",\"lang_ru\":[(\"value\":\"snow\")])])", true)]

/-- The same values in another order, and a piece for which there is no memory. -/
def lightWind' : List (List UInt8 × Bool) :=
  [(jsonText "( \"current_condition\": [ (\"windspeedKmph\": \"13\", \"temp_C\": \"-3\",", true),
    (jsonText " \"lang_ru\": [(\"value\": \"snow\")], \"winddir16Point\": \"NNW\") ] )", true),
    ([10], false)]

theorem lightWind_equal : ((jsonParseString digitFormat (received lightWind)).bind fun value =>
    (jsonParseString digitFormat (received lightWind')).bind fun value' =>
      jsonValueEquals (fun x y => x = y) (maxNesting + 1) value value') = some true := by
  decide +kernel

theorem weather_report_same_lightWind :
    weather digitFormat 0 lightWind ⟨true, true⟩ =
        .ok ⟨-3, 4, [0xD0, 0xA1, 0xD0, 0xA1, 0xD0, 0x97], bytes "snow"⟩ ↔
      weather digitFormat 1 lightWind' ⟨true, true⟩ =
        .ok ⟨-3, 4, [0xD0, 0xA1, 0xD0, 0xA1, 0xD0, 0x97], bytes "snow"⟩ := by
  obtain ⟨value, hvalue, h⟩ := Option.bind_eq_some_iff.mp lightWind_equal
  obtain ⟨value', hvalue', hequal⟩ := Option.bind_eq_some_iff.mp h
  exact weather_report_same 0 1 hvalue hvalue' hequal _ _

end CDevHws.Hw08
