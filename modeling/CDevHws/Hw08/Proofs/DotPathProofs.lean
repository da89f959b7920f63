import CDevHws.Hw08.DotPath
import CDevHws.Hw08.Proofs.DeepCopyProofs
import CDevHws.Hw08.Proofs.ObjectRunProofs

/-!
# Proofs: names with dots

An object with objects inside of it is a tree, in which a path leads from name to name. What is set
at a path is found there, and nothing else changes, but for the objects that the path leads through.
-/

namespace CDevHws.Hw08

variable {N : Type}

/-! ## Paths -/

/-- What stands at a path in an object. -/
def valueAt : JsonObject (JsonValue N) → List (List UInt8) → Option (JsonValue N)
  | _, [] => none
  | object, [name] => object.entries.lookup name
  | object, name :: part :: parts =>
    match object.entries.lookup name with
    | some (.object inner) => valueAt inner (part :: parts)
    | _ => none

/-- On the way to a path there is a value that is not an object. -/
def Blocked (object : JsonObject (JsonValue N)) (path : List (List UInt8)) : Prop :=
  ∃ pre rest value, path = pre ++ rest ∧ rest ≠ [] ∧ valueAt object pre = some value ∧
    jsonValueGetType value ≠ .object

/-- Each object on the way to a path may have one more item. -/
def Roomy : JsonObject (JsonValue N) → List (List UInt8) → Prop
  | _, [] => True
  | object, name :: path => object.count < maxItems ∧
      ∀ inner, object.entries.lookup name = some (.object inner) → Roomy inner path

/-- Neither of two paths leads through the other. -/
def Apart (path path' : List (List UInt8)) : Prop := ¬ path <+: path' ∧ ¬ path' <+: path

theorem dotParts_ne_nil (name : List UInt8) : dotParts name ≠ [] := by
  cases name with
  | nil => exact List.cons_ne_nil _ _
  | cons c name =>
    rw [dotParts]
    split_ifs <;> exact List.cons_ne_nil _ _

theorem dotParts_no_nul {name : List UInt8} (h : 0 ∉ name) : ∀ part ∈ dotParts name, 0 ∉ part := by
  induction name with
  | nil =>
    intro part hmem
    rw [List.mem_singleton.mp hmem]
    exact List.not_mem_nil
  | cons c name ih =>
    have hrest := ih fun hmem => h (List.mem_cons_of_mem c hmem)
    rw [dotParts]
    split_ifs with hdot
    · exact List.forall_mem_cons.mpr ⟨List.not_mem_nil, hrest⟩
    · obtain ⟨part, parts, hparts⟩ := List.exists_cons_of_ne_nil (dotParts_ne_nil name)
      rw [hparts] at hrest ⊢
      obtain ⟨hpart, hparts⟩ := List.forall_mem_cons.mp hrest
      refine List.forall_mem_cons.mpr ⟨fun hmem => ?_, hparts⟩
      rcases List.mem_cons.mp hmem with heq | hmem
      · exact h (heq ▸ List.mem_cons_self)
      · exact hpart hmem

section Paths

variable {object inner : JsonObject (JsonValue N)} {name part : List UInt8}
  {parts path : List (List UInt8)}

theorem valueAt_inner (h : object.entries.lookup name = some (.object inner)) :
    valueAt object (name :: part :: parts) = valueAt inner (part :: parts) := by
  rw [valueAt, h]

theorem valueAt_of_none (h : object.entries.lookup name = none) :
    valueAt object (name :: path) = none := by
  cases path with
  | nil => exact h
  | cons part parts => rw [valueAt, h]

theorem not_blocked_singleton : ¬ Blocked object [name] := by
  rintro ⟨pre, rest, value, heq, hrest, hvalue, -⟩
  rcases List.append_eq_singleton_iff.mp heq.symm with ⟨rfl, -⟩ | ⟨-, rfl⟩
  · cases hvalue
  · exact hrest rfl

theorem blocked_inner (h : object.entries.lookup name = some (.object inner)) :
    Blocked object (name :: part :: parts) ↔ Blocked inner (part :: parts) := by
  constructor
  · rintro ⟨pre, rest, value, heq, hrest, hvalue, htype⟩
    cases pre with
    | nil => cases hvalue
    | cons name' pre =>
      rw [List.cons_append, List.cons.injEq] at heq
      obtain ⟨rfl, heq⟩ := heq
      cases pre with
      | nil =>
        rw [valueAt, h] at hvalue
        cases hvalue
        exact absurd rfl htype
      | cons part' pre =>
        rw [valueAt_inner h] at hvalue
        exact ⟨part' :: pre, rest, value, heq, hrest, hvalue, htype⟩
  · rintro ⟨pre, rest, value, heq, hrest, hvalue, htype⟩
    refine ⟨name :: pre, rest, value, by rw [heq, List.cons_append], hrest, ?_, htype⟩
    cases pre with
    | nil => cases hvalue
    | cons part' pre => rwa [valueAt_inner h]

theorem blocked_of_value {value : JsonValue N} (h : object.entries.lookup name = some value)
    (htype : jsonValueGetType value ≠ .object) : Blocked object (name :: part :: parts) :=
  ⟨[name], part :: parts, value, rfl, List.cons_ne_nil _ _, h, htype⟩

theorem not_blocked_of_none (h : object.entries.lookup name = none) :
    ¬ Blocked object (name :: path) := by
  rintro ⟨pre, rest, value, heq, -, hvalue, -⟩
  cases pre with
  | nil => cases hvalue
  | cons name' pre =>
    rw [List.cons_append, List.cons.injEq] at heq
    obtain ⟨rfl, -⟩ := heq
    rw [valueAt_of_none h] at hvalue
    cases hvalue

theorem valueAt_congr {object' : JsonObject (JsonValue N)}
    (h : object'.entries.lookup name = object.entries.lookup name) (path : List (List UInt8)) :
    valueAt object' (name :: path) = valueAt object (name :: path) := by
  cases path with
  | nil => exact h
  | cons part parts => rw [valueAt, valueAt, h]

theorem valueAt_make (path : List (List UInt8)) :
    valueAt (jsonObjectMake (JsonValue N)) path = none := by
  cases path with
  | nil => rfl
  | cons name path => exact valueAt_of_none rfl

theorem roomy_make (path : List (List UInt8)) : Roomy (jsonObjectMake (JsonValue N)) path := by
  cases path with
  | nil => exact trivial
  | cons name path => exact ⟨Nat.div_pos (by omega) (by omega), fun _ hlookup => by cases hlookup⟩

end Paths

/-! ## One object -/

section Calls

variable {P : JsonValue N → Prop} {object : JsonObject (JsonValue N)} {name : List UInt8}
  {value : JsonValue N} {m : NameMap (JsonValue N)}

theorem Represents.holds (h : Represents object m)
    (hm : ∀ key value, m key = some value → 0 ∉ key ∧ P value) : Holds P object :=
  ⟨h.inv, fun entry hmem => hm entry.1 entry.2 ((h.mem_iff _ _).mp hmem)⟩

theorem Holds.represents (h : Holds P object) :
    Represents object fun key => object.entries.lookup key :=
  ⟨h.1, fun _ _ => (lookup_eq_some_iff_mem h.entries_nodup).symm⟩

theorem Holds.of_lookup (h : Holds P object) {key : List UInt8}
    (hlookup : object.entries.lookup key = some value) : 0 ∉ key ∧ P value :=
  h.2 (key, value) ((lookup_eq_some_iff_mem h.entries_nodup).mp hlookup)

theorem Holds.bind {object' : JsonObject (JsonValue N)} (h : Holds P object) (hname : 0 ∉ name)
    (hvalue : P value)
    (h' : Represents object' (NameMap.bind (fun key => object.entries.lookup key) name value)) :
    Holds P object' := by
  refine h'.holds fun key value' hkey => ?_
  unfold NameMap.bind at hkey
  split_ifs at hkey with heq
  · cases hkey
    rw [heq]
    exact ⟨hname, hvalue⟩
  · exact h.of_lookup hkey

theorem Holds.setValue (h : Holds P object) (hname : 0 ∉ name) (hvalue : P value)
    (hroom : name ∈ object.names ∨ object.count < maxItems) :
    ∃ object', jsonObjectSetValue object name value false = some (object', .success) ∧
      Holds P object' ∧ ∀ key, object'.entries.lookup key =
        if key = name then some value else object.entries.lookup key := by
  rcases h.represents.setValue name value with ⟨object', hset, h'⟩ | ⟨hmem, hmax, -⟩
  · exact ⟨object', hset, h.bind hname hvalue h', h'.lookup⟩
  · exact absurd hroom (not_or.mpr ⟨hmem, fun hlt => Nat.ne_of_lt hlt hmax⟩)

theorem Holds.add (h : Holds P object) (hname : 0 ∉ name) (hvalue : P value)
    (hnone : object.entries.lookup name = none) (hroom : object.count < maxItems) :
    ∃ object', jsonObjectAdd object name value = some (object', .success) ∧ Holds P object' ∧
      ∀ key, object'.entries.lookup key =
        if key = name then some value else object.entries.lookup key := by
  rcases h.represents.add name value with ⟨hsome, -⟩ | ⟨-, object', hadd, h'⟩ | ⟨-, hmax, -⟩
  · rw [hnone] at hsome
    cases hsome
  · exact ⟨object', hadd, h.bind hname hvalue h', h'.lookup⟩
  · exact absurd hmax (Nat.ne_of_lt hroom)

theorem Holds.removed (h : Holds P object) (name : List UInt8) :
    (object.entries.lookup name = none ∧
        jsonObjectRemove object name = some (object, .failure)) ∨
      (object.entries.lookup name ≠ none ∧ ∃ object',
        jsonObjectRemove object name = some (object', .success) ∧ Holds P object' ∧
        ∀ key, object'.entries.lookup key =
          if key = name then none else object.entries.lookup key) := by
  rcases h.represents.removed name with ⟨hsome, hremove⟩ | ⟨hsome, object', hremove, h'⟩
  · exact Or.inl ⟨Option.not_isSome_iff_eq_none.mp hsome, hremove⟩
  · refine Or.inr ⟨Option.isSome_iff_ne_none.mp hsome, object', hremove, ?_, h'.lookup⟩
    refine h'.holds fun key value hkey => ?_
    unfold NameMap.unbind at hkey
    split_ifs at hkey
    exact h.of_lookup hkey

/-- To set what is there already changes nothing. -/
theorem setValue_self (h : object.Inv) (hlookup : object.entries.lookup name = some value) :
    jsonObjectSetValue object name value false = some (object, .success) := by
  have hmem := (lookup_eq_some_iff_mem h.entries_nodup).mp hlookup
  obtain ⟨cellIx, found, hget, hsearch⟩ := jsonObjectGetCellIx_spec h name
  cases hsearch with
  | found hkey hc =>
    obtain ⟨ix, item, hcell, hitem, -, hentry⟩ := h.item_of_key hkey
    have hvalue : item.value = value := by
      have hitem' := lookup_of_mem h.entries_nodup (List.mem_of_getElem? hentry)
      rw [hlookup] at hitem'
      exact (Option.some.inj hitem').symm
    have hself : object.items.set ix { item with value } = object.items := by
      obtain ⟨hlt, hitem'⟩ := List.getElem?_eq_some_iff.mp hitem
      subst hvalue
      rw [← hitem']
      exact List.set_getElem_self hlt
    unfold jsonObjectSetValue
    simp only [hget, hcell, hitem, Option.bind_eq_bind, Option.bind_some, Bool.false_eq_true,
      if_false, if_true, Option.pure_def, hself]
  | free hnot => exact absurd (mem_keys_iff.mpr ⟨value, hmem⟩) hnot
  | empty hzero => exact absurd (mem_keys_iff.mpr ⟨value, hmem⟩) ((Searched.empty hzero).not_mem h)

end Calls

/-! ## Changes at a path -/

/-- At the path there is this now, and beside it nothing has changed. -/
structure ChangedAt (path : List (List UInt8)) (result : Option (JsonValue N))
    (object object' : JsonObject (JsonValue N)) : Prop where
  here : valueAt object' path = result
  apart : ∀ path', Apart path path' → valueAt object' path' = valueAt object path'

section Changes

variable {object object' inner inner' : JsonObject (JsonValue N)} {name part : List UInt8}
  {parts : List (List UInt8)} {result : Option (JsonValue N)}

theorem changedAt_name (h : ∀ key, object'.entries.lookup key =
    if key = name then result else object.entries.lookup key) :
    ChangedAt [name] result object object' := by
  refine ⟨(h name).trans (if_pos rfl), fun path' hapart => ?_⟩
  cases path' with
  | nil => rfl
  | cons name' path' =>
    have hne : name' ≠ name := by
      rintro rfl
      exact hapart.1 (List.cons_prefix_cons.mpr ⟨rfl, List.nil_prefix⟩)
    exact valueAt_congr ((h name').trans (if_neg hne)) path'

/-- A change in an inner object, which is put back or is new. -/
theorem ChangedAt.inside (hinner : ChangedAt (part :: parts) result inner inner')
    (hold : ∀ part parts, valueAt object (name :: part :: parts) = valueAt inner (part :: parts))
    (h : ∀ key, object'.entries.lookup key =
      if key = name then some (.object inner') else object.entries.lookup key) :
    ChangedAt (name :: part :: parts) result object object' := by
  have hname : object'.entries.lookup name = some (.object inner') := (h name).trans (if_pos rfl)
  refine ⟨(valueAt_inner hname).trans hinner.here, fun path' hapart => ?_⟩
  cases path' with
  | nil => rfl
  | cons name' path' =>
    by_cases heq : name' = name
    · subst heq
      cases path' with
      | nil => exact absurd (List.cons_prefix_cons.mpr ⟨rfl, List.nil_prefix⟩) hapart.2
      | cons part' parts' =>
        rw [valueAt_inner hname, hold]
        refine hinner.apart _ ⟨fun hpre => hapart.1 ?_, fun hpre => hapart.2 ?_⟩
        · exact List.cons_prefix_cons.mpr ⟨rfl, hpre⟩
        · exact List.cons_prefix_cons.mpr ⟨rfl, hpre⟩
    · exact valueAt_congr ((h name').trans (if_neg heq)) path'

end Changes

/-! ## The functions -/

section Functions

variable {value : JsonValue N}

theorem Holds.inner {object inner : JsonObject (JsonValue N)} {name : List UInt8}
    (h : Holds JsonValue.WellFormed object)
    (hlookup : object.entries.lookup name = some (.object inner)) :
    Holds JsonValue.WellFormed inner := wellFormed_object_iff.mp (h.of_lookup hlookup).2

theorem dotgetParts_eq : ∀ (path : List (List UInt8)) {object : JsonObject (JsonValue N)},
    Holds JsonValue.WellFormed object → dotgetParts object path = some (valueAt object path) := by
  intro path
  induction path with
  | nil => exact fun _ => rfl
  | cons name path ih =>
    intro object h
    have hget := jsonObjectGetnValue_spec h.1 name
    cases path with
    | nil => exact hget
    | cons part parts =>
      rw [dotgetParts, hget, valueAt]
      cases hlookup : object.entries.lookup name with
      | none => rfl
      | some value =>
        cases value with
        | object inner => exact ih (h.inner hlookup)
        | _ => rfl

/-- To put back an inner object that has not changed changes nothing. -/
theorem putBack_self {object inner : JsonObject (JsonValue N)} {name : List UInt8}
    (h : object.Inv) (hlookup : object.entries.lookup name = some (.object inner)) :
    object.putBack name inner = some object := by
  unfold JsonObject.putBack
  rw [setValue_self h hlookup]
  rfl

theorem Holds.putBack {object inner inner' : JsonObject (JsonValue N)} {name : List UInt8}
    (h : Holds JsonValue.WellFormed object)
    (hlookup : object.entries.lookup name = some (.object inner))
    (hinner : Holds JsonValue.WellFormed inner') :
    ∃ object', object.putBack name inner' = some object' ∧ Holds JsonValue.WellFormed object' ∧
      ∀ key, object'.entries.lookup key =
        if key = name then some (.object inner') else object.entries.lookup key := by
  have hmem : name ∈ object.names :=
    mem_keys_iff.mpr ⟨_, (lookup_eq_some_iff_mem h.entries_nodup).mp hlookup⟩
  obtain ⟨object', hset, hobject', hlookup'⟩ := h.setValue (h.of_lookup hlookup).1
    (wellFormed_object_iff.mpr hinner) (Or.inl hmem)
  refine ⟨object', ?_, hobject', hlookup'⟩
  unfold JsonObject.putBack
  rw [hset]
  rfl

/-- A value that has a parent is not set. -/
theorem dotsetParts_hasParent : ∀ (path : List (List UInt8)) {object : JsonObject (JsonValue N)},
    Holds JsonValue.WellFormed object →
    dotsetParts value true object path = some (object, .failure) := by
  intro path
  induction path with
  | nil => exact fun _ => rfl
  | cons name path ih =>
    intro object h
    have hget := jsonObjectGetnValue_spec h.1 name
    cases path with
    | nil => rfl
    | cons part parts =>
      rw [dotsetParts, hget]
      cases hlookup : object.entries.lookup name with
      | none =>
        simp only [Option.bind_eq_bind, Option.bind_some, ih holds_make, Option.pure_def]
      | some old =>
        cases old with
        | object inner =>
          simp only [Option.bind_eq_bind, Option.bind_some, ih (h.inner hlookup),
            putBack_self h.1 hlookup, Option.pure_def]
        | _ => rfl

/-- What `json_object_dotset_value` does. -/
structure DotSet (path : List (List UInt8)) (value : JsonValue N) (hasParent : Bool)
    (object object' : JsonObject (JsonValue N)) (status : JsonStatus) : Prop where
  holds : Holds JsonValue.WellFormed object'
  failure_iff : status = .failure ↔ hasParent = true ∨ Blocked object path
  unchanged : status = .failure → object' = object
  changed : status = .success → ChangedAt path (some value) object object'

theorem DotSet.of_success {path : List (List UInt8)} {object object' : JsonObject (JsonValue N)}
    (h : Holds JsonValue.WellFormed object') (hopen : ¬ Blocked object path)
    (hchanged : ChangedAt path (some value) object object') :
    DotSet path value false object object' .success :=
  ⟨h, iff_of_false JsonStatus.noConfusion (not_or.mpr ⟨Bool.noConfusion, hopen⟩),
    JsonStatus.noConfusion, fun _ => hchanged⟩

theorem DotSet.blocked_iff {path : List (List UInt8)} {object object' : JsonObject (JsonValue N)}
    {status : JsonStatus} (h : DotSet path value false object object' status) :
    status = .failure ↔ Blocked object path := by
  rw [h.failure_iff, or_iff_right Bool.false_ne_true]

theorem dotsetParts_spec (hvalue : value.WellFormed) : ∀ (path : List (List UInt8))
    {object : JsonObject (JsonValue N)}, path ≠ [] → (∀ part ∈ path, 0 ∉ part) →
    Holds JsonValue.WellFormed object → Roomy object path → ∃ object' status,
      dotsetParts value false object path = some (object', status) ∧
      DotSet path value false object object' status := by
  intro path
  induction path with
  | nil => exact fun hne => absurd rfl hne
  | cons name path ih =>
    intro object _ hnul h hroomy
    obtain ⟨hname, hpath⟩ := List.forall_mem_cons.mp hnul
    obtain ⟨hroom, hinnerRoom⟩ := hroomy
    cases path with
    | nil =>
      obtain ⟨object', hset, hobject', hlookup⟩ := h.setValue hname hvalue (Or.inr hroom)
      exact ⟨object', .success, hset,
        .of_success hobject' not_blocked_singleton (changedAt_name hlookup)⟩
    | cons part parts =>
      have hget := jsonObjectGetnValue_spec h.1 name
      cases hlookup : object.entries.lookup name with
      | none =>
        obtain ⟨inner, status, hdotset, hset⟩ :=
          ih (List.cons_ne_nil _ _) hpath holds_make (roomy_make _)
        cases status with
        | failure => exact absurd (hset.blocked_iff.mp rfl) (not_blocked_of_none rfl)
        | success =>
          obtain ⟨object', hadd, hobject', hlookup'⟩ :=
            h.add hname (wellFormed_object_iff.mpr hset.holds) hlookup hroom
          refine ⟨object', .success, ?_, .of_success hobject' (not_blocked_of_none hlookup) ?_⟩
          · rw [dotsetParts, hget, hlookup]
            simp only [Option.bind_eq_bind, Option.bind_some, hdotset, hadd]
          · refine (hset.changed rfl).inside (fun part parts => ?_) hlookup'
            rw [valueAt_of_none hlookup, valueAt_make]
      | some old =>
        cases old with
        | object inner =>
          obtain ⟨inner', status, hdotset, hset⟩ :=
            ih (List.cons_ne_nil _ _) hpath (h.inner hlookup) (hinnerRoom inner hlookup)
          have hblocked : Blocked object (name :: part :: parts) ↔ Blocked inner (part :: parts) :=
            blocked_inner hlookup
          cases status with
          | failure =>
            rw [hset.unchanged rfl] at hdotset
            refine ⟨object, .failure, ?_, h, ?_, fun _ => rfl, JsonStatus.noConfusion⟩
            · rw [dotsetParts, hget, hlookup]
              simp only [Option.bind_eq_bind, Option.bind_some, hdotset, putBack_self h.1 hlookup,
                Option.pure_def]
            · rw [hset.blocked_iff, hblocked, or_iff_right Bool.false_ne_true]
          | success =>
            obtain ⟨object', hput, hobject', hlookup'⟩ := h.putBack hlookup hset.holds
            refine ⟨object', .success, ?_, .of_success hobject' ?_ ?_⟩
            · rw [dotsetParts, hget, hlookup]
              simp only [Option.bind_eq_bind, Option.bind_some, hdotset, hput, Option.pure_def]
            · rw [hblocked, ← hset.blocked_iff]
              exact JsonStatus.noConfusion
            · exact (hset.changed rfl).inside (fun _ _ => valueAt_inner hlookup) hlookup'
        | _ =>
          refine ⟨object, .failure, ?_, h, ?_, fun _ => rfl, JsonStatus.noConfusion⟩
          · rw [dotsetParts, hget, hlookup]
            rfl
          · exact iff_of_true rfl (Or.inr (blocked_of_value hlookup JsonValueType.noConfusion))

/-- What `json_object_dotremove` does. -/
structure DotRemoved (path : List (List UInt8)) (object object' : JsonObject (JsonValue N))
    (status : JsonStatus) : Prop where
  holds : Holds JsonValue.WellFormed object'
  failure_iff : status = .failure ↔ valueAt object path = none
  unchanged : status = .failure → object' = object
  changed : status = .success → ChangedAt path none object object'

theorem DotRemoved.of_failure {path : List (List UInt8)} {object : JsonObject (JsonValue N)}
    (h : Holds JsonValue.WellFormed object) (hnone : valueAt object path = none) :
    DotRemoved path object object .failure :=
  ⟨h, iff_of_true rfl hnone, fun _ => rfl, JsonStatus.noConfusion⟩

theorem dotremoveParts_spec : ∀ (path : List (List UInt8)) {object : JsonObject (JsonValue N)},
    path ≠ [] → (∀ part ∈ path, 0 ∉ part) → Holds JsonValue.WellFormed object →
    ∃ object' status, dotremoveParts object path = some (object', status) ∧
      DotRemoved path object object' status := by
  intro path
  induction path with
  | nil => exact fun hne => absurd rfl hne
  | cons name path ih =>
    intro object _ hnul h
    obtain ⟨hname, hpath⟩ := List.forall_mem_cons.mp hnul
    cases path with
    | nil =>
      rcases h.removed name with ⟨hnone, hremove⟩ | ⟨hsome, object', hremove, hobject', hlookup⟩
      · exact ⟨object, .failure, hremove, .of_failure h hnone⟩
      · exact ⟨object', .success, hremove, hobject', iff_of_false JsonStatus.noConfusion hsome,
          JsonStatus.noConfusion, fun _ => changedAt_name hlookup⟩
    | cons part parts =>
      have hget := jsonObjectGetnValue_spec h.1 name
      cases hlookup : object.entries.lookup name with
      | none =>
        refine ⟨object, .failure, ?_, .of_failure h (valueAt_of_none hlookup)⟩
        rw [dotremoveParts, hget, hlookup]
        rfl
      | some old =>
        cases old with
        | object inner =>
          obtain ⟨inner', status, hdotremove, hremove⟩ :=
            ih (List.cons_ne_nil _ _) hpath (h.inner hlookup)
          have hat : valueAt object (name :: part :: parts) = valueAt inner (part :: parts) :=
            valueAt_inner hlookup
          cases status with
          | failure =>
            rw [hremove.unchanged rfl] at hdotremove
            refine ⟨object, .failure, ?_, .of_failure h ?_⟩
            · rw [dotremoveParts, hget, hlookup]
              simp only [Option.bind_eq_bind, Option.bind_some, hdotremove,
                putBack_self h.1 hlookup, Option.pure_def]
            · exact hat.trans (hremove.failure_iff.mp rfl)
          | success =>
            obtain ⟨object', hput, hobject', hlookup'⟩ := h.putBack hlookup hremove.holds
            refine ⟨object', .success, ?_, hobject', ?_, JsonStatus.noConfusion, fun _ => ?_⟩
            · rw [dotremoveParts, hget, hlookup]
              simp only [Option.bind_eq_bind, Option.bind_some, hdotremove, hput, Option.pure_def]
            · rw [hat, ← hremove.failure_iff]
            · exact (hremove.changed rfl).inside (fun _ _ => valueAt_inner hlookup) hlookup'
        | _ =>
          refine ⟨object, .failure, ?_, .of_failure h ?_⟩
          · rw [dotremoveParts, hget, hlookup]
            rfl
          · rw [valueAt, hlookup]

theorem dotgetValue_eq {object : JsonObject (JsonValue N)} (h : Holds JsonValue.WellFormed object)
    (name : List UInt8) : jsonObjectDotgetValue object name =
      some (valueAt object (dotParts (CString.ofBytes name))) := dotgetParts_eq _ h

/-- `json_object_dotset_value` fails if and only if the value has a parent already or the name leads
through something that is not an object, and then changes nothing. Otherwise the value is found
under its name, and what is found under names beside it is as before. -/
theorem json_object_dotset_value_dotget {object : JsonObject (JsonValue N)}
    (h : Holds JsonValue.WellFormed object) (hvalue : value.WellFormed) (name : List UInt8)
    (hroomy : Roomy object (dotParts (CString.ofBytes name))) (hasParent : Bool) :
    ∃ object' status,
      jsonObjectDotsetValue object name value hasParent = some (object', status) ∧
      Holds JsonValue.WellFormed object' ∧
      (status = .failure ↔
        hasParent = true ∨ Blocked object (dotParts (CString.ofBytes name))) ∧
      (status = .failure → object' = object) ∧
      (status = .success → jsonObjectDotgetValue object' name = some (some value) ∧
        ∀ other, Apart (dotParts (CString.ofBytes name)) (dotParts (CString.ofBytes other)) →
          jsonObjectDotgetValue object' other = jsonObjectDotgetValue object other) := by
  cases hasParent with
  | true =>
    exact ⟨object, .failure, dotsetParts_hasParent _ h, h, iff_of_true rfl (Or.inl rfl),
      fun _ => rfl, JsonStatus.noConfusion⟩
  | false =>
    obtain ⟨object', status, hset, hspec⟩ := dotsetParts_spec hvalue _
      (dotParts_ne_nil (CString.ofBytes name)) (dotParts_no_nul (CString.ofBytes_no_nul name)) h
      hroomy
    refine ⟨object', status, hset, hspec.holds, hspec.failure_iff, hspec.unchanged,
      fun hstatus => ⟨?_, ?_⟩⟩
    · rw [dotgetValue_eq hspec.holds, (hspec.changed hstatus).here]
    · intro other hapart
      rw [dotgetValue_eq hspec.holds, dotgetValue_eq h, (hspec.changed hstatus).apart _ hapart]

/-- `json_object_dotremove` fails if and only if nothing is found under its name, and then changes
nothing. Otherwise nothing is found there afterwards, and what is found under names beside it is as
before. -/
theorem json_object_dotremove_dotget {object : JsonObject (JsonValue N)}
    (h : Holds JsonValue.WellFormed object) (name : List UInt8) :
    ∃ object' status, jsonObjectDotremove object name = some (object', status) ∧
      Holds JsonValue.WellFormed object' ∧
      (status = .failure ↔ jsonObjectDotgetValue object name = some none) ∧
      (status = .failure → object' = object) ∧
      (status = .success → jsonObjectDotgetValue object' name = some none ∧
        ∀ other, Apart (dotParts (CString.ofBytes name)) (dotParts (CString.ofBytes other)) →
          jsonObjectDotgetValue object' other = jsonObjectDotgetValue object other) := by
  obtain ⟨object', status, hremove, hspec⟩ := dotremoveParts_spec _
    (dotParts_ne_nil (CString.ofBytes name)) (dotParts_no_nul (CString.ofBytes_no_nul name)) h
  refine ⟨object', status, hremove, hspec.holds, ?_, hspec.unchanged, fun hstatus => ⟨?_, ?_⟩⟩
  · rw [hspec.failure_iff, dotgetValue_eq h, Option.some.injEq]
  · rw [dotgetValue_eq hspec.holds, (hspec.changed hstatus).here]
  · intro other hapart
    rw [dotgetValue_eq hspec.holds, dotgetValue_eq h, (hspec.changed hstatus).apart _ hapart]

/-! ### An object inside of an object -/

/-- `{"p": {"a": 9, "b": ["\"", "x"]}}`. -/
def nestedObject : JsonObject (JsonValue (Fin 10)) :=
  ⟨List.replicate 5 none ++ [some 0] ++ List.replicate 10 none,
    [⟨[112], sampleValue, hashString [112], 5⟩], 11⟩

theorem nestedObject_holds : Holds JsonValue.WellFormed nestedObject := by
  have hadd : jsonObjectAdd (jsonObjectMake (JsonValue (Fin 10))) [112] sampleValue =
      some (nestedObject, .success) := rfl
  obtain ⟨hinv, hentries⟩ := entries_of_add inv_make hadd
  exact holds_make.append hinv hentries (by decide) sampleValue_wellFormed

theorem apart_pa_pb : Apart (dotParts (CString.ofBytes [112, 46, 97]))
    (dotParts (CString.ofBytes [112, 46, 98])) := ⟨by decide, by decide⟩

/-- Under `p.a` a value is set in place of the number, if it has no parent, and what is found under
`p.b` is as before. -/
theorem json_object_dotset_value_dotget_nested :
    (∃ object', jsonObjectDotsetValue nestedObject [112, 46, 97] .null false =
        some (object', .success) ∧
      jsonObjectDotgetValue object' [112, 46, 97] = some (some .null) ∧
      jsonObjectDotgetValue object' [112, 46, 98] = some (some sampleItems)) ∧
    jsonObjectDotsetValue nestedObject [112, 46, 97] .null true =
      some (nestedObject, .failure) := by
  have hroomy : Roomy nestedObject (dotParts (CString.ofBytes [112, 46, 97])) := by
    refine ⟨by decide, fun inner hlookup => ?_⟩
    cases hlookup
    exact ⟨by decide, fun inner hlookup => by cases hlookup⟩
  have hspec := json_object_dotset_value_dotget nestedObject_holds .null [112, 46, 97] hroomy
  constructor
  · obtain ⟨object', status, hset, -, hiff, -, hget⟩ := hspec false
    cases status with
    | failure =>
      have hblocked := (hiff.mp rfl).resolve_left Bool.false_ne_true
      exact absurd ((blocked_inner rfl).mp hblocked) not_blocked_singleton
    | success =>
      obtain ⟨hhere, hother⟩ := hget rfl
      exact ⟨object', hset, hhere, (hother _ apart_pa_pb).trans rfl⟩
  · obtain ⟨object', status, hset, -, hiff, hsame, -⟩ := hspec true
    have hfailure := hiff.mpr (Or.inl rfl)
    rw [hset, hsame hfailure, hfailure]

/-- The member `p.a` is removed, and the member `p.b` stays. -/
theorem json_object_dotremove_dotget_nested :
    ∃ object', jsonObjectDotremove nestedObject [112, 46, 97] = some (object', .success) ∧
      jsonObjectDotgetValue object' [112, 46, 97] = some none ∧
      jsonObjectDotgetValue object' [112, 46, 98] = some (some sampleItems) := by
  obtain ⟨object', status, hremove, -, hiff, -, hget⟩ :=
    json_object_dotremove_dotget nestedObject_holds [112, 46, 97]
  cases status with
  | failure => cases hiff.mp rfl
  | success =>
    obtain ⟨hhere, hother⟩ := hget rfl
    exact ⟨object', hremove, hhere, (hother _ apart_pa_pb).trans rfl⟩

end Functions

end CDevHws.Hw08
