import CDevHws.Hw08.Comments
import CDevHws.Hw08.Proofs.JsonRoundTripProofs
import Mathlib.Data.List.Infix

/-!
# Proofs: comments in JSON

`json_parse_string_with_comments` takes comments for white space. What `json_parse_string` reads, it
reads as the same value: there is no slash outside of the strings of a value, and what stands behind
it is not looked at.
-/

namespace CDevHws.Hw08

open CString (isspace isdigit)

/-! ## `strstr` -/

theorem strstr_eq_some {string token : List UInt8} {i : ℕ} (hi : i ≤ string.length)
    (htoken : token <+: string.drop i) (hfirst : ∀ j < i, ¬ token <+: string.drop j) :
    strstr string token = some i := by
  unfold strstr
  rw [List.find?_range_eq_some]
  refine ⟨decide_eq_true htoken, List.mem_range.mpr (Nat.lt_succ_of_le hi), ?_⟩
  intro j hj
  simpa using hfirst j hj

theorem strstr_eq_none {string token : List UInt8} (h : ∀ j, ¬ token <+: string.drop j) :
    strstr string token = none := by
  unfold strstr
  rw [List.find?_eq_none]
  intro j _
  simpa using h j

theorem strstr_le {string token : List UInt8} {i : ℕ} (h : strstr string token = some i) :
    i + token.length ≤ string.length := by
  unfold strstr at h
  obtain ⟨htoken, hmem, -⟩ := List.find?_range_eq_some.mp h
  have hle := (of_decide_eq_true htoken).length_le
  rw [List.length_drop] at hle
  have hi := List.mem_range.mp hmem
  omega

/-- Two bytes that do not occur in a text do not begin in it either if something other than the
second byte follows. -/
theorem not_prefix_drop {c d e : UInt8} {body rest : List UInt8} (hnext : e ≠ d)
    (hbody : ¬ [c, d] <:+: body) {j : ℕ} (hj : j < body.length) :
    ¬ [c, d] <+: (body ++ e :: rest).drop j := by
  rw [List.drop_append_of_le_length (Nat.le_of_lt hj)]
  have hsuffix := List.drop_suffix j body
  have hlength : (body.drop j).length = body.length - j := List.length_drop
  rintro ⟨tail, heq⟩
  rcases hdrop : body.drop j with _ | ⟨a, _ | ⟨b, s⟩⟩
  · rw [hdrop, List.length_nil] at hlength
    omega
  · rw [hdrop] at heq
    obtain ⟨-, heq⟩ := List.cons.inj heq
    exact hnext (List.cons.inj heq).1.symm
  · rw [hdrop] at heq hsuffix
    obtain ⟨rfl, htail⟩ := List.cons.inj heq
    obtain ⟨rfl, -⟩ := List.cons.inj htail
    exact hbody ((List.prefix_append [c, d] s).isInfix.trans hsuffix.isInfix)

theorem mem_of_prefix_drop {c : UInt8} {s : List UInt8} {j : ℕ} (h : [c] <+: s.drop j) : c ∈ s :=
  List.mem_of_mem_drop (h.subset List.mem_cons_self)

theorem not_singleton_prefix_drop {c : UInt8} {body rest : List UInt8} (hc : c ∉ body) {j : ℕ}
    (hj : j < body.length) : ¬ [c] <+: (body ++ rest).drop j := by
  rw [List.drop_append_of_le_length (Nat.le_of_lt hj)]
  intro hbegin
  have hne : 0 < (body.drop j).length := by
    rw [List.length_drop]
    omega
  have hshort := List.prefix_of_prefix_length_le hbegin (List.prefix_append _ rest) hne
  exact hc (mem_of_prefix_drop hshort)

/-! ## The loop of `remove_comments` -/

section Loop

variable {d : UInt8} {endToken : List UInt8} {inString : Bool} {c : UInt8} {string : List UInt8}

theorem loop_nil : removeCommentsLoop [47, d] endToken inString false [] = [] := by
  rw [removeCommentsLoop]

theorem loop_plain (h34 : c ≠ 34) (h92 : c ≠ 92) (h : inString = true ∨ ¬ [47, d] <+: c :: string) :
    removeCommentsLoop [47, d] endToken inString false (c :: string) =
      c :: removeCommentsLoop [47, d] endToken inString false string := by
  have hstart : ¬ (inString = false ∧ [47, d] <+: c :: string) := by
    rintro ⟨hfalse, hbegin⟩
    rw [hfalse] at h
    exact h.elim Bool.noConfusion fun h => h hbegin
  rw [removeCommentsLoop, if_neg (by simp [h92]), if_neg (by simp [h34]), if_neg hstart]

/-- Outside of strings, a comment begins with a slash. -/
theorem loop_no_slash (h34 : c ≠ 34) (h92 : c ≠ 92) (h47 : c ≠ 47) :
    removeCommentsLoop [47, d] endToken inString false (c :: string) =
      c :: removeCommentsLoop [47, d] endToken inString false string :=
  loop_plain h34 h92 (Or.inr fun h => h47 (List.cons_prefix_cons.mp h).1.symm)

theorem loop_quote : removeCommentsLoop [47, d] endToken inString false (34 :: string) =
    34 :: removeCommentsLoop [47, d] endToken (!inString) false string := by
  rw [removeCommentsLoop, if_neg (by decide), if_pos (by decide)]

theorem loop_escaped : removeCommentsLoop [47, d] endToken true false (92 :: c :: string) =
    92 :: c :: removeCommentsLoop [47, d] endToken true false string := by
  rw [removeCommentsLoop, if_pos (by decide), removeCommentsLoop, if_neg (by simp),
    if_neg (by simp), if_neg (by simp)]

/-- A string is left as it is. -/
theorem loop_quoted {body : List UInt8} (hbody : Quoted body) :
    removeCommentsLoop [47, d] endToken false false (34 :: (body ++ 34 :: string)) =
      34 :: (body ++ 34 :: removeCommentsLoop [47, d] endToken false false string) := by
  rw [loop_quote]
  refine congrArg (34 :: ·) ?_
  induction hbody with
  | nil => exact loop_quote
  | plain h34 h92 _ ih =>
    rw [List.cons_append, Bool.not_false, loop_plain h34 h92 (Or.inl rfl), List.cons_append]
    exact congrArg _ ih
  | escaped _ ih =>
    rw [List.cons_append, List.cons_append, Bool.not_false, loop_escaped, List.cons_append,
      List.cons_append]
    exact congrArg (fun s => 92 :: _ :: s) ih

/-- The start of a comment: blanks up to the end token, if there is one. -/
theorem loop_start (escaped : Bool) :
    removeCommentsLoop [47, d] endToken false escaped (47 :: d :: string) =
      (strstr string endToken).elim (blanks 2 ++ string) fun ptr =>
        blanks 2 ++ blanks (ptr + endToken.length) ++ removeCommentsLoop [47, d] endToken false
          false (string.drop (ptr + endToken.length)) := by
  have hcomment : (d :: string).drop ([47, d].length - 1) = string := rfl
  rw [removeCommentsLoop, if_neg (by simp), if_neg (by simp), if_pos (by simp)]
  simp only [hcomment]
  cases strstr string endToken with
  | none => rfl
  | some ptr => rfl

/-- The end of a comment that is not closed is left as it is. -/
theorem loop_comment_open (h : strstr string endToken = none) :
    removeCommentsLoop [47, d] endToken false false (47 :: d :: string) = 32 :: 32 :: string := by
  rw [loop_start, h]
  rfl

theorem loop_comment {body : List UInt8}
    (h : strstr (body ++ (endToken ++ string)) endToken = some body.length) :
    removeCommentsLoop [47, d] endToken false false (47 :: d :: (body ++ (endToken ++ string))) =
      blanks (body.length + (2 + endToken.length)) ++
        removeCommentsLoop [47, d] endToken false false string := by
  have hrest : (body ++ (endToken ++ string)).drop (body.length + endToken.length) = string := by
    rw [← List.append_assoc, ← List.length_append, List.drop_left]
  have hblanks : blanks 2 ++ blanks (body.length + endToken.length) =
      blanks (body.length + (2 + endToken.length)) := by
    unfold blanks
    rw [List.replicate_append_replicate]
    congr 1
    omega
  rw [loop_start, h, Option.elim_some, hrest, hblanks]

theorem length_loop : ∀ n (string : List UInt8) escaped inString, string.length ≤ n →
    (removeCommentsLoop [47, d] endToken inString escaped string).length = string.length := by
  intro n
  induction n with
  | zero =>
    intro string escaped inString hle
    rw [List.length_eq_zero_iff.mp (Nat.le_zero.mp hle), removeCommentsLoop]
  | succ n ih =>
    intro string escaped inString hle
    cases string with
    | nil => rw [removeCommentsLoop]
    | cons c string =>
      rw [List.length_cons] at hle
      by_cases hstart : inString = false ∧ [47, d] <+: c :: string
      · obtain ⟨rfl, t, ht⟩ := hstart
        obtain ⟨rfl, rfl⟩ := List.cons.inj ht
        have hle : t.length + 2 ≤ n + 1 := hle
        change (removeCommentsLoop [47, d] endToken false escaped (47 :: d :: t)).length =
          t.length + 2
        rw [loop_start]
        cases hfind : strstr t endToken with
        | none => rfl
        | some ptr =>
          have hptr := strstr_le hfind
          have hrest := ih (t.drop (ptr + endToken.length)) false false
            (by rw [List.length_drop]; omega)
          rw [List.length_drop] at hrest
          rw [Option.elim_some, List.length_append, List.length_append, hrest]
          simp only [blanks, List.length_replicate]
          omega
      · rw [removeCommentsLoop, if_neg hstart]
        split_ifs
        · rw [List.length_cons, ih _ _ _ (by omega), List.length_cons]
        · rw [List.length_cons, ih _ _ _ (by omega), List.length_cons]
        · rw [List.length_cons, ih _ _ _ (by omega), List.length_cons]

theorem inNumber_iff : inNumber c = true ↔ c ≠ 34 ∧ c ≠ 92 ∧ c ≠ 47 ∧ c ≠ 32 := by
  simp [inNumber, and_assoc]

/-- A number in front of the first comment is left as it is. -/
theorem takeWhile_loop (string : List UInt8) :
    (removeCommentsLoop [47, d] endToken false false string).takeWhile inNumber =
      string.takeWhile inNumber := by
  induction string with
  | nil => rw [loop_nil]
  | cons c string ih =>
    by_cases hc : inNumber c = true
    · obtain ⟨h34, h92, h47, -⟩ := inNumber_iff.mp hc
      rw [loop_no_slash h34 h92 h47, List.takeWhile_cons_of_pos hc,
        List.takeWhile_cons_of_pos hc, ih]
    · rw [List.takeWhile_cons_of_neg hc, removeCommentsLoop]
      split_ifs
      · exact List.takeWhile_cons_of_neg hc
      · exact List.takeWhile_cons_of_neg hc
      · have hblank : ¬ inNumber 32 = true := by decide
        simp only
        split
        · exact List.takeWhile_cons_of_neg hblank
        · exact List.takeWhile_cons_of_neg hblank
      · exact List.takeWhile_cons_of_neg hc

end Loop

/-! ## What is parsed holds no comments -/

/-- A text without slashes and backslashes outside of its strings. -/
inductive Plain : List UInt8 → Prop
  | nil : Plain []
  | cons {c : UInt8} {s : List UInt8} (h34 : c ≠ 34) (h92 : c ≠ 92) (h47 : c ≠ 47) (h : Plain s) :
      Plain (c :: s)
  | quoted {body s : List UInt8} (hbody : Quoted body) (h : Plain s) :
      Plain (34 :: (body ++ 34 :: s))

theorem Plain.append {s t : List UInt8} (hs : Plain s) (ht : Plain t) : Plain (s ++ t) := by
  induction hs with
  | nil => exact ht
  | cons h34 h92 h47 _ ih => exact .cons h34 h92 h47 ih
  | quoted hbody _ ih =>
    rw [List.cons_append, List.append_assoc]
    exact .quoted hbody ih

theorem plain_of_forall {s : List UInt8} (h : ∀ c ∈ s, c ≠ 34 ∧ c ≠ 92 ∧ c ≠ 47) : Plain s := by
  induction s with
  | nil => exact .nil
  | cons c s ih =>
    rw [List.forall_mem_cons] at h
    exact .cons h.1.1 h.1.2.1 h.1.2.2 (ih h.2)

theorem plain_of_all {s : List UInt8} (h : s.all inNumber = true) : Plain s := by
  refine plain_of_forall fun c hc => ?_
  obtain ⟨h34, h92, h47, -⟩ := inNumber_iff.mp (List.all_eq_true.mp h c hc)
  exact ⟨h34, h92, h47⟩

theorem Blank.plain {s : List UInt8} (h : Blank s) : Plain s := by
  refine plain_of_forall fun c hc => ?_
  have hspace := h c hc
  refine ⟨?_, ?_, ?_⟩ <;> rintro rfl <;> cases hspace

theorem loop_append {d : UInt8} {endToken text : List UInt8} (h : Plain text)
    (rest : List UInt8) : removeCommentsLoop [47, d] endToken false false (text ++ rest) =
      text ++ removeCommentsLoop [47, d] endToken false false rest := by
  induction h with
  | nil => rfl
  | cons h34 h92 h47 _ ih =>
    rw [List.cons_append, loop_no_slash h34 h92 h47, ih, List.cons_append]
  | quoted hbody _ ih =>
    rw [List.cons_append, List.append_assoc, List.cons_append, loop_quoted hbody, ih,
      List.cons_append, List.append_assoc, List.cons_append]

/-- Two rests of a string that begin with the same number, if with any. -/
structure SameAhead (rest rest' : List UInt8) : Prop where
  length : rest'.length = rest.length
  number : rest'.takeWhile inNumber = rest.takeWhile inNumber

theorem SameAhead.append {rest rest' : List UInt8} (h : SameAhead rest rest')
    (text : List UInt8) : SameAhead (text ++ rest) (text ++ rest') := by
  constructor
  · rw [List.length_append, List.length_append, h.length]
  · rw [List.takeWhile_append, List.takeWhile_append, h.number]

theorem sameAhead_loop {d : UInt8} {endToken : List UInt8} (rest : List UInt8) :
    SameAhead rest (removeCommentsLoop [47, d] endToken false false rest) :=
  ⟨length_loop _ rest false false (Nat.le_refl _), takeWhile_loop rest⟩

theorem SameAhead.trans {r s t : List UInt8} (h : SameAhead r s) (h' : SameAhead s t) :
    SameAhead r t :=
  ⟨h'.length.trans h.length, h'.number.trans h.number⟩

/-- What a parsing function reads of a string: no comments, and the same with another rest. -/
structure ReadsPlain {α : Type} (parse : List UInt8 → Option (α × List UInt8))
    (string text : List UInt8) (value : α) (rest : List UInt8) : Prop where
  plain : Plain text
  split : string = text ++ rest
  head : ∀ rest', SameAhead rest rest' → (text ++ rest').head? = string.head?
  again : ∀ rest', SameAhead rest rest' → parse (text ++ rest') = some (value, rest')

/-! ### White space -/

/-- White space in front of something that does not begin with any. -/
theorem skipWhitespaces_front {w s t : List UInt8} (hw : Blank w)
    (h : s.head? = (skipWhitespaces t).head?) : skipWhitespaces (w ++ s) = s := by
  rw [skipWhitespaces_blank hw]
  cases s with
  | nil => rfl
  | cons c s =>
    cases hskip : skipWhitespaces t with
    | nil =>
      rw [hskip] at h
      cases h
    | cons d t =>
      rw [hskip] at h
      cases h
      exact skipWhitespaces_cons (isspace_of_skip hskip) s

/-- First one thing is read, and then another one. -/
theorem ReadsPlain.followed {α β : Type} {parse : List UInt8 → Option (α × List UInt8)}
    {parse' : List UInt8 → Option (β × List UInt8)} {string text next rest : List UInt8} {a : α}
    {b : β} (h : ReadsPlain parse string text a (next ++ rest)) (hnext : Plain next)
    (hparse : ∀ rest', SameAhead rest rest' → parse (text ++ (next ++ rest')) =
      some (a, next ++ rest') → parse' (text ++ (next ++ rest')) = some (b, rest')) :
    ReadsPlain parse' string (text ++ next) b rest where
  plain := h.plain.append hnext
  split := by rw [h.split, List.append_assoc]
  head rest' hsame := by
    rw [List.append_assoc]
    exact h.head _ (hsame.append next)
  again rest' hsame := by
    rw [List.append_assoc]
    exact hparse rest' hsame (h.again _ (hsame.append next))

theorem readsPlain_of_ne_nil {α : Type} {parse : List UInt8 → Option (α × List UInt8)}
    {text rest : List UInt8} {a : α} (hplain : Plain text) (hne : text ≠ [])
    (hparse : ∀ rest', SameAhead rest rest' → parse (text ++ rest') = some (a, rest')) :
    ReadsPlain parse (text ++ rest) text a rest where
  plain := hplain
  split := rfl
  head rest' _ := by rw [List.head?_append_of_ne_nil _ hne, List.head?_append_of_ne_nil _ hne]
  again := hparse

/-- White space is skipped first. -/
theorem ReadsPlain.skipped {α : Type} {parse parse' : List UInt8 → Option (α × List UInt8)}
    {w text string rest : List UInt8} {a : α}
    (h : ReadsPlain parse (skipWhitespaces string) text a rest) (hw : Blank w)
    (hstring : string = w ++ skipWhitespaces string)
    (hparse : ∀ rest', SameAhead rest rest' → skipWhitespaces (w ++ text ++ rest') = text ++ rest' →
      parse' (w ++ text ++ rest') = some (a, rest')) :
    ReadsPlain parse' string (w ++ text) a rest where
  plain := hw.plain.append h.plain
  split := by
    rw [List.append_assoc, ← h.split]
    exact hstring
  head rest' hsame := by
    rw [hstring, List.append_assoc, List.head?_append, h.head rest' hsame]
    exact List.head?_append.symm
  again rest' hsame := by
    refine hparse rest' hsame ?_
    rw [List.append_assoc, skipWhitespaces_front hw (h.head rest' hsame)]

/-! ### Items -/

theorem plain_bracket : Plain [93] := .cons (by decide) (by decide) (by decide) .nil

theorem plain_brace : Plain [125] := .cons (by decide) (by decide) (by decide) .nil

theorem behindValue_reads {closing c : UInt8} {container value : JsonValue N}
    {close loop : Parser N} {s rest : List UInt8}
    (hclosing : isspace closing = false ∧ Plain [closing]) (hc : isspace c = false)
    (hclose : Closes closing container close)
    (hloop : ∀ s, loop s = some (value, rest) → ∃ text, ReadsPlain loop s text value rest)
    (h : behindValue closing close loop c s = some (value, rest)) :
    ∃ text, s = text ++ rest ∧ Plain (c :: text) ∧ ∀ rest', SameAhead rest rest' →
      behindValue closing close loop c (text ++ rest') = some (value, rest') := by
  obtain ⟨w, hw, hs⟩ := exists_blank s
  unfold behindValue at h ⊢
  split_ifs at h with hcomma hend
  · subst hcomma
    obtain ⟨rfl, hskip⟩ := (hclose _ _ _).mp h
    rw [skipWhitespaces_idem] at hskip
    refine ⟨w ++ [closing], ?_, ?_, ?_⟩
    · rw [List.append_assoc, List.singleton_append, ← hskip]
      exact hs
    · exact .cons (by decide) (by decide) (by decide) (hw.plain.append hclosing.2)
    · intro rest' _
      have hskip' : skipWhitespaces (w ++ [closing] ++ rest') = closing :: rest' := by
        rw [List.append_assoc, skipWhitespaces_blank hw]
        exact skipWhitespaces_cons hclosing.1 rest'
      rw [if_pos rfl, hskip', List.head?_cons, if_pos rfl]
      exact (hclose _ _ _).mpr ⟨rfl, skipWhitespaces_cons hclosing.1 rest'⟩
  · subst hcomma
    obtain ⟨text, hreads⟩ := hloop _ h
    refine ⟨w ++ text, ?_, ?_, ?_⟩
    · rw [List.append_assoc, ← hreads.split]
      exact hs
    · exact .cons (by decide) (by decide) (by decide) (hw.plain.append hreads.plain)
    · intro rest' hsame
      have hhead := hreads.head rest' hsame
      rw [if_pos rfl, List.append_assoc, skipWhitespaces_front hw hhead, hhead, if_neg hend]
      exact hreads.again rest' hsame
  · obtain ⟨rfl, hskip⟩ := (hclose _ _ _).mp h
    rw [skipWhitespaces_cons hc] at hskip
    obtain ⟨rfl, rfl⟩ := List.cons.inj hskip
    refine ⟨[], rfl, hclosing.2, ?_⟩
    intro rest' _
    rw [if_neg hcomma]
    exact (hclose _ _ _).mpr ⟨rfl, skipWhitespaces_cons hc rest'⟩

/-- Nothing is read but white space and a closing bracket. -/
theorem closed_reads {closing : UInt8} {parse : Parser N} {value : JsonValue N}
    {string rest : List UInt8} (hclosing : isspace closing = false ∧ Plain [closing])
    (hskip : skipWhitespaces string = closing :: rest)
    (hparse : ∀ s rest', skipWhitespaces s = closing :: rest' → parse s = some (value, rest')) :
    ∃ text, ReadsPlain parse string text value rest := by
  obtain ⟨w, hw, hstring⟩ := exists_blank string
  rw [hskip, List.append_cons] at hstring
  rw [hstring]
  refine ⟨_, readsPlain_of_ne_nil (hw.plain.append hclosing.2) (by simp) fun rest' _ => ?_⟩
  refine hparse _ _ ?_
  rw [List.append_assoc, skipWhitespaces_blank hw]
  exact skipWhitespaces_cons hclosing.1 rest'

/-! ### Arrays -/

section Containers

variable {parse : Parser N} {value : JsonValue N} {string rest : List UInt8}
  (hparse : ∀ string value rest, parse string = some (value, rest) →
  ∃ text, ReadsPlain parse string text value rest)

include hparse

theorem arrayLoop_reads : ∀ fuel items string,
    arrayLoop parse fuel items string = some (value, rest) →
    ∃ text, ReadsPlain (arrayLoop parse fuel items) string text value rest := by
  intro fuel
  induction fuel with
  | zero =>
    intro items string h
    cases h
  | succ fuel ih =>
    intro items string h
    obtain ⟨hne, new, w, c, s, hnew, hw, hc⟩ := arrayLoop_round h
    obtain ⟨text, hreads⟩ := hparse _ _ _ hnew
    rw [arrayLoop_step hne hnew hw hc] at h
    obtain ⟨next, rfl, hplain, hagain⟩ :=
      behindValue_reads ⟨rfl, plain_bracket⟩ hc (closes_array _) (ih _) h
    have hsplit (r : List UInt8) : w ++ c :: (next ++ r) = w ++ c :: next ++ r := by simp
    rw [hsplit] at hreads
    refine ⟨_, hreads.followed (hw.plain.append hplain) fun rest' hsame hnew' => ?_⟩
    rw [← hsplit] at hnew' ⊢
    rw [arrayLoop_step (by simp) hnew' hw hc]
    exact hagain rest' hsame

/-- The array ends at once, or its items are read behind the white space. -/
theorem parseArrayValue_reads (h : parseArrayValue parse string = some (value, rest)) :
    ∃ text, ReadsPlain (parseArrayValue parse) string text value rest := by
  obtain ⟨w, hw, hstring⟩ := exists_blank string
  unfold parseArrayValue at h
  simp only at h
  split_ifs at h with hend
  · cases h
    refine closed_reads ⟨rfl, plain_bracket⟩ (List.eq_cons_of_mem_head? hend) ?_
    intro s rest' hskip
    unfold parseArrayValue
    rw [hskip]
    rfl
  · obtain ⟨text, hloop⟩ := arrayLoop_reads hparse _ _ _ h
    refine ⟨_, hloop.skipped hw hstring fun rest' hsame hskip => ?_⟩
    unfold parseArrayValue
    have hlength : (text ++ rest').length = (skipWhitespaces string).length := by
      rw [hloop.split, List.length_append, List.length_append, hsame.length]
    simp only [hskip, hloop.head rest' hsame, if_neg hend, hlength]
    exact hloop.again rest' hsame

omit hparse

/-! ### Objects -/

theorem getQuotedString_reads {output : List UInt8}
    (h : getQuotedString string = some (output, rest)) :
    ∃ text, ReadsPlain getQuotedString string text output rest := by
  obtain ⟨body, hbody, rfl, hprocess⟩ := getQuotedString_eq_some h
  have hsplit (r : List UInt8) : 34 :: (body ++ 34 :: r) = 34 :: (body ++ [34]) ++ r := by simp
  rw [hsplit]
  refine ⟨_, readsPlain_of_ne_nil (.quoted hbody .nil) (by simp) fun rest' _ => ?_⟩
  rw [← hsplit, getQuotedString_quoted hbody, hprocess]
  rfl

include hparse

theorem objectLoop_reads : ∀ fuel object string,
    objectLoop parse fuel object string = some (value, rest) →
    ∃ text, ReadsPlain (objectLoop parse fuel object) string text value rest := by
  intro fuel
  induction fuel with
  | zero =>
    intro object string h
    cases h
  | succ fuel ih =>
    intro object string h
    obtain ⟨hne, key, w', t, new, w, c, s, object', hkey, hw', hnul, hnew, hw, hc, hadd⟩ :=
      objectLoop_round h
    obtain ⟨name, hname⟩ := getQuotedString_reads hkey
    obtain ⟨text, hreads⟩ := hparse _ _ _ hnew
    rw [objectLoop_step hne hkey hw' hnul hnew hw hc hadd] at h
    obtain ⟨next, rfl, hplain, hagain⟩ :=
      behindValue_reads ⟨rfl, plain_brace⟩ hc (closes_object _) (ih _) h
    have hsplit (r : List UInt8) : w' ++ 58 :: (text ++ (w ++ c :: (next ++ r))) =
        w' ++ 58 :: (text ++ (w ++ c :: next)) ++ r := by simp
    rw [hreads.split, hsplit] at hname
    refine ⟨_, hname.followed (hw'.plain.append (.cons (by decide) (by decide) (by decide)
      (hreads.plain.append (hw.plain.append hplain)))) fun rest' hsame hkey' => ?_⟩
    rw [← hsplit] at hkey' ⊢
    have hahead := (hsame.append next).append (w ++ [c])
    rw [List.append_assoc, List.append_assoc] at hahead
    rw [objectLoop_step (by simp) hkey' hw' hnul (hreads.again _ hahead) hw hc hadd]
    exact hagain rest' hsame

theorem parseObjectValue_reads (h : parseObjectValue parse string = some (value, rest)) :
    ∃ text, ReadsPlain (parseObjectValue parse) string text value rest := by
  obtain ⟨w, hw, hstring⟩ := exists_blank string
  unfold parseObjectValue at h
  simp only at h
  split_ifs at h with hend
  · cases h
    refine closed_reads ⟨rfl, plain_brace⟩ (List.eq_cons_of_mem_head? hend) ?_
    intro s rest' hskip
    unfold parseObjectValue
    rw [hskip]
    rfl
  · obtain ⟨text, hloop⟩ := objectLoop_reads hparse _ _ _ h
    refine ⟨_, hloop.skipped hw hstring fun rest' hsame hskip => ?_⟩
    unfold parseObjectValue
    have hlength : (text ++ rest').length = (skipWhitespaces string).length := by
      rw [hloop.split, List.length_append, List.length_append, hsame.length]
    simp only [hskip, hloop.head rest' hsame, if_neg hend, hlength]
    exact hloop.again rest' hsame

end Containers

/-! ### Values -/

section Values

variable {format : NumberFormat N} {value : JsonValue N} {c : UInt8} {s rest string : List UInt8}

theorem eq_cons_of_head? {t : List UInt8} (h : t.head? = (c :: s).head?) : ∃ t', t = c :: t' :=
  ⟨t.tail, List.eq_cons_of_mem_head? h⟩

theorem forall_take_inNumber {n : ℕ} (h : n ≤ (s.takeWhile inNumber).length) :
    ∀ d ∈ s.take n, inNumber d = true := by
  intro d hd
  have hbegin : s.take n <+: s.takeWhile inNumber :=
    List.prefix_of_prefix_length_le (List.take_prefix n s) (List.takeWhile_prefix _)
      ((List.length_take_le n s).trans h)
  exact List.mem_takeWhile_imp (hbegin.subset hd)

theorem parseNumberValue_reads (hformat : format.ReadsNumbers) (hc : c = 45 ∨ isdigit c)
    (h : parseNumberValue format (c :: s) = some (value, rest)) :
    ∃ text, ReadsPlain (parseNumberValue format) (c :: s) text value rest := by
  unfold parseNumberValue at h
  obtain ⟨⟨number, read⟩, hstrtod, h⟩ := Option.bind_eq_some_iff.mp h
  simp only at h
  split_ifs at h with hdecimal
  cases h
  have hread := hformat.inside _ _ _ _ hc hstrtod
  have hnumber : inNumber c = true := inNumber_iff.mpr ⟨ne_of_number hc 34 (by decide),
    ne_of_number hc 92 (by decide), ne_of_number hc 47 (by decide), ne_of_number hc 32 (by decide)⟩
  have hall := forall_take_inNumber hread
  have hsplit := (List.take_append_drop read (c :: s)).symm
  have hlength : ((c :: s).take read).length = read :=
    List.length_take_of_le (hread.trans (List.takeWhile_prefix _).length_le)
  -- also behind another rest there is the same number, and so the same first byte
  have hcut (rest' : List UInt8) (hsame : SameAhead ((c :: s).drop read) rest') :
      ∃ s', (c :: s).take read ++ rest' = c :: s' ∧
        (c :: s').takeWhile inNumber = (c :: s).takeWhile inNumber := by
    have hahead := (hsame.append ((c :: s).take read)).number
    rw [← hsplit] at hahead
    cases happend : (c :: s).take read ++ rest' with
    | nil =>
      rw [happend, List.takeWhile_cons_of_pos hnumber] at hahead
      cases hahead
    | cons d s' =>
      rw [happend] at hahead
      have hhead := hahead
      rw [List.takeWhile_cons_of_pos hnumber] at hhead
      by_cases hd : inNumber d = true
      · rw [List.takeWhile_cons_of_pos hd] at hhead
        obtain ⟨rfl, -⟩ := List.cons.inj hhead
        exact ⟨s', rfl, hahead⟩
      · rw [List.takeWhile_cons_of_neg hd] at hhead
        cases hhead
  refine ⟨(c :: s).take read, plain_of_all (List.all_eq_true.mpr hall), hsplit, ?_, ?_⟩
  · intro rest' hsame
    obtain ⟨s', happend, -⟩ := hcut rest' hsame
    rw [happend]
    rfl
  · intro rest' hsame
    obtain ⟨s', happend, hahead⟩ := hcut rest' hsame
    have hagain : format.strtod (c :: s') = some (number, read) := by
      rw [hformat.ahead c s' hc, hahead, ← hformat.ahead c s hc, hstrtod]
    have hdecimal' : isDecimal (c :: s') read = true := by
      have htext := isDecimal_append ((c :: s).take read)
      rw [hlength] at htext
      rw [hsplit, htext] at hdecimal
      rw [← happend, htext, hdecimal]
    have hrest : (c :: s').drop read = rest' := by
      rw [← happend]
      exact List.drop_left' hlength
    unfold parseNumberValue
    rw [happend, hagain, Option.bind_eq_bind, Option.bind_some]
    simp only [hdecimal', if_true, hrest, Option.pure_def]

theorem parseValue_cons_reads (hformat : format.ReadsNumbers) {left : ℕ}
    (ih : ∀ string value rest, parseValue format left string = some (value, rest) →
      ∃ text, ReadsPlain (parseValue format left) string text value rest)
    (hc : isspace c = false) (h : parseValue format (left + 1) (c :: s) = some (value, rest)) :
    ∃ text, ReadsPlain (parseValue format (left + 1)) (c :: s) text value rest := by
  rw [parseValue, skipWhitespaces_cons hc] at h
  simp only at h
  split_ifs at h with hobject harray hquote hword hnumber hnull
  · subst hobject
    obtain ⟨text, hreads⟩ := parseObjectValue_reads ih h
    rw [hreads.split]
    refine ⟨123 :: text, readsPlain_of_ne_nil (.cons (by decide) (by decide) (by decide)
      hreads.plain) (List.cons_ne_nil _ _) fun rest' hsame => ?_⟩
    rw [List.cons_append, parseValue_object]
    exact hreads.again rest' hsame
  · subst harray
    obtain ⟨text, hreads⟩ := parseArrayValue_reads ih h
    rw [hreads.split]
    refine ⟨91 :: text, readsPlain_of_ne_nil (.cons (by decide) (by decide) (by decide)
      hreads.plain) (List.cons_ne_nil _ _) fun rest' hsame => ?_⟩
    rw [List.cons_append, parseValue_array]
    exact hreads.again rest' hsame
  · subst hquote
    obtain ⟨⟨chars, tail⟩, hget, h⟩ := Option.bind_eq_some_iff.mp h
    cases h
    obtain ⟨text, hreads⟩ := getQuotedString_reads hget
    refine ⟨text, hreads.plain, hreads.split, hreads.head, fun rest' hsame => ?_⟩
    obtain ⟨s', happend⟩ := eq_cons_of_head? (hreads.head rest' hsame)
    have hagain := hreads.again rest' hsame
    rw [happend] at hagain ⊢
    rw [parseValue, skipWhitespaces_cons rfl]
    change parseStringValue (34 :: s') = _
    unfold parseStringValue
    rw [hagain]
    rfl
  · unfold parseBooleanValue at h
    split_ifs at h with htrue hfalse
    · obtain ⟨t, ht⟩ := htrue
      rw [← ht] at h ⊢
      cases h
      exact ⟨bytes "true", readsPlain_of_ne_nil (plain_of_all (by decide)) (by decide)
        fun rest' _ => parseValue_true rest'⟩
    · obtain ⟨t, ht⟩ := hfalse
      rw [← ht] at h ⊢
      cases h
      exact ⟨bytes "false", readsPlain_of_ne_nil (plain_of_all (by decide)) (by decide)
        fun rest' _ => parseValue_false rest'⟩
  · obtain ⟨text, hreads⟩ := parseNumberValue_reads hformat hnumber h
    refine ⟨text, hreads.plain, hreads.split, hreads.head, fun rest' hsame => ?_⟩
    obtain ⟨s', happend⟩ := eq_cons_of_head? (hreads.head rest' hsame)
    have hagain := hreads.again rest' hsame
    rw [happend] at hagain ⊢
    rw [parseValue, skipWhitespaces_cons hc]
    simp only [hobject, harray, hquote, hword, hnumber, if_true, if_false]
    exact hagain
  · unfold parseNullValue at h
    split_ifs at h with hbegin
    obtain ⟨t, ht⟩ := hbegin
    rw [← ht] at h ⊢
    cases h
    exact ⟨bytes "null", readsPlain_of_ne_nil (plain_of_all (by decide)) (by decide)
      fun rest' _ => parseValue_null rest'⟩

/-- What `parse_value` reads has no comments, and what stands behind it makes no difference. -/
theorem parseValue_reads (hformat : format.ReadsNumbers) : ∀ left string value rest,
    parseValue format left string = some (value, rest) →
    ∃ text, ReadsPlain (parseValue format left) string text value rest := by
  intro left
  induction left with
  | zero =>
    intro string value rest h
    cases h
  | succ left ih =>
    intro string value rest h
    obtain ⟨w, hw, hstring⟩ := exists_blank string
    rw [← parseValue_skipWhitespaces] at h
    cases hskip : skipWhitespaces string with
    | nil =>
      rw [hskip] at h
      cases h
    | cons c s =>
      rw [hskip] at h
      obtain ⟨text, hreads⟩ := parseValue_cons_reads hformat ih (isspace_of_skip hskip) h
      rw [← hskip] at hreads
      refine ⟨w ++ text, hreads.skipped hw hstring fun rest' hsame hfront => ?_⟩
      rw [← parseValue_skipWhitespaces, hfront]
      exact hreads.again rest' hsame

/-- Taking comments out of a text leaves a value in it as it is. -/
theorem parseValue_removed (hformat : format.ReadsNumbers) {left : ℕ} {d e : UInt8}
    {endToken endToken' : List UInt8}
    (h : parseValue format left string = some (value, rest)) :
    ∃ rest', parseValue format left (removeCommentsLoop [47, e] endToken' false false
      (removeCommentsLoop [47, d] endToken false false string)) = some (value, rest') := by
  obtain ⟨text, hreads⟩ := parseValue_reads hformat left string value rest h
  rw [hreads.split, loop_append hreads.plain, loop_append hreads.plain]
  exact ⟨_, hreads.again _ ((sameAhead_loop rest).trans (sameAhead_loop _))⟩

end Values

/-! ## The whole text -/

theorem jsonParseStringWithComments_eq (format : NumberFormat N) (string : List UInt8) :
    jsonParseStringWithComments format string =
      (parseValue format (maxNesting + 1) (removeCommentsLoop [47, 47] [10] false false
        (removeCommentsLoop [47, 42] [42, 47] false false (CString.ofBytes string)))).map
          Prod.fst := rfl

theorem parseValue_mark (format : NumberFormat N) (left : ℕ) (s : List UInt8) :
    parseValue format left (0xEF :: s) = none := by
  cases left with
  | zero => rfl
  | succ left =>
    rw [parseValue, skipWhitespaces_cons rfl]
    rfl

/-- A text that `json_parse_string` reads is read as the same value if comments may stand in it,
unless it has a byte order mark, which is not expected there. -/
theorem json_comments_keep {format : NumberFormat N} (hformat : format.ReadsNumbers)
    {string : List UInt8} {value : JsonValue N}
    (h : jsonParseString format string = some value) :
    jsonParseStringWithComments format string =
      if [0xEF, 0xBB, 0xBF] <+: CString.ofBytes string then none else some value := by
  rw [jsonParseStringWithComments_eq]
  unfold jsonParseString at h
  obtain ⟨⟨value', rest⟩, hparse, rfl⟩ := Option.map_eq_some_iff.mp h
  split_ifs at hparse ⊢ with hmark
  · obtain ⟨t, ht⟩ := hmark
    rw [← ht, List.cons_append, loop_no_slash (by decide) (by decide) (by decide),
      loop_no_slash (by decide) (by decide) (by decide), parseValue_mark]
    rfl
  · obtain ⟨rest', hremoved⟩ := parseValue_removed hformat hparse
    rw [hremoved]
    rfl

theorem digitFormat_readsNumbers : digitFormat.ReadsNumbers := by
  have hdigit {c : UInt8} (hc : c = 45 ∨ isdigit c) : inNumber c = true :=
    inNumber_iff.mpr ⟨ne_of_number hc 34 (by decide), ne_of_number hc 92 (by decide),
      ne_of_number hc 47 (by decide), ne_of_number hc 32 (by decide)⟩
  constructor
  · intro c s hc
    have hhead : (s.takeWhile inNumber).head?.any isdigit = s.head?.any isdigit := by
      cases s with
      | nil => rfl
      | cons d s =>
        by_cases hd : inNumber d = true
        · rw [List.takeWhile_cons_of_pos hd]
          rfl
        · rw [List.takeWhile_cons_of_neg hd]
          exact (Bool.eq_false_of_not_eq_true fun h => hd (hdigit (Or.inr h))).symm
    rw [List.takeWhile_cons_of_pos (hdigit hc)]
    change (if _ then _ else _) = (if _ ∧ ¬ (s.takeWhile inNumber).head?.any isdigit then _ else _)
    rw [hhead]
  · intro c s number read hc h
    change (if _ then some (digitValue c, 1) else none) = _ at h
    split_ifs at h
    cases h
    rw [List.takeWhile_cons_of_pos (hdigit hc)]
    exact Nat.succ_pos _

/-- A string that looks like a comment, and the start of a comment behind the value. -/
def slashText : List UInt8 := bytes "[1, \"a//b\"] /* rest"

theorem json_comments_keep_slash : ∃ value,
    jsonParseString digitFormat slashText = some value ∧
      jsonParseStringWithComments digitFormat slashText =
        if [0xEF, 0xBB, 0xBF] <+: CString.ofBytes slashText then none else some value := by
  have hparsed : (jsonParseString digitFormat slashText).isSome = true := by
    decide +kernel
  obtain ⟨value, hvalue⟩ := Option.isSome_iff_exists.mp hparsed
  exact ⟨value, hvalue, json_comments_keep digitFormat_readsNumbers hvalue⟩

/-! ## Comments are white space -/

theorem loop_other {d : UInt8} {endToken text rest : List UInt8} (h34 : 34 ∉ text) (h92 : 92 ∉ text)
    (hstart : ∀ j < text.length, ¬ [47, d] <+: (text ++ rest).drop j) :
    removeCommentsLoop [47, d] endToken false false (text ++ rest) =
      text ++ removeCommentsLoop [47, d] endToken false false rest := by
  induction text with
  | nil => rfl
  | cons c text ih =>
    rw [List.mem_cons, not_or] at h34 h92
    have hhead : ¬ [47, d] <+: c :: (text ++ rest) := hstart 0 (Nat.succ_pos _)
    rw [List.cons_append, loop_plain (Ne.symm h34.1) (Ne.symm h92.1) (Or.inr hhead),
      List.cons_append]
    refine congrArg (c :: ·) (ih h34.2 h92.2 fun j hj => ?_)
    exact hstart (j + 1) (Nat.succ_lt_succ hj)

theorem plain_blanks (n : ℕ) : Plain (blanks n) :=
  Blank.plain (blank_replicate n rfl)

/-- What is no comment of one kind is left as it is, up to the end of the line. -/
theorem loop_line {d : UInt8} {e body r : List UInt8} (h : LineComment body)
    (hstart : ∀ j < (bytes "//" ++ body).length, ¬ [47, d] <+: (bytes "//" ++ body ++ r).drop j) :
    removeCommentsLoop [47, d] e false false (bytes "//" ++ body ++ r) =
      bytes "//" ++ body ++ removeCommentsLoop [47, d] e false false r :=
  loop_other (by simpa [bytes] using h.no_quote) (by simpa [bytes] using h.no_backslash) hstart

/-- Two blanks end a byte order mark. -/
theorem mark_blanks {blanked body : List UInt8} :
    ([0xEF, 0xBB, 0xBF] <+: blanked ++ (blanks 2 ++ body)) ↔ [0xEF, 0xBB, 0xBF] <+: blanked := by
  rcases blanked with _ | ⟨a, _ | ⟨b, _ | ⟨c, s⟩⟩⟩ <;>
    simp [blanks, List.replicate_succ, List.cons_prefix_cons]

/-- The blanked text is what `remove_comments` leaves, whatever follows it. -/
theorem Blanked.removed {s t : List UInt8} (h : Blanked s t) (rest : List UInt8) :
    removeCommentsLoop [47, 47] [10] false false
      (removeCommentsLoop [47, 42] [42, 47] false false (s ++ rest)) =
    t ++ removeCommentsLoop [47, 47] [10] false false
      (removeCommentsLoop [47, 42] [42, 47] false false rest) := by
  induction h with
  | nil => rfl
  | plain h34 h92 h47 _ ih =>
    rw [List.cons_append, loop_no_slash h34 h92 h47, loop_no_slash h34 h92 h47, ih,
      List.cons_append]
  | @quoted body s t hbody _ ih =>
    have hsplit : 34 :: (body ++ 34 :: s) ++ rest =
        34 :: (body ++ 34 :: (s ++ rest)) := by simp
    rw [hsplit, loop_quoted hbody, loop_quoted hbody, ih]
    simp
  | @block body s t hbody _ ih =>
    have hfind : strstr (body ++ ([42, 47] ++ (s ++ rest))) [42, 47] = some body.length := by
      refine strstr_eq_some (by simp) ?_ fun j hj => not_prefix_drop (by decide) hbody hj
      rw [List.drop_left]
      exact List.prefix_append _ _
    have hsplit : bytes "/*" ++ body ++ bytes "*/" ++ s ++ rest =
        47 :: 42 :: (body ++ ([42, 47] ++ (s ++ rest))) := by
      simp only [List.append_assoc]
      rfl
    rw [hsplit, loop_comment hfind, loop_append (plain_blanks _), ih, List.append_assoc]
    rfl
  | @line body s t hbody _ ih =>
    have hfind (r : List UInt8) : strstr (body ++ ([10] ++ r)) [10] = some body.length := by
      refine strstr_eq_some (by simp) ?_ fun j hj => not_singleton_prefix_drop hbody.no_newline hj
      rw [List.drop_left]
      exact List.prefix_append _ _
    have hsplit : bytes "//" ++ body ++ bytes "\n" ++ s ++ rest =
        bytes "//" ++ body ++ 10 :: (s ++ rest) := by
      simp only [List.append_assoc]
      rfl
    have hopen (r : List UInt8) : bytes "//" ++ body ++ 10 :: r =
        47 :: 47 :: (body ++ ([10] ++ r)) := rfl
    have hfirst {j : ℕ} (hj : j < (bytes "//" ++ body).length) :
        ¬ [47, 42] <+: (bytes "//" ++ body ++ 10 :: (s ++ rest)).drop j :=
      not_prefix_drop (by decide) hbody.no_block hj
    -- the first call leaves the line as it is, the second one takes it out
    rw [hsplit, loop_line hbody fun j hj => hfirst hj,
      loop_no_slash (by decide) (by decide) (by decide), hopen, loop_comment (hfind _), ih,
      List.append_assoc]
    rfl

theorem Blanked.no_nul {s t : List UInt8} (h : Blanked s t) (hs : 0 ∉ s) : 0 ∉ t := by
  induction h with
  | nil => exact hs
  | plain _ _ _ _ ih => simp_all
  | quoted _ _ ih => simp_all
  | block _ _ ih => simp_all [blanks]
  | line _ _ ih => simp_all [blanks]

/-- A comment without the end of its line is left as it is but for its slashes. -/
theorem LineComment.removed {body : List UInt8} (h : LineComment body) :
    removeCommentsLoop [47, 47] [10] false false
      (removeCommentsLoop [47, 42] [42, 47] false false (bytes "//" ++ body)) =
    blanks 2 ++ body := by
  have hfind : strstr body [10] = none :=
    strstr_eq_none fun j hj => h.no_newline (mem_of_prefix_drop hj)
  have hother := loop_line h (d := 42) (e := [42, 47]) (r := []) fun j _ hj => by
    rw [List.append_nil] at hj
    exact h.no_block (hj.isInfix.trans (List.drop_suffix j _).isInfix)
  rw [loop_nil, List.append_nil] at hother
  rw [hother]
  exact loop_comment_open hfind

/-- What is parsed once the comments are out. -/
theorem parse_without_comments (format : NumberFormat N) {string blanked rest : List UInt8}
    (hremoved : removeCommentsLoop [47, 47] [10] false false
      (removeCommentsLoop [47, 42] [42, 47] false false (CString.ofBytes string)) =
        blanked ++ rest)
    (hnul : 0 ∉ blanked ++ rest)
    (hmark : ([0xEF, 0xBB, 0xBF] <+: blanked ++ rest) ↔ [0xEF, 0xBB, 0xBF] <+: blanked) :
    jsonParseStringWithComments format string =
      if [0xEF, 0xBB, 0xBF] <+: blanked then none
      else jsonParseString format (blanked ++ rest) := by
  rw [jsonParseStringWithComments_eq, hremoved]
  unfold jsonParseString
  simp only [CString.ofBytes_eq_self hnul, hmark]
  split_ifs with hbegin
  · obtain ⟨t, ht⟩ := hbegin
    rw [← ht, List.append_assoc, List.cons_append, parseValue_mark]
    rfl
  · rfl

/-- Comments are taken for white space. Only a last one without the end of its line is not: it loses
its slashes, and the rest of it is parsed. A byte order mark is not expected. -/
theorem json_comments_blank (format : NumberFormat N) {string blanked : List UInt8}
    (h : Blanked (CString.ofBytes string) blanked) :
    jsonParseStringWithComments format string =
      (if [0xEF, 0xBB, 0xBF] <+: blanked then none else jsonParseString format blanked) ∧
    ∀ body, LineComment body → 0 ∉ body →
      jsonParseStringWithComments format (CString.ofBytes string ++ bytes "//" ++ body) =
        if [0xEF, 0xBB, 0xBF] <+: blanked then none
        else jsonParseString format (blanked ++ blanks 2 ++ body) := by
  have hnul := h.no_nul (CString.ofBytes_no_nul string)
  constructor
  · have hremoved := h.removed []
    rw [List.append_nil, loop_nil, loop_nil] at hremoved
    have hparse := parse_without_comments format hremoved (by simpa using hnul) (by simp)
    rwa [List.append_nil] at hparse
  · intro body hbody hbodynul
    have hself : CString.ofBytes (CString.ofBytes string ++ bytes "//" ++ body) =
        CString.ofBytes string ++ (bytes "//" ++ body) := by
      rw [List.append_assoc]
      refine CString.ofBytes_eq_self ?_
      simp [CString.ofBytes_no_nul, hbodynul, bytes]
    have hremoved := h.removed (bytes "//" ++ body)
    rw [hbody.removed, ← hself] at hremoved
    rw [List.append_assoc blanked]
    exact parse_without_comments format hremoved (by simp [hnul, hbodynul, blanks]) mark_blanks

/-- A block comment with a quote in it, and a comment up to the end of the line. -/
def commentedList : List UInt8 := bytes "[1/*\"*/]//end\n"

def blankedList : List UInt8 := bytes "[1     ]      "

theorem blanked_list : Blanked commentedList blankedList := by
  have hline : Blanked (bytes "//" ++ bytes "end" ++ bytes "\n" ++ []) (blanks 6 ++ []) :=
    .line ⟨by decide, by decide, by decide, by decide⟩ .nil
  have hblock : Blanked (bytes "/*" ++ bytes "\"" ++ bytes "*/" ++ (93 :: bytes "//end\n"))
      (blanks 5 ++ (93 :: (blanks 6 ++ []))) :=
    .block (by decide) (.plain (by decide) (by decide) (by decide) hline)
  exact .plain (by decide) (by decide) (by decide)
    (.plain (by decide) (by decide) (by decide) hblock)

theorem json_comments_blank_list :
    jsonParseStringWithComments digitFormat commentedList =
      jsonParseString digitFormat blankedList ∧
    jsonParseStringWithComments digitFormat (commentedList ++ bytes "//" ++ bytes "last") =
      jsonParseString digitFormat (blankedList ++ blanks 2 ++ bytes "last") := by
  have hself : CString.ofBytes commentedList = commentedList :=
    CString.ofBytes_eq_self (by decide)
  have hblanked : Blanked (CString.ofBytes commentedList) blankedList := by
    rw [hself]
    exact blanked_list
  have hmark : ¬ [0xEF, 0xBB, 0xBF] <+: blankedList := by decide
  have hblank := json_comments_blank digitFormat hblanked
  rw [if_neg hmark, hself] at hblank
  refine ⟨hblank.1, ?_⟩
  rw [hblank.2 (bytes "last") ⟨by decide, by decide, by decide, by decide⟩ (by decide),
    if_neg hmark]

end CDevHws.Hw08
