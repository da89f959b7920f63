import CDevHws.Hw06.Proofs.WcProofs

/-!
# Proofs: the bytes that reach the hash table

A byte that finds the array full ends the word like a space does, and is gone like a space. So the
words hold all bytes of the file that are no white space if and only if the array never gets full
within a run.
-/

namespace CDevHws.Hw06

open CString (isspace)

/-- A table that only keeps the words that are added. -/
def record (words : List Word) (word : Word) : Option (List Word) := some (words ++ [word])

/-- What is added at the end of a word. -/
def ended (word : List UInt8) : List Word := if word.length > 0 then [cString word] else []

/-- The words that the loop of `main` adds, with the bytes of the array so far. -/
def passed : List UInt8 → List UInt8 → List Word
  | word, [] => ended word
  | word, c :: rest =>
    if !isspace c && word.length < maxWordLength - 1 then passed (word ++ [c]) rest
    else ended word ++ passed [] rest

/-- All bytes of the words. -/
def contents (words : List Word) : List UInt8 := (words.map Word.bytes).flatten

theorem contents_append (words words' : List Word) :
    contents (words ++ words') = contents words ++ contents words' := by
  unfold contents
  rw [List.map_append, List.flatten_append]

theorem foldlM_record (words words' : List Word) :
    words'.foldlM record words = some (words ++ words') := by
  induction words' generalizing words with
  | nil => rw [List.append_nil]; rfl
  | cons word words' ih =>
    rw [List.foldlM_cons]
    show words'.foldlM record (words ++ [word]) = _
    rw [ih, List.append_assoc]
    rfl

section read

variable {S : Type} (add : S → Word → Option S)

theorem endWord_ended (word : List UInt8) (s : S) :
    endWord add word s = (ended word).foldlM add s := by
  unfold endWord ended
  by_cases hlen : word.length > 0
  · rw [if_pos hlen, if_pos hlen, List.foldlM_cons]
    simp
  · rw [if_neg hlen, if_neg hlen]
    rfl

/-- What is added does not depend on the table. -/
theorem readLoop_passed (word input : List UInt8) (s : S) :
    readLoop add word input s = (passed word input).foldlM add s := by
  induction input generalizing word s with
  | nil => exact endWord_ended add word s
  | cons c rest ih =>
    unfold readLoop passed
    split_ifs with hguard
    · exact ih (word ++ [c]) s
    · rw [List.foldlM_append, ← endWord_ended]
      exact congrArg (Option.bind (endWord add word s)) (funext fun s' => ih [] s')

end read

theorem record_passed (input : List UInt8) :
    readLoop record [] input [] = some (passed [] input) := by
  rw [readLoop_passed, foldlM_record, List.nil_append]

/-! ## Full arrays -/

/-- As long as the array has room, the bytes of a run are put into it. -/
theorem passed_append {word letters : List UInt8} (hletters : ∀ c ∈ letters, isspace c = false)
    (hlen : word.length + letters.length ≤ 63) (rest : List UInt8) :
    passed word (letters ++ rest) = passed (word ++ letters) rest := by
  induction letters generalizing word with
  | nil => rw [List.nil_append, List.append_nil]
  | cons c letters ih =>
    rw [List.length_cons] at hlen
    have hroom : word.length < 63 := by omega
    have hc := hletters c List.mem_cons_self
    rw [List.cons_append, passed, if_pos (by rw [hc]; exact decide_eq_true hroom),
      ih (fun c' hmem => hletters c' (List.mem_cons_of_mem _ hmem))
        (by rw [List.length_append, List.length_singleton]; omega), List.append_assoc]
    rfl

theorem contents_ended {word : List UInt8} (hnul : 0 ∉ word) (hlen : word.length ≤ 63) :
    contents (ended word) = word := by
  unfold ended contents
  by_cases hpos : word.length > 0
  · rw [if_pos hpos, List.map_singleton, List.flatten_singleton, cString_bytes hnul hlen]
  · have hnil : word = [] := List.eq_nil_of_length_eq_zero (by omega)
    rw [if_neg hpos, hnil]
    rfl

/-- The bytes that are no white space. -/
def inked (input : List UInt8) : List UInt8 := input.filter fun c => !isspace c

/-- There are never more bytes in the words than in the file, and as many only if the array is large
enough. The bytes of the array so far are `word`. -/
theorem length_contents_passed {word input : List UInt8}
    (hword : ∀ c ∈ word, isspace c = false) (hnul : 0 ∉ word ++ input) (hlen : word.length ≤ 63) :
    (contents (passed word input)).length ≤ word.length + (inked input).length ∧
      ((contents (passed word input)).length = word.length + (inked input).length →
        ∀ run ∈ runs (word ++ input), run.length ≤ 63) := by
  induction input generalizing word with
  | nil =>
    rw [List.append_nil] at hnul ⊢
    rw [passed, contents_ended hnul hlen]
    refine ⟨Nat.le_add_right _ _, fun _ run hrun => ?_⟩
    rw [runs_of_word hword] at hrun
    split_ifs at hrun
    · rw [List.mem_singleton.mp hrun]
      exact hlen
    · cases hrun
  | cons c rest ih =>
    have hnulRest : 0 ∉ [] ++ rest := by
      intro hmem
      exact hnul (List.mem_append_right _ (List.mem_cons_of_mem _ hmem))
    have hnulWord : 0 ∉ word := fun hmem => hnul (List.mem_append_left _ hmem)
    obtain ⟨hle, heq⟩ := ih isspace_nil hnulRest (Nat.zero_le _)
    rw [List.length_nil, Nat.zero_add] at hle heq
    unfold passed
    by_cases hc : isspace c = true
    · have hinked : inked (c :: rest) = inked rest := List.filter_cons_of_neg (by simp [hc])
      rw [hinked, if_neg (by simp [hc]), contents_append, List.length_append,
        contents_ended hnulWord hlen]
      refine ⟨by omega, fun hall run hrun => ?_⟩
      rw [runs_space hc, List.mem_append] at hrun
      rcases hrun with hrun | hrun
      · rw [runs_of_word hword] at hrun
        split_ifs at hrun
        · rw [List.mem_singleton.mp hrun]
          exact hlen
        · cases hrun
      · exact heq (by omega) run hrun
    · rw [Bool.not_eq_true] at hc
      have hinked : inked (c :: rest) = c :: inked rest := List.filter_cons_of_pos (by simp [hc])
      rw [hinked, List.length_cons]
      by_cases hfull : word.length < 63
      · have hnext := ih (isspace_append hword hc)
          (by rwa [List.append_assoc]) (by rw [List.length_append]; exact hfull)
        rw [List.append_assoc, List.length_append] at hnext
        rw [if_pos (by rw [hc]; exact decide_eq_true hfull)]
        refine ⟨by have := hnext.1; simp at this; omega, fun hall => hnext.2 ?_⟩
        simp
        omega
      · -- the byte is dropped
        rw [if_neg (by rw [hc]; simpa using hfull), contents_append, List.length_append,
          contents_ended hnulWord hlen]
        exact ⟨by omega, fun hall => by omega⟩

/-- If the runs fit into the array, the words are the runs. -/
theorem contents_passed_of_short {input : List UInt8} (hnul : 0 ∉ input)
    (hshort : ∀ run ∈ runs input, run.length ≤ 63) :
    contents (passed [] input) = inked input := by
  have hruns := readLoop_eq record isspace_nil hshort []
  have hflat := flatten_runs isspace_nil input
  rw [List.nil_append, List.nil_append] at hflat
  rw [record_passed, foldlM_record, List.nil_append, List.nil_append] at hruns
  unfold contents inked
  rw [Option.some.inj hruns, map_bytes_eq hnul hshort, hflat]

/-- For every input without a NUL, the words that `main` hands to `hashtable_add` have together
exactly the bytes of the input that are no white space, in their order, if and only if no run of
such bytes is longer than 63. -/
theorem no_byte_lost_iff {input : List UInt8} (hnul : 0 ∉ input) :
    (∃ words, readLoop record [] input [] = some words ∧
      (words.map Word.bytes).flatten = input.filter fun c => !isspace c) ↔
        ∀ run ∈ runs input, run.length ≤ 63 := by
  rw [record_passed]
  constructor
  · rintro ⟨words, hwords, hcontents⟩
    have hlen := length_contents_passed isspace_nil hnul (Nat.zero_le _)
    rw [List.length_nil, Nat.zero_add, Option.some.inj hwords] at hlen
    exact hlen.2 (congrArg List.length hcontents)
  · intro hshort
    exact ⟨_, rfl, contents_passed_of_short hnul hshort⟩

/-- The text "a b". -/
theorem no_byte_lost_ab : ∃ words, readLoop record [] [97, 32, 98] [] = some words ∧
    (words.map Word.bytes).flatten = [97, 32, 98].filter fun c => !isspace c :=
  (no_byte_lost_iff (by decide)).mpr (by decide)

/-- The last one of 64 letters is dropped. -/
theorem last_letter_lost : ∃ words,
    readLoop record [] (List.replicate 64 97) [] = some words ∧
    (words.map Word.bytes).flatten = List.replicate 63 97 ∧
    (List.replicate 64 97).filter (fun c => !isspace c) = List.replicate 64 97 ∧
    ¬ ∃ words, readLoop record [] (List.replicate 64 97) [] = some words ∧
      (words.map Word.bytes).flatten = (List.replicate 64 97).filter fun c => !isspace c := by
  have hspace : ∀ n, ∀ c ∈ List.replicate n (97 : UInt8), isspace c = false :=
    fun n c hc => by rw [List.eq_of_mem_replicate hc]; rfl
  have hread : readLoop record [] (List.replicate 64 97) [] =
      some [cString (List.replicate 63 97)] := by
    rw [record_passed, List.replicate_succ', passed_append (hspace 63) (Nat.le_refl _),
      List.nil_append]
    rfl
  have hletters : (List.replicate 64 97).filter (fun c => !isspace c) = List.replicate 64 97 :=
    List.filter_eq_self.mpr fun c hc => by rw [hspace 64 c hc]; rfl
  refine ⟨_, hread, rfl, hletters, ?_⟩
  rintro ⟨words, hwords, hall⟩
  rw [hread] at hwords
  rw [← Option.some.inj hwords, hletters] at hall
  exact absurd (congrArg List.length hall) (by decide)

end CDevHws.Hw06
