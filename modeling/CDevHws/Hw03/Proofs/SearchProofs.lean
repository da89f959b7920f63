import CDevHws.Hw03.Proofs.ScanProofs

/-!
# Proofs: the search for a signature

`signature_search` looks at no byte twice, so it can overlook an occurrence that begins in the
middle of a failed attempt. It is exact if and only if all bytes before the first occurrence are
read in failed attempts.
-/

namespace CDevHws.Hw03

open Stdio
open Search (Finds First Attempts)

/-- `signature_search` stops after the first occurrence of the signature, or there is none and it
reads all bytes. -/
def SearchExact (f : File) (sig : List UInt8) : Prop :=
  (∃ front back, First sig front back f.rest ∧ signatureSearch f sig sig.length =
    (true, { f with pos := f.pos + (front ++ sig).length })) ∨
  ¬ sig <:+: f.rest ∧ signatureSearch f sig sig.length =
    (false, { f with pos := f.pos + f.rest.length, eof := true })

theorem searchExact_iff {sig : List UInt8} (hsig : sig ≠ []) (f : File) :
    SearchExact f sig ↔ ∀ front back, First sig front back f.rest → Attempts sig front := by
  have hcases := signatureSearch_cases f (List.length_pos_iff.mpr hsig)
  constructor
  · rintro hexact front back hfirst
    rcases hexact with ⟨front', back', hfirst', hsearch⟩ | ⟨hno, -⟩
    · obtain ⟨rfl, rfl⟩ := hfirst.unique hsig hfirst'
      rcases hcases with ⟨data, rest, hfinds, hrest, heq⟩ | ⟨-, heq⟩
      · have hlen : (front ++ sig).length = data.length := by
          rw [hsearch] at heq
          have hpos := congrArg (fun result => result.2.pos) heq
          exact Nat.add_left_cancel hpos
        obtain ⟨rfl, rfl⟩ := List.append_inj (hfirst.split.symm.trans hrest) hlen
        obtain ⟨front', hsplit, hattempts⟩ := Search.finds_iff.mp hfinds
        have hfront := List.append_cancel_right (hfirst.split.symm.trans hsplit)
        rwa [List.append_cancel_right hfront]
      · rw [hsearch] at heq
        cases heq
    · exact absurd ⟨front, back, hfirst.split.symm⟩ hno
  · intro hattempts
    by_cases hin : sig <:+: f.rest
    · obtain ⟨front, back, hfirst⟩ := Search.exists_first hsig hin
      have hfinds : Finds sig f.rest back :=
        Search.finds_iff.mpr ⟨front, hfirst.split, hattempts front back hfirst⟩
      rcases hcases with ⟨data, rest, hfinds', hrest, heq⟩ | ⟨hno, -⟩
      · have hback := hfinds.unique hfinds'
        subst hback
        have hdata := List.append_cancel_right (hrest.symm.trans hfirst.split)
        rw [hdata] at heq
        exact Or.inl ⟨front, back, hfirst, heq⟩
      · exact absurd hfinds (hno back)
    · rcases hcases with ⟨data, rest, hfinds, -, -⟩ | ⟨-, heq⟩
      · obtain ⟨front, hsplit, -⟩ := Search.finds_iff.mp hfinds
        exact absurd ⟨front, rest, hsplit.symm⟩ hin
      · exact Or.inr ⟨hin, heq⟩

/-- For every signature and every file: the search is exact if and only if the bytes before the
first occurrence are read in failed attempts. For a signature, it is exact on all files if and only
if all bytes of the signature are the same. -/
theorem signature_search_iff {sig : List UInt8} (hsig : 1 ≤ sig.length) :
    (∀ f : File, f.eof = false → (SearchExact f sig ↔
      ∀ front back, First sig front back f.rest → Attempts sig front)) ∧
    ((∀ f : File, f.eof = false → SearchExact f sig) ↔ ∃ n c, sig = List.replicate n c) := by
  have hne : sig ≠ [] := List.ne_nil_of_length_pos hsig
  refine ⟨fun f _ => searchExact_iff hne f, ?_, ?_⟩
  · intro hall
    cases sig with
    | nil => exact absurd rfl hne
    | cons c sig =>
      by_contra hsame
      have hexact := hall (fopen (c :: c :: sig)) rfl
      have hfirst : First (c :: sig) [c] [] (c :: c :: sig) :=
        Search.first_cons fun n heq => hsame ⟨n, c, heq⟩
      exact Search.not_attempts_singleton ((searchExact_iff hne _).mp hexact _ _ hfirst)
  · rintro ⟨n, c, rfl⟩ f -
    rw [List.length_replicate] at hsig
    exact (searchExact_iff hne f).mpr fun front back hfirst => hfirst.attempts_of_replicate hsig

/-- Three attempts fail before the header of an archive, one of them after its first byte. -/
theorem signature_search_after_attempts :
    SearchExact (fopen [0x13, 0x50, 0x00, 0x4B, 0x50, 0x4B, 0x03]) zipHeader := by
  have hsig : 1 ≤ zipHeader.length := by decide
  refine ((signature_search_iff hsig).1 _ rfl).mpr ?_
  intro front back hfirst
  have hhere : First zipHeader [0x13, 0x50, 0x00, 0x4B] [0x03]
      [0x13, 0x50, 0x00, 0x4B, 0x50, 0x4B, 0x03] := ⟨rfl, by decide⟩
  obtain ⟨rfl, rfl⟩ := hfirst.unique (by decide) hhere
  -- 13, then 50 00, then 4B
  have hattempts : Attempts zipHeader [0x4B] := Attempts.skip (k := 0) (by decide) (by decide) .nil
  have hattempts : Attempts zipHeader [0x50, 0x00, 0x4B] :=
    Attempts.skip (k := 1) (by decide) (by decide) hattempts
  exact Attempts.skip (k := 0) (by decide) (by decide) hattempts

/-- A fill byte FF before FF D9: the end of the image is not found. -/
theorem signature_search_fill : signatureSearch (fopen [0xFF, 0xFF, 0xD9]) jpegEnd jpegEnd.length =
      (false, ⟨[0xFF, 0xFF, 0xD9], 3, true⟩) ∧
    ¬ SearchExact (fopen [0xFF, 0xFF, 0xD9]) jpegEnd := by
  refine ⟨rfl, ?_⟩
  rintro (⟨front, back, -, hsearch⟩ | ⟨hno, -⟩)
  · cases hsearch
  · exact hno (by decide)

end CDevHws.Hw03
