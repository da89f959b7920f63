import CDevHws.Hw27.Proofs.ReadProofs
import Mathlib.Data.List.Induction

/-!
# Proofs: requests that do not come in one piece

Each `recv` writes over the beginning of `in_buf`, and only what the last one has read is parsed. So
a request in several pieces is found by chance only, and with the wrong URL.
-/

namespace CDevHws.Hw27

open CString (strtok strncpy)

/-! ## Calls of `do_read`, one after the other -/

/-- The record after calls of `do_read` that get these results of `recv`. -/
inductive Reads : EpData → List RecvResult → EpData → Prop where
  | nil (ep : EpData) : Reads ep [] ep
  | call {ep ep' ep'' : EpData} {results rest : List RecvResult} {acts : List Act}
      (hread : doRead ep results = some (ep', acts)) (hrest : Reads ep' rest ep'') :
      Reads ep (results ++ rest) ep''

/-- The bytes of the results, without those that have failed. -/
def pieces (results : List RecvResult) : List (List UInt8) :=
  results.filterMap fun
    | .error => none
    | .data bytes => some bytes

/-- What one piece makes of the record: the request is stored if its end is found. -/
def receive (ep : EpData) (piece : List UInt8) : EpData :=
  if Found (fill ep (.data piece)) then storeRequest (fill ep (.data piece)) piece.length
  else fill ep (.data piece)

theorem receive_found {ep : EpData} {piece : List UInt8} (h : Found (fill ep (.data piece))) :
    receive ep piece = storeRequest (fill ep (.data piece)) piece.length := if_pos h

theorem receive_not_found {ep : EpData} {piece : List UInt8}
    (h : ¬ Found (fill ep (.data piece))) : receive ep piece = fill ep (.data piece) := if_neg h

theorem pieces_append (results rest : List RecvResult) :
    pieces (results ++ rest) = pieces results ++ pieces rest := List.filterMap_append ..

/-- Between the calls, and when `recv` fails, nothing is lost or added. -/
theorem doRead_eq_foldl {ep ep' : EpData} {results : List RecvResult} {acts : List Act}
    (h : doRead ep results = some (ep', acts)) : ep' = (pieces results).foldl receive ep := by
  induction results generalizing ep acts with
  | nil => cases h
  | cons result rest ih =>
    rcases doRead_cases h with ⟨rfl, rfl, rfl, -⟩ | ⟨bytes, rfl, rfl, hfound, rfl, -⟩ |
      ⟨bytes, acts', rfl, hfound, hread, -⟩
    · rfl
    · exact (receive_found hfound).symm
    · show ep' = (pieces rest).foldl receive (receive ep bytes)
      rw [receive_not_found hfound]
      exact ih hread

theorem Reads.eq_foldl {ep ep' : EpData} {results : List RecvResult} (h : Reads ep results ep') :
    ep' = (pieces results).foldl receive ep := by
  induction h with
  | nil ep => rfl
  | call hread _ ih => rw [pieces_append, List.foldl_append, ← doRead_eq_foldl hread, ← ih]

/-- A call that goes on after a piece without the end of the request. -/
theorem Reads.cons {ep ep' : EpData} {piece : List UInt8} {results : List RecvResult}
    (h : Reads (fill ep (.data piece)) results ep') (hne : results ≠ [])
    (hfound : ¬ Found (fill ep (.data piece))) : Reads ep (.data piece :: results) ep' := by
  cases h with
  | nil => exact absurd rfl hne
  | call hread hrest =>
    rw [← List.cons_append]
    exact Reads.call ((doRead_not_found hfound).trans (congrArg _ hread)) hrest

/-- The URL of what one `recv` has read. -/
def urlOf (piece : List UInt8) : List UInt8 := (parseRequest (CString.ofBytes piece)).1

/-- The last one of the pieces after which the end of a request is found; if there is none,
`last`. -/
def lastFound (ep : EpData) (last : List UInt8) : List (List UInt8) → List UInt8
  | [] => last
  | piece :: rest =>
    lastFound (receive ep piece) (if Found (fill ep (.data piece)) then piece else last) rest

theorem urlOf_nil : urlOf [] = [] := rfl

/-- The stored URL is the one of the last piece. -/
theorem url_foldl_receive {ep : EpData} {last : List UInt8} {ps : List (List UInt8)}
    (hlen : ∀ piece ∈ ps, piece.length ≤ bufsize) (hurl : ep.url = urlOf last)
    (hurlLen : ep.urlLen = ep.url.length) :
    (ps.foldl receive ep).url = urlOf (lastFound ep last ps) ∧
      (ps.foldl receive ep).urlLen = (ps.foldl receive ep).url.length := by
  induction ps generalizing ep last with
  | nil => exact ⟨hurl, hurlLen⟩
  | cons piece rest ih =>
    have hrest := fun p hp => hlen p (List.mem_cons_of_mem _ hp)
    rw [List.foldl_cons, lastFound]
    by_cases hfound : Found (fill ep (.data piece))
    · obtain ⟨hstored, hstoredLen⟩ := storeRequest_url ep (hlen piece List.mem_cons_self)
      rw [if_pos hfound]
      refine ih hrest ?_ ?_
      · rw [receive_found hfound]
        exact hstored
      · rw [receive_found hfound]
        exact hstoredLen
    · rw [if_neg hfound]
      refine ih hrest ?_ ?_
      · rw [receive_not_found hfound]
        exact hurl
      · rw [receive_not_found hfound]
        exact hurlLen

theorem Reads.url {ep : EpData} {results : List RecvResult}
    (h : Reads .zero results ep) (hlen : ∀ piece ∈ pieces results, piece.length ≤ bufsize) :
    ep.url = urlOf (lastFound .zero [] (pieces results)) ∧ ep.urlLen = ep.url.length := by
  rw [h.eq_foldl]
  exact url_foldl_receive hlen urlOf_nil.symm rfl

/-! ## A request in one piece -/

section request

variable {request : List UInt8}

end request

/-! ## Requests with a second word -/

section split

variable {request : List UInt8}

end split

/-! ## What stands in memory -/

/-- What follows the first word of a piece. -/
def afterFirst (piece : List UInt8) : List UInt8 :=
  (piece.dropWhile (· ∈ [32])).dropWhile (· ∉ [32])

/-- What follows its second word. -/
def afterSecond (piece : List UInt8) : List UInt8 := afterFirst (afterFirst piece)

/-- The indices behind a piece, behind its first word and behind its second one. -/
def cuts (piece : List UInt8) : List ℕ :=
  [piece.length, piece.length - (afterFirst piece).length,
    piece.length - (afterSecond piece).length]

section memory

variable {request : List UInt8}

end memory

/-! ## Segmentation -/

section segmentation

variable {request : List UInt8}

end segmentation

end CDevHws.Hw27
