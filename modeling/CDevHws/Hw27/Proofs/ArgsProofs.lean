import CDevHws.Hw27.Chttp

/-!
# Proofs: the arguments of the server

`parse_args` ends the string in the wrong one of its two buffers: the NUL at the index `ADDRSIZE`
goes into the name of the directory, not behind the address. `strncpy` fills the address with NULs
if it is short, so only the name is damaged.
-/

namespace CDevHws.Hw27

open CString (strncpyBytes strtok IsToken)

/-- The name of the directory after `parse_args`. -/
theorem ofBytes_dirname {dir : List UInt8} (hnul : 0 ∉ dir) (hlen : dir.length < strlenmax) :
    CString.ofBytes ((strncpyBytes dir (strlenmax - 1) ++ [0]).set addrsize 0) =
      dir.take addrsize := by
  have hzeros : strncpyBytes dir (strlenmax - 1) ++ [0] =
      dir ++ List.replicate (strlenmax - 1 - dir.length + 1) 0 := by
    rw [CString.strncpyBytes_eq (Nat.le_sub_one_of_lt hlen), List.append_assoc,
      ← List.replicate_succ']
  have hroom : addrsize < (dir ++ List.replicate (strlenmax - 1 - dir.length + 1) 0).length := by
    have haddr : addrsize = 16 := rfl
    have hmax : strlenmax = 255 := rfl
    rw [List.length_append, List.length_replicate]
    omega
  rw [hzeros, CString.ofBytes_set_nul hroom, List.take_append, List.take_replicate,
    CString.ofBytes_append_zeros fun hmem => hnul (List.mem_of_mem_take hmem)]

theorem ofBytes_address {addr : List UInt8} (hnul : 0 ∉ addr) (hlen : addr.length ≤ addrsize) :
    CString.ofBytes (strncpyBytes addr addrsize) = addr := by
  rw [CString.strncpyBytes_eq hlen, CString.ofBytes_append_zeros hnul]

/-- Without delimiters, the rest of the string is one token. -/
theorem strtok_rest_all {rest : List UInt8} (hne : rest ≠ []) : strtok [] rest = some (rest, []) :=
  CString.strtok_end (fun _ hc => absurd hc List.not_mem_nil)
    ⟨hne, fun _ _ => List.not_mem_nil⟩

theorem strtok_address {addr : List UInt8} (hne : addr ≠ []) (hcolon : 58 ∉ addr)
    (port : List UInt8) : strtok [58] (addr ++ 58 :: port) = some (addr, port) := by
  have htoken : IsToken [58] addr := by
    refine ⟨hne, fun c hc hmem => hcolon ?_⟩
    rw [← List.mem_singleton.mp hmem]
    exact hc
  exact CString.strtok_start htoken List.mem_cons_self

theorem not_length_lt_nArgs (prog dir addr : List UInt8) (more : List (List UInt8)) :
    ¬ (prog :: dir :: addr :: more).length < nArgs := by
  have hn : nArgs = 3 := rfl
  simp only [List.length_cons]
  omega

section parseArgs

variable {addr : List UInt8} (hne : addr ≠ []) (hcolon : 58 ∉ addr) (prog dir : List UInt8)
  (more : List (List UInt8))
include hne hcolon

theorem parseArgs_of_port {port : List UInt8} (hport : port ≠ []) :
    parseArgs (prog :: dir :: (addr ++ 58 :: port) :: more) =
      .ok ⟨(strncpyBytes dir (strlenmax - 1) ++ [0]).set addrsize 0, strncpyBytes addr addrsize,
        (CString.scanInt port).getD 0⟩ := by
  have htoken : strtok [58] ((prog :: dir :: (addr ++ 58 :: port) :: more).getD 2 []) =
      some (addr, port) := strtok_address hne hcolon port
  unfold parseArgs
  rw [if_neg (not_length_lt_nArgs prog dir _ more), htoken]
  simp only [strtok_rest_all hport]
  rfl

/-- The second call of `strtok` finds nothing. -/
theorem parseArgs_of_no_port :
    parseArgs (prog :: dir :: (addr ++ [58]) :: more) = .error .nullPointer := by
  have htoken : strtok [58] ((prog :: dir :: (addr ++ [58]) :: more).getD 2 []) =
      some (addr, []) := strtok_address hne hcolon []
  unfold parseArgs
  rw [if_neg (not_length_lt_nArgs prog dir _ more), htoken]
  rfl

end parseArgs

/-- `parse_args` returns, and the strings in its variables are the arguments as they are given. -/
def ArgsKept (argv : List (List UInt8)) (dir addr : List UInt8) : Prop :=
  ∃ args, parseArgs argv = .ok args ∧ CString.ofBytes args.dirname = dir ∧
    CString.ofBytes args.address = addr

/-- For every name of a directory and every address that fit into the buffers: `parse_args` keeps
both if and only if the name has at most `ADDRSIZE` bytes and there is a port. -/
theorem parse_args_keeps_iff {dir addr : List UInt8} (hdir : 0 ∉ dir)
    (hdirLen : dir.length < strlenmax) (haddr : 0 ∉ addr) (hne : addr ≠ [])
    (haddrLen : addr.length < addrsize) (hcolon : 58 ∉ addr) (prog port : List UInt8)
    (more : List (List UInt8)) :
    ArgsKept (prog :: dir :: (addr ++ 58 :: port) :: more) dir addr ↔
      dir.length ≤ addrsize ∧ port ≠ [] := by
  unfold ArgsKept
  by_cases hport : port = []
  · rw [hport, parseArgs_of_no_port hne hcolon]
    constructor
    · rintro ⟨args, hargs, -⟩
      cases hargs
    · rintro ⟨-, hne⟩
      exact absurd rfl hne
  · rw [parseArgs_of_port hne hcolon prog dir more hport]
    constructor
    · rintro ⟨args, hargs, hname, -⟩
      rw [← Except.ok.inj hargs, ofBytes_dirname hdir hdirLen] at hname
      refine ⟨?_, hport⟩
      rw [← hname]
      exact List.length_take_le addrsize dir
    · rintro ⟨hshort, -⟩
      refine ⟨_, rfl, ?_, ofBytes_address haddr (Nat.le_of_lt haddrLen)⟩
      rw [ofBytes_dirname hdir hdirLen, List.take_of_length_le hshort]

/-- A directory whose name is short, served at the address "1" and the port 8. -/
theorem parse_args_keeps_short :
    ArgsKept [[99], [47], [49, 58, 56]] [47] [49] :=
  (@parse_args_keeps_iff [47] [49] (by decide) (by decide) (by decide) (by decide) (by decide)
    (by decide) [99] [56] []).mpr ⟨by decide, by decide⟩

/-- The name "/var/www/site-data" is cut to "/var/www/site-da". -/
theorem parse_args_cuts_name :
    ∃ args, parseArgs [ascii "chttp", ascii "/var/www/site-data", ascii "1.2.3.4:80"] = .ok args ∧
      CString.ofBytes args.dirname = ascii "/var/www/site-da" ∧
      CString.ofBytes args.address = ascii "1.2.3.4" := by
  refine ⟨_, rfl, ?_, ?_⟩
  · decide
  · decide

end CDevHws.Hw27
