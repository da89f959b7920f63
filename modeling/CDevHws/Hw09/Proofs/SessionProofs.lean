import CDevHws.Hw09.CProg

/-!
# Proofs: what both programs print

A session is what both programs do to the standard output: all elements and the odd ones in reverse
order, each on a line. The elements are flushed, the newlines are not. So if a signal ends the
process after the session, the text has been printed completely only on a terminal.
-/

namespace CDevHws.Hw09

open Stdout

/-- What `print_int` does to the standard output. -/
def printed (s : Stream) (number : BitVec 64) : Stream := (s.printf intFormat number).flush

/-- The odd numbers. -/
def oddNumbers (numbers : List (BitVec 64)) : List (BitVec 64) :=
  numbers.filter fun number => number.toInt % 2 = 1

/-- What both programs do to the standard output. -/
def session (numbers : List (BitVec 64)) (s : Stream) : Stream :=
  ((oddNumbers numbers).reverse.foldl printed ((numbers.foldl printed s).puts emptyStr)).puts
    emptyStr

/-- The numbers on a line, each with a space behind it. -/
def lineOf (numbers : List (BitVec 64)) : List Char :=
  (numbers.flatMap fun number => (toString number.toInt).toList ++ [' ']) ++ ['\n']

/-- All elements in order, and the odd elements in reverse order. -/
def text (numbers : List (BitVec 64)) : List Char :=
  lineOf numbers ++ lineOf (oddNumbers numbers).reverse

/-- The last bit tells whether a number is odd. -/
theorem and_one_ne_zero_iff (number : BitVec 64) : number &&& 1 ≠ 0 ↔ number.toInt % 2 = 1 := by
  have hbit : (number &&& 1).toNat = number.toNat % 2 := by
    rw [BitVec.toNat_and]
    exact Nat.and_one_is_mod _
  have hzero : number &&& 1 = 0 ↔ number.toNat % 2 = 0 := by
    rw [← BitVec.toNat_inj, hbit]
    rfl
  rw [ne_eq, hzero, BitVec.toInt_eq_toNat_cond]
  split <;> omega

theorem filter_and_one (numbers : List (BitVec 64)) :
    (numbers.filter fun number => number &&& 1 ≠ 0) = oddNumbers numbers :=
  List.filter_congr fun number _ => decide_eq_decide.mpr (and_one_ne_zero_iff number)

section

variable {pred : BitVec 64 → BitVec 64} {val : BitVec 64}

/-- An element without the property does not change what `f` puts in front of a list. -/
theorem filtered_cons_of_zero (hpred : pred val = 0) (numbers acc : List (BitVec 64)) :
    ((val :: numbers).filter fun number => pred number ≠ 0).reverse ++ acc =
      (numbers.filter fun number => pred number ≠ 0).reverse ++ acc := by
  rw [List.filter_cons_of_neg]
  simp [hpred]

/-- `f` puts an element with the property in front of the list before it looks at the next one. -/
theorem filtered_cons_of_ne (hpred : pred val ≠ 0) (numbers acc : List (BitVec 64)) :
    ((val :: numbers).filter fun number => pred number ≠ 0).reverse ++ acc =
      (numbers.filter fun number => pred number ≠ 0).reverse ++ val :: acc := by
  have hkeep : (val :: numbers).filter (fun number => pred number ≠ 0) =
      val :: numbers.filter fun number => pred number ≠ 0 :=
    List.filter_cons_of_pos (decide_eq_true hpred)
  rw [hkeep, List.reverse_cons, List.append_assoc]
  rfl

end

@[simp] theorem written_printed (s : Stream) (number : BitVec 64) :
    (printed s number).written = s.written ++ ((toString number.toInt).toList ++ [' ']) := by
  rw [printed, written_flush, Stream.printf, written_write]
  rfl

@[simp] theorem buffering_printed (s : Stream) (number : BitVec 64) :
    (printed s number).buffering = s.buffering := by
  rw [printed, buffering_flush, Stream.printf, buffering_write]

theorem written_foldl_printed (numbers : List (BitVec 64)) (s : Stream) :
    (numbers.foldl printed s).written =
      s.written ++ numbers.flatMap fun number => (toString number.toInt).toList ++ [' '] := by
  induction numbers generalizing s with
  | nil => simp
  | cons number numbers ih =>
    rw [List.foldl_cons, ih, written_printed, List.flatMap_cons, List.append_assoc]

theorem buffering_foldl_printed (numbers : List (BitVec 64)) (s : Stream) :
    (numbers.foldl printed s).buffering = s.buffering := by
  induction numbers generalizing s with
  | nil => rfl
  | cons number numbers ih => rw [List.foldl_cons, ih, buffering_printed]

theorem written_line (numbers : List (BitVec 64)) (s : Stream) :
    ((numbers.foldl printed s).puts emptyStr).written = s.written ++ lineOf numbers := by
  rw [Stream.puts, written_write, written_foldl_printed, lineOf, List.append_assoc]
  rfl

theorem written_session (numbers : List (BitVec 64)) (s : Stream) :
    (session numbers s).written = s.written ++ text numbers := by
  rw [session, written_line, written_line, text, List.append_assoc]

/-- At the exit everything has been printed. -/
theorem session_exit (numbers : List (BitVec 64)) (buffering : Buffering) :
    (session numbers (.start buffering)).exit = text numbers := by
  rw [exit_eq_written, written_session]
  rfl

/-- When a signal ends the process, the newlines have been printed only on a terminal. -/
theorem session_killed_iff (numbers : List (BitVec 64)) (buffering : Buffering) :
    (session numbers (.start buffering)).killed = text numbers ↔ buffering = .line := by
  have hwritten : (session numbers (.start buffering)).killed ++
      (session numbers (.start buffering)).pending = text numbers := session_exit numbers buffering
  have hbuffering : ((oddNumbers numbers).reverse.foldl printed
      ((numbers.foldl printed (.start buffering)).puts emptyStr)).buffering = buffering := by
    rw [buffering_foldl_printed, Stream.puts, buffering_write, buffering_foldl_printed]
    rfl
  cases buffering with
  | line =>
    have hpending : (session numbers (.start .line)).pending = [] :=
      pending_puts_line hbuffering emptyStr
    rw [hpending, List.append_nil] at hwritten
    exact iff_of_true hwritten rfl
  | full =>
    have hpending : (session numbers (.start .full)).pending ≠ [] :=
      pending_puts_full hbuffering emptyStr
    refine iff_of_false (fun h => hpending ?_) (by simp)
    rw [h] at hwritten
    exact List.append_right_eq_self.mp hwritten

end CDevHws.Hw09
