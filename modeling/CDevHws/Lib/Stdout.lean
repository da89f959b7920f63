import Mathlib.Data.List.DropRight
import Mathlib.Data.Nat.Notation

/-!
# The standard output

The functions of the C library that write to the standard output. Text stays in a buffer, which is
taken to be large enough, until the stream is flushed; on a terminal every line is delivered when it
is complete. At the exit of the process all text is delivered, but what is in the buffer is lost
when a signal ends the process.
-/

namespace Stdout

/-- How the stream is buffered. -/
inductive Buffering where
  /-- The stream is a terminal. -/
  | line
  | full
deriving DecidableEq

/-- The stream, with the text that has been delivered and the text in the buffer. -/
structure Stream where
  buffering : Buffering
  delivered : List Char
  pending : List Char
deriving DecidableEq

/-- The stream when the process starts. -/
def Stream.start (buffering : Buffering) : Stream := ⟨buffering, [], []⟩

/-- The complete lines of a text. -/
def completeLines (text : List Char) : List Char := text.rdropWhile (· ≠ '\n')

/-- What comes after the last newline. -/
def lastLine (text : List Char) : List Char := text.rtakeWhile (· ≠ '\n')

/-- Text is written to the stream. -/
def Stream.write (text : List Char) (s : Stream) : Stream :=
  match s.buffering with
  | .line =>
    { s with
      delivered := s.delivered ++ completeLines (s.pending ++ text)
      pending := lastLine (s.pending ++ text) }
  | .full => { s with pending := s.pending ++ text }

/-- `fflush`. -/
def Stream.flush (s : Stream) : Stream :=
  { s with delivered := s.delivered ++ s.pending, pending := [] }

/-- The text of a format in which `%ld` stands for a number. -/
def format : List Char → ℤ → List Char
  | '%' :: 'l' :: 'd' :: rest, number => (toString number).toList ++ format rest number
  | c :: rest, number => c :: format rest number
  | [], _ => []

/-- `printf` of a `long`. -/
def Stream.printf (fmt : List Char) (number : BitVec 64) (s : Stream) : Stream :=
  s.write (format fmt number.toInt)

/-- `puts`. -/
def Stream.puts (text : List Char) (s : Stream) : Stream := s.write (text ++ ['\n'])

/-- All text written to the stream. -/
def Stream.written (s : Stream) : List Char := s.delivered ++ s.pending

/-- What the process has printed after its exit. -/
def Stream.exit (s : Stream) : List Char := s.flush.delivered

/-- What the process has printed if a signal ends it. -/
def Stream.killed (s : Stream) : List Char := s.delivered

theorem completeLines_append_lastLine (text : List Char) :
    completeLines text ++ lastLine text = text := by
  rw [completeLines, lastLine, List.rdropWhile, List.rtakeWhile, ← List.reverse_append,
    List.takeWhile_append_dropWhile, List.reverse_reverse]

theorem exit_eq_written (s : Stream) : s.exit = s.written := rfl

@[simp] theorem written_flush (s : Stream) : s.flush.written = s.written :=
  List.append_nil _

@[simp] theorem written_write (text : List Char) (s : Stream) :
    (s.write text).written = s.written ++ text := by
  unfold Stream.write Stream.written
  split
  · simp only [List.append_assoc, completeLines_append_lastLine]
  · simp only [List.append_assoc]

@[simp] theorem buffering_write (text : List Char) (s : Stream) :
    (s.write text).buffering = s.buffering := by
  unfold Stream.write
  split
  · rfl
  · rfl

@[simp] theorem buffering_flush (s : Stream) : s.flush.buffering = s.buffering := rfl

/-- On a terminal, nothing is left in the buffer after a newline. -/
theorem pending_puts_line {s : Stream} (hline : s.buffering = .line) (text : List Char) :
    (s.puts text).pending = [] := by
  simp only [Stream.puts, Stream.write, hline, lastLine]
  rw [← List.append_assoc, List.rtakeWhile_concat_neg _ _ _ (by simp)]

/-- Otherwise the newline is in the buffer. -/
theorem pending_puts_full {s : Stream} (hfull : s.buffering = .full) (text : List Char) :
    (s.puts text).pending ≠ [] := by
  simp [Stream.puts, Stream.write, hfull]

end Stdout
