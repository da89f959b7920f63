import CDevHws.Lib.Transition
import Mathlib.Data.Nat.Notation
import Mathlib.Logic.Function.Basic

/-!
# The logger (`logger.c`)

Any number of threads call `logprint`, and each of them can be interrupted between any two calls of
the C library. The stream is what all of them share, and so is the buffer of `localtime`. `loginit`
is called before there is a second thread.
-/

namespace CDevHws.FinalProject

/-- `loglevel`. -/
inductive Loglevel where
  | debug
  | info
  | warn
  | err
deriving DecidableEq, Repr

/-- The bytes of a text. -/
def textBytes (s : String) : List UInt8 := s.toList.map fun c => c.toNat.toUInt8

/-- `levels`. -/
def Loglevel.text : Loglevel → List UInt8
  | .debug => textBytes "[DEBUG]"
  | .info => textBytes "[INFO]"
  | .warn => textBytes "[WARN]"
  | .err => textBytes "[ERROR]"

/-- `struct timeval`. -/
structure Timeval where
  sec : ℕ
  usec : ℕ
deriving DecidableEq, Repr

/-- The arguments of `logprint`, with the message that `vfprintf` makes of the last ones. -/
structure LogCall where
  level : Loglevel
  file : List UInt8
  line : ℕ
  func : List UInt8
  message : List UInt8
deriving DecidableEq, Repr

/-- The texts that `logprint` writes one after the other. -/
def LogCall.pieces (call : LogCall) (buf : List UInt8) (tv : Timeval) : List (List UInt8) :=
  [buf ++ textBytes "." ++ textBytes (toString (tv.usec / 1000)) ++ textBytes " " ++
      call.level.text ++ textBytes " ",
    call.file ++ textBytes ":" ++ textBytes (toString call.line) ++ textBytes " (" ++ call.func ++
      textBytes ") ",
    call.message,
    textBytes "\n"]

/-- The statement of `logprint` that a thread comes to next. -/
inductive LogPc where
  | idle
  /-- `if (level_en[level])` -/
  | testing (call : LogCall)
  /-- `mtx_lock(&mtx)` -/
  | locking (call : LogCall)
  /-- `gettimeofday(&tv, NULL)` -/
  | timing (call : LogCall)
  /-- `localtime(&tv.tv_sec)` -/
  | converting (call : LogCall) (tv : Timeval)
  /-- `strftime(buf, ..)` -/
  | formatting (call : LogCall) (tv : Timeval)
  /-- The calls of `fprintf`, and at the end `mtx_unlock(&mtx)`. -/
  | writing (pieces : List (List UInt8))

/-- The variables of the logger, and where the threads `ι` are. -/
structure LogState (ι : Type) where
  levelEn : Loglevel → Bool
  /-- The thread that holds the lock. -/
  mtx : Option ι
  /-- The time in the buffer of `localtime`. -/
  tm : ℕ
  /-- What has been written to the stream. -/
  logfile : List UInt8
  pc : ι → LogPc

/-- What happens in one step. -/
inductive LogLabel (ι : Type) where
  | loglevelOn (level : Loglevel)
  | loglevelOff (level : Loglevel)
  /-- A thread calls `logprint`. -/
  | call (t : ι) (call : LogCall)
  /-- The level is on. -/
  | accept (t : ι) (call : LogCall)
  /-- The level is off. -/
  | reject (t : ι) (call : LogCall)
  | lock (t : ι)
  | time (t : ι) (tv : Timeval)
  | convert (t : ι)
  | format (t : ι)
  | write (t : ι) (piece : List UInt8)
  | unlock (t : ι)

variable {ι : Type} [DecidableEq ι]

/-- A thread goes on. -/
def LogState.goto (s : LogState ι) (t : ι) (pc : LogPc) : LogState ι :=
  { s with pc := Function.update s.pc t pc }

/-- One step of a thread. -/
inductive LogStep (strftime : ℕ → List UInt8) :
    LogState ι → LogLabel ι → LogState ι → Prop where
  | loglevelOn {s : LogState ι} {level : Loglevel} :
      LogStep strftime s (.loglevelOn level)
        { s with levelEn := Function.update s.levelEn level true }
  | loglevelOff {s : LogState ι} {level : Loglevel} :
      LogStep strftime s (.loglevelOff level)
        { s with levelEn := Function.update s.levelEn level false }
  | call {s : LogState ι} {t : ι} {call : LogCall} (h : s.pc t = .idle) :
      LogStep strftime s (.call t call) (s.goto t (.testing call))
  | accept {s : LogState ι} {t : ι} {call : LogCall} (h : s.pc t = .testing call)
      (hon : s.levelEn call.level = true) :
      LogStep strftime s (.accept t call) (s.goto t (.locking call))
  | reject {s : LogState ι} {t : ι} {call : LogCall} (h : s.pc t = .testing call)
      (hoff : s.levelEn call.level = false) :
      LogStep strftime s (.reject t call) (s.goto t .idle)
  | lock {s : LogState ι} {t : ι} {call : LogCall} (h : s.pc t = .locking call)
      (hfree : s.mtx = none) :
      LogStep strftime s (.lock t) { s.goto t (.timing call) with mtx := some t }
  | time {s : LogState ι} {t : ι} {call : LogCall} (tv : Timeval) (h : s.pc t = .timing call) :
      LogStep strftime s (.time t tv) (s.goto t (.converting call tv))
  | convert {s : LogState ι} {t : ι} {call : LogCall} {tv : Timeval}
      (h : s.pc t = .converting call tv) :
      LogStep strftime s (.convert t) { s.goto t (.formatting call tv) with tm := tv.sec }
  | format {s : LogState ι} {t : ι} {call : LogCall} {tv : Timeval}
      (h : s.pc t = .formatting call tv) :
      LogStep strftime s (.format t)
        (s.goto t (.writing (call.pieces (strftime s.tm) tv)))
  | write {s : LogState ι} {t : ι} {piece : List UInt8} {pieces : List (List UInt8)}
      (h : s.pc t = .writing (piece :: pieces)) :
      LogStep strftime s (.write t piece)
        { s.goto t (.writing pieces) with logfile := s.logfile ++ piece }
  | unlock {s : LogState ι} {t : ι} (h : s.pc t = .writing []) :
      LogStep strftime s (.unlock t) { s.goto t .idle with mtx := none }

/-- The logger after `loginit`, which appends to what is in the file. -/
def LogState.init (levelEn : Loglevel → Bool) (tm : ℕ) (content : List UInt8) : LogState ι where
  levelEn := levelEn
  mtx := none
  tm := tm
  logfile := content
  pc := fun _ => .idle

/-! ## What is logged -/

/-- A call with the thread that made it and its time. -/
structure LogRecord (ι : Type) where
  thread : ι
  call : LogCall
  tv : Timeval

/-- The text of a record. -/
def LogRecord.text (strftime : ℕ → List UInt8) (record : LogRecord ι) : List UInt8 :=
  (record.call.pieces (strftime record.tv.sec) record.tv).flatten

/-- What a thread has still to write of a record that has its time. -/
def LogPc.unwritten (strftime : ℕ → List UInt8) : LogPc → List UInt8
  | .converting call tv => (call.pieces (strftime tv.sec) tv).flatten
  | .formatting call tv => (call.pieces (strftime tv.sec) tv).flatten
  | .writing pieces => pieces.flatten
  | _ => []

/-- What the thread that holds the lock has still to write. -/
def LogState.unwritten (strftime : ℕ → List UInt8) (s : LogState ι) : List UInt8 :=
  (s.mtx.map fun t => (s.pc t).unwritten strftime).getD []

/-- A call that has been accepted and has no time yet. -/
def LogPc.pending : LogPc → List LogCall
  | .locking call => [call]
  | .timing call => [call]
  | _ => []

/-- The call with which a thread has found its level on. -/
def acceptedCall (t : ι) : LogLabel ι → Option LogCall
  | .accept t' call => if t' = t then some call else none
  | _ => none

/-- The calls of a thread that have found their level on, in order. -/
def accepted (t : ι) (tr : List (LogLabel ι)) : List LogCall :=
  tr.filterMap (acceptedCall t)

/-- The time that a thread has been given. -/
def givenTime : LogLabel ι → Option (ι × Timeval)
  | .time t tv => some (t, tv)
  | _ => none

/-- The times that the threads have been given, in order. -/
def times (tr : List (LogLabel ι)) : List (ι × Timeval) := tr.filterMap givenTime

/-- A step inside of `logprint`. -/
def LogLabel.Internal : LogLabel ι → Prop
  | .loglevelOn _ => False
  | .loglevelOff _ => False
  | .call .. => False
  | _ => True

end CDevHws.FinalProject
