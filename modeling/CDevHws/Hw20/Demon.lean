import CDevHws.Lib.Transition

/-!
# The daemon (`demon.c`)

The daemon binds a socket, answers each connection with the size of a file, and removes the socket
when it ends. The names of the socket and of the file come from the options, else from the
configuration, which SIGHUP reads again at any time. A configuration is what libconfuse finds in the
file; the answers of the kernel are parameters.
-/

namespace CDevHws.Hw20

/-- `DEF_SOCKET`. -/
def defSocket : String := "demon.sock"

/-- `DEF_FILE`. -/
def defFile : String := "file.txt"

/-- The size of `sun_path`. -/
def sunPathSize : ℕ := 108

/-- The options `-s` and `-f`. -/
structure Options where
  socketname : Option String
  filename : Option String

/-- What `cfg_parse` stores; an option that is missing is left as it is. -/
structure Config where
  socket : Option String
  file : Option String

/-- Where `main` is after `listen`. -/
inductive Phase where
  /-- At the condition of the loop. -/
  | check
  /-- In `accept`, or with a connection. -/
  | accept
  /-- After the loop. -/
  | leave
  | exited
deriving DecidableEq

/-- The state of the daemon. -/
structure Daemon where
  socketnameConf : Option String
  filenameConf : Option String
  finishWork : Bool
  phase : Phase

/-- `read_config`. -/
def readConfig (config : Config) (d : Daemon) : Daemon :=
  { d with
    socketnameConf := config.socket.or d.socketnameConf
    filenameConf := config.file.or d.filenameConf }

/-- `socketname`. -/
def socketname (opts : Options) (d : Daemon) : String :=
  match opts.socketname, d.socketnameConf with
  | some name, _ => name
  | none, some name => name
  | none, none => defSocket

/-- `filename`. -/
def filename (opts : Options) (d : Daemon) : String :=
  match opts.filename, d.filenameConf with
  | some name, _ => name
  | none, some name => name
  | none, none => defFile

/-- The answer to a connection, if this is what `get_file_size` returns. -/
def answer (opts : Options) (d : Daemon) (size : ℤ) : String :=
  "File " ++ filename opts d ++ " size = " ++ toString size ++ " bytes"

/-- `main` up to the loop, if no system call fails: the name of the socket, and the state. `none` if
the name does not fit into `sun_path`, where `strcpy` writes beyond it. -/
def start (opts : Options) (config : Config) : Option (String × Daemon) :=
  let d := readConfig config ⟨none, none, false, .check⟩
  if (socketname opts d).utf8ByteSize < sunPathSize then some (socketname opts d, d) else none

/-- What happens. -/
inductive Act where
  /-- The loop goes on. -/
  | enter
  /-- The loop ends. -/
  | stop
  /-- `accept` returns -1. -/
  | acceptFailed
  /-- A connection, and what is sent to it. -/
  | serve (text : Option String)
  /-- SIGINT or SIGTERM. -/
  | sigterm
  /-- SIGHUP, with the configuration that is read. -/
  | sighup (config : Config)
  | unlink (path : String)

/-- One step of `main` after `listen`, or a signal. -/
inductive Step (opts : Options) : Daemon → Act → Daemon → Prop where
  | enter {d : Daemon} (hphase : d.phase = .check) (hwork : d.finishWork = false) :
      Step opts d .enter { d with phase := .accept }
  | stop {d : Daemon} (hphase : d.phase = .check) (hwork : d.finishWork = true) :
      Step opts d .stop { d with phase := .leave }
  | acceptFailed {d : Daemon} (hphase : d.phase = .accept) :
      Step opts d .acceptFailed { d with phase := .leave }
  /-- Nothing can be read from the connection. -/
  | silent {d : Daemon} (hphase : d.phase = .accept) :
      Step opts d (.serve none) { d with phase := .check }
  | serve {d : Daemon} (size : ℤ) (hphase : d.phase = .accept) :
      Step opts d (.serve (some (answer opts d size))) { d with phase := .check }
  | sigterm {d : Daemon} (hphase : d.phase ≠ .exited) :
      Step opts d .sigterm { d with finishWork := true }
  | sighup {d : Daemon} (config : Config) (hphase : d.phase ≠ .exited) :
      Step opts d (.sighup config) (readConfig config d)
  /-- `unlink`, and the names of the configuration are freed. -/
  | unlink {d : Daemon} (hphase : d.phase = .leave) :
      Step opts d (.unlink (socketname opts d)) ⟨none, none, d.finishWork, .exited⟩

end CDevHws.Hw20
