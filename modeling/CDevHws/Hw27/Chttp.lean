import CDevHws.Lib.CString
import Mathlib.Data.List.Infix

/-!
# The HTTP server (`chttp.c`)

One thread waits for events of the listening socket and of the connections. What the kernel answers
to a system call is a parameter of the functions, and what they do is a list of actions. Strings are
lists of bytes, see `CDevHws.Lib.CString`; files are read but not modelled, so the descriptors here
are those of sockets.
-/

namespace CDevHws.Hw27

open CString (strncpy strncpyBytes strtok scanInt)

/-- `BUFSIZE`. -/
abbrev bufsize : ℕ := 2048

/-- `STRLENMAX`. -/
abbrev strlenmax : ℕ := 255

/-- `MAX_EPOLL_EVENTS`. -/
abbrev maxEpollEvents : ℕ := 128

/-- `ADDRSIZE`. -/
abbrev addrsize : ℕ := 16

/-- `N_ARGS`. -/
abbrev nArgs : ℕ := 3

/-- The bytes of a text. -/
def ascii (s : String) : List UInt8 := s.toList.map fun c => UInt8.ofNat c.toNat

/-! ## The arguments -/

/-- The global variables that `parse_args` sets. -/
structure Args where
  /-- A `char[STRLENMAX]`. -/
  dirname : List UInt8
  /-- A `char[ADDRSIZE]`. -/
  address : List UInt8
  port : ℤ

/-- Where `parse_args` does not return. -/
inductive ArgsError where
  /-- It prints the usage and exits. -/
  | usage
  /-- `strncpy` or `sscanf` gets the null pointer that `strtok` has returned. -/
  | nullPointer
deriving DecidableEq

/-- `parse_args`. The variables are zero before. -/
def parseArgs (argv : List (List UInt8)) : Except ArgsError Args :=
  if argv.length < nArgs then .error .usage
  else
    let dirname := strncpyBytes (argv.getD 1 []) (strlenmax - 1) ++ [0]
    match strtok [58] (argv.getD 2 []) with
    | none => .error .nullPointer
    | some (token, rest) =>
      let address := strncpyBytes token addrsize
      let dirname := dirname.set addrsize 0
      match strtok [] rest with
      | none => .error .nullPointer
      | some (token, _) => .ok ⟨dirname, address, (scanInt token).getD 0⟩

/-! ## The record of a connection -/

/-- A `char[BUFSIZE]`. -/
structure Buffer where
  bytes : List UInt8
  length_bytes : bytes.length = bufsize

/-- A buffer of zeros. -/
def Buffer.zero : Buffer := ⟨List.replicate bufsize 0, List.length_replicate⟩

/-- The buffer with `data` copied to its beginning. -/
def Buffer.write (b : Buffer) (data : List UInt8) : Buffer where
  bytes := data.take bufsize ++ b.bytes.drop (data.take bufsize).length
  length_bytes := by
    rw [List.length_append, List.length_drop, b.length_bytes]
    have hle := List.length_take_le bufsize data
    omega

/-- The buffer with one byte changed. -/
def Buffer.set (b : Buffer) (i : ℕ) (c : UInt8) : Buffer where
  bytes := b.bytes.set i c
  length_bytes := by rw [List.length_set, b.length_bytes]

@[simp] theorem Buffer.bytes_write (b : Buffer) (data : List UInt8) : (b.write data).bytes =
    data.take bufsize ++ b.bytes.drop (data.take bufsize).length := rfl

@[simp] theorem Buffer.bytes_set (b : Buffer) (i : ℕ) (c : UInt8) :
    (b.set i c).bytes = b.bytes.set i c := rfl

/-- `ep_data_t`. -/
structure EpData where
  sockfd : ℕ
  inBuf : Buffer
  outBuf : Buffer
  inSize : ℕ
  outSize : ℕ
  url : List UInt8
  urlLen : ℕ

/-- The record that `memset` clears. -/
def EpData.zero : EpData := ⟨0, .zero, .zero, 0, 0, [], 0⟩

/-- The bytes from `in_buf` on; `out_buf` follows at once. -/
def EpData.memory (ep : EpData) : List UInt8 := ep.inBuf.bytes ++ ep.outBuf.bytes

/-- `in_buf[i] = '\0'`. The index `BUFSIZE` is the first byte of `out_buf`. -/
def EpData.cut (ep : EpData) (i : ℕ) : EpData :=
  if i < bufsize then { ep with inBuf := ep.inBuf.set i 0 }
  else { ep with outBuf := ep.outBuf.set (i - bufsize) 0 }

/-! ## System calls -/

/-- What `recv` answers. -/
inductive RecvResult where
  /-- -1, also if there is nothing to read. -/
  | error
  /-- The bytes that it has put into the buffer; none if the peer has closed the connection. -/
  | data (bytes : List UInt8)
deriving DecidableEq

/-- What `access` answers. -/
inductive AccessResult where
  | ok
  /-- -1 with `errno` set to `EACCES`. -/
  | eacces
  /-- -1 with another `errno`. -/
  | other
deriving DecidableEq

/-- The answers to the system calls of one call of `do_write`. -/
structure Answers where
  access : AccessResult
  /-- The size of the file that `open` has opened, or `none` for -1. -/
  file : Option ℕ
  /-- The number of bytes sent, or `none` for -1. -/
  send : Option ℕ
  /-- The number of bytes sent, or `none` for -1. -/
  sendfile : Option ℕ

/-- What the server does. -/
inductive Act where
  | recv (fd : ℕ) (result : RecvResult)
  /-- No system call: `do_read` has got a request from the descriptor. -/
  | request (fd : ℕ) (url : List UInt8)
  | access (path : List UInt8) (result : AccessResult)
  | openFile (path : List UInt8) (size : Option ℕ)
  /-- `send`, of a header or a response to the request for `url`. -/
  | send (fd : ℕ) (url : List UInt8) (data : List UInt8) (result : Option ℕ)
  | sendfile (fd : ℕ) (count : ℕ) (result : Option ℕ)
  | close (fd : ℕ)
deriving DecidableEq

/-! ## Reading -/

/-- The index of the byte after the next token, which `strtok` overwrites with a NUL. -/
def tokenEnd (delim s : List UInt8) : ℕ :=
  (s.takeWhile (· ∈ delim)).length +
    ((s.dropWhile (· ∈ delim)).takeWhile (· ∉ delim)).length

/-- `parse_request`: the URL, of which it returns the length, and the indices of the string at which
`strtok` puts a NUL. -/
def parseRequest (inputString : List UInt8) : List UInt8 × List ℕ :=
  match strtok [32] inputString with
  | none => ([], [])
  | some (_, rest) =>
    let first := tokenEnd [32] inputString
    match strtok [32] rest with
    | none => ([], [first])
    | some (token, _) =>
      (strncpy (token.drop 1) (strlenmax - 1), [first, first + 1 + tokenEnd [32] rest])

/-- The end of `do_read`, when a request is there and the last `recv` has returned `res`. -/
def storeRequest (ep : EpData) (res : ℕ) : EpData :=
  let ep := { ep.cut res with inSize := res }
  let (url, cuts) := parseRequest (CString.ofBytes ep.memory)
  { cuts.foldl EpData.cut ep with url := url, urlLen := url.length }

/-- The text `"\r\n\r\n"`. -/
def crlfcrlf : List UInt8 := [13, 10, 13, 10]

/-- `do_read`, if these are the answers to its calls of `recv`: the record afterwards and what has
been done, or `none` if it calls `recv` more or less often. -/
def doRead (ep : EpData) : List RecvResult → Option (EpData × List Act)
  | [] => none
  | .error :: rest => if rest = [] then some (ep, [.recv ep.sockfd .error]) else none
  | .data bytes :: rest =>
    let ep := { ep with inBuf := ep.inBuf.write bytes }
    if crlfcrlf <:+: CString.ofBytes ep.memory then
      let stored := storeRequest ep bytes.length
      if rest = [] then
        some (stored, [.recv ep.sockfd (.data bytes), .request ep.sockfd stored.url])
      else none
    else (doRead ep rest).map fun (ep', acts) => (ep', .recv ep.sockfd (.data bytes) :: acts)

/-! ## The accesses to `in_buf` -/

/-- An access of `do_read` to `in_buf`. -/
inductive Access where
  /-- `recv`, `strtok` or an assignment writes a byte. -/
  | write (i : ℕ)
  /-- A string is read up to this byte; `none` if it does not end in `in_buf` and `out_buf`. -/
  | scan (last : Option ℕ)
deriving DecidableEq

/-- What `parse_request` accesses. `strtok` reads up to the second NUL that it puts, or to the end
of the string if there is no second token. -/
def parseAccesses (inputString : List UInt8) : List Access :=
  match (parseRequest inputString).2 with
  | [first, second] => [.scan (some second), .write first, .write second]
  | cuts => .scan (some inputString.length) :: cuts.map .write

/-- What `do_read` accesses if these are the answers to its first calls of `recv`. -/
def doReadAccesses (ep : EpData) : List RecvResult → List Access
  | [] => []
  | .error :: _ => []
  | .data bytes :: rest =>
    let ep := { ep with inBuf := ep.inBuf.write bytes }
    (List.range bytes.length).map .write ++ .scan (CString.strstrLast crlfcrlf ep.memory) ::
      if crlfcrlf <:+: CString.ofBytes ep.memory then
        .write bytes.length :: parseAccesses (CString.ofBytes (ep.cut bytes.length).memory)
      else doReadAccesses ep rest

/-! ## Writing -/

/-- The response with the status 403. -/
def forbidden (url : List UInt8) (urlLen : ℕ) : List UInt8 :=
  ascii "HTTP/1.1 403 Forbidden\r\nContent-Length: " ++ ascii (toString (146 + urlLen)) ++
    ascii ("\r\nConnection: close\r\nContent-Type: text/html\r\n\r\n" ++
      "<html><head><title>403 Forbidden</title></head><body><h1>Forbidden</h1>" ++
      "<p>You don't have permission to access /") ++ url ++
    ascii " on this server!</p></body></html>\n"

/-- The response with the status 404. -/
def notFound : List UInt8 :=
  ascii ("HTTP/1.1 404 Not Found\r\nContent-Length: 133\r\nConnection: close\r\n" ++
    "Content-Type: text/html\r\n\r\n<html><head><title>404 Not Found</title></head><body>" ++
    "<h1>Not Found</h1>The requested URL was not found on this server.</body></html>\n")

/-- The header with the status 200. -/
def okHeader (size : ℕ) : List UInt8 :=
  ascii "HTTP/1.1 200 OK\r\nServer: chttp\r\nContent-Length: " ++ ascii (toString size) ++
    ascii "\r\nConnection: close\r\nContent-Type: text/html\r\n\r\n"

/-- The text is printed to `out_buf`, of which `snprintf` uses `limit` bytes at most, one for the
NUL, and its length is stored. -/
def EpData.print (ep : EpData) (limit : ℕ) (text : List UInt8) : EpData where
  sockfd := ep.sockfd
  inBuf := ep.inBuf
  outBuf := (ep.outBuf.write (text.take (limit - 1) ++ [0])).set text.length 0
  inSize := ep.inSize
  outSize := text.length
  url := ep.url
  urlLen := ep.urlLen

/-- `send(sockfd, out_buf, out_size, 0)`. -/
def EpData.sendOut (ep : EpData) (result : Option ℕ) : Act :=
  .send ep.sockfd ep.url (ep.outBuf.bytes.take ep.outSize) result

/-- `do_write`. -/
def doWrite (ep : EpData) (answers : Answers) : EpData × List Act :=
  if ep.urlLen ≠ 0 then
    let access := Act.access ep.url answers.access
    if answers.access = .eacces then
      let ep := ep.print (bufsize - 1) (forbidden ep.url ep.urlLen)
      (ep, [access, ep.sendOut answers.send])
    else
      let openFile := Act.openFile ep.url answers.file
      match answers.file with
      | none =>
        let ep := ep.print (bufsize - 1) notFound
        (ep, [access, openFile, ep.sendOut answers.send])
      | some size =>
        let ep := ep.print bufsize (okHeader size)
        if answers.send = none then (ep, [access, openFile, ep.sendOut none])
        else (ep, [access, openFile, ep.sendOut answers.send,
          .sendfile ep.sockfd size answers.sendfile])
  else (ep, [])

/-! ## The loop of `main` -/

/-- The bits of an event that `main` looks at, apart from `EPOLLRDHUP`, which it only reports. -/
structure Mask where
  /-- `EPOLLIN`. -/
  input : Bool
  /-- `EPOLLOUT`. -/
  output : Bool
deriving DecidableEq

/-- An event that `epoll_wait` delivers. -/
inductive Event where
  | listen
  /-- Of the connection with this descriptor. -/
  | conn (fd : ℕ) (mask : Mask)
deriving DecidableEq

/-- The event of a connection is handled: the record afterwards, what has been done, and the
descriptor that has been closed. -/
def handleEvent (ep : EpData) (mask : Mask) (results : List RecvResult) (answers : Answers) :
    Option (EpData × List Act × Option ℕ) := do
  let (ep, acts) ← if mask.input then doRead ep results else some (ep, [])
  let (ep, acts') := if mask.output then doWrite ep answers else (ep, [])
  if ep.outSize ≠ 0 then
    return (.zero, acts ++ acts' ++ [.close ep.sockfd], some ep.sockfd)
  else return (ep, acts ++ acts', none)

/-- The state of the server between two events. -/
structure Server where
  /-- `conn_data`, to which the events of all connections point. -/
  connData : EpData
  eventsCount : ℤ
  /-- The events of the last `epoll_wait` that are still to be handled. -/
  batch : List Event
  /-- The descriptors of the connections that are open and watched by the kernel. -/
  registered : List ℕ

/-- Before the first `epoll_wait`. -/
def Server.init : Server := ⟨.zero, 1, [], []⟩

/-- A new connection gets the record; `added` tells whether `epoll_ctl` succeeds. -/
def acceptConn (s : Server) (rest : List Event) (fd : ℕ) (added : Bool) : Server where
  connData := { s.connData with sockfd := fd }
  eventsCount := if added then s.eventsCount + 1 else s.eventsCount
  batch := rest
  registered := if added then fd :: s.registered else s.registered

/-- The state after an event of a connection. -/
def afterEvent (s : Server) (rest : List Event) (connData : EpData) : Option ℕ → Server
  | none => ⟨connData, s.eventsCount, rest, s.registered⟩
  | some fd => ⟨connData, s.eventsCount - 1, rest, s.registered.erase fd⟩

/-- What happens in a step. -/
inductive Label where
  /-- `epoll_wait` returns these events. -/
  | wait (batch : List Event)
  /-- `accept` fails, or there are too many connections and the new one is closed at once. -/
  | refuse
  /-- A connection is accepted. -/
  | accept (fd : ℕ) (added : Bool)
  /-- An event of the connection with the descriptor `fd` is handled. -/
  | handle (fd : ℕ) (acts : List Act)

/-- One step of the loop of `main`. -/
inductive Step : Server → Label → Server → Prop where
  /-- Each open connection has one event at most. -/
  | wait {s : Server} {batch : List Event} (hidle : s.batch = [])
      (hopen : ∀ fd mask, .conn fd mask ∈ batch → fd ∈ s.registered)
      (honce : batch.Pairwise fun e e' =>
        ∀ fd mask mask', e = .conn fd mask → e' ≠ .conn fd mask') :
      Step s (.wait batch) { s with batch := batch }
  | refuse {s : Server} {rest : List Event} (hbatch : s.batch = .listen :: rest) :
      Step s .refuse { s with batch := rest }
  /-- The kernel chooses a descriptor that is not in use. -/
  | accept {s : Server} {rest : List Event} {fd : ℕ} {added : Bool}
      (hbatch : s.batch = .listen :: rest) (hnew : fd ∉ s.registered)
      (hroom : s.eventsCount ≠ maxEpollEvents - 1) :
      Step s (.accept fd added) (acceptConn s rest fd added)
  | handle {s : Server} {rest : List Event} {fd : ℕ} {mask : Mask} {results : List RecvResult}
      {answers : Answers} {connData : EpData} {acts : List Act} {closed : Option ℕ}
      (hbatch : s.batch = .conn fd mask :: rest)
      (hevent : handleEvent s.connData mask results answers = some (connData, acts, closed)) :
      Step s (.handle fd acts) (afterEvent s rest connData closed)

end CDevHws.Hw27
