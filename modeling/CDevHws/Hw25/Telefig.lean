import Mathlib.Algebra.Group.Nat.Defs

/-!
# Figlets from a server (`telefig.c`)

The program sends a command to a server, receives the response until nothing comes any more, and
prints what is behind the echo of the command. The answers of the kernel are parameters; strings are
lists of bytes.
-/

namespace CDevHws.Hw25

/-- `BUF_SIZE`. -/
abbrev bufSize : ℕ := 5000

/-- The bytes of a text. -/
def bytesOf (s : String) : List UInt8 := s.toList.map fun c => UInt8.ofNat c.toNat

/-- The string `command`, for the arguments of the program. -/
def command (font text : List UInt8) : List UInt8 :=
  bytesOf "figlet /" ++ font ++ bytesOf " " ++ text ++ bytesOf "\r\n"

/-! ## Receiving -/

/-- The results of the second loop of `recv`, before the one that is not positive: the bytes that
have come together. -/
structure Response where
  chunks : List (List UInt8)
  chunks_ne_nil : ∀ chunk ∈ chunks, chunk ≠ []
  /-- `recv` never gets more than there is room for. -/
  fits : chunks.flatten.length ≤ bufSize

/-- `buf` and `len`. -/
structure Received where
  buf : List UInt8
  len : UInt64

/-- `recv(sockfd, &buf[len], BUF_SIZE - len, 0)`, and the addition to `len`. -/
def recv (r : Received) (chunk : List UInt8) : Received where
  buf := r.buf.take r.len.toNat ++ chunk ++ r.buf.drop (r.len.toNat + chunk.length)
  len := r.len + UInt64.ofNat chunk.length

/-- The second loop of `recv`; before it, `buf` is cleared. -/
def receive (response : Response) : Received :=
  response.chunks.foldl recv ⟨List.replicate bufSize 0, 0⟩

/-! ## Printing -/

/-- The loop that prints, as far as the fuel goes: the indices, and the bytes there, `none` for an
index outside of `buf`. -/
def printFrom (r : Received) : ℕ → UInt64 → List (UInt64 × Option UInt8)
  | 0, _ => []
  | fuel + 1, i =>
    if i < r.len - 1 then (i, r.buf[i.toNat]?) :: printFrom r fuel (i + 1) else []

/-- `main` after the connection: `none` if the command cannot be sent, else what the loop that
prints reads in its first rounds. `sent` is what `send` returns. -/
def telefig (font text : List UInt8) (sent : ℤ) (response : Response) (fuel : ℕ) :
    Option (List (UInt64 × Option UInt8)) :=
  if sent ≠ (command font text).length then none
  else some (printFrom (receive response) fuel (UInt64.ofNat (command font text).length))

end CDevHws.Hw25
