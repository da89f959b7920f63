import CDevHws.Lib.CString
import CDevHws.Lib.Stdio

/-!
# The search for archives in images (`zipjpeg_test.c`)

The program run on a file that can be opened. Its output on stdout is a list of messages; what it
writes to stderr is left out.
-/

namespace CDevHws.Hw03

open Stdio

/-- `LOCAL_FILE_HEADER` of `enum zip_record`. -/
abbrev localFileHeader : ℤ := 0

/-- `END_OF_CENTRAL_DIRECTORY` of `enum zip_record`. -/
abbrev endOfCentralDirectory : ℤ := 1

/-- `EXIT_SUCCESS`. -/
abbrev exitSuccess : ℤ := 0

/-- `EXIT_FAILURE`. -/
abbrev exitFailure : ℤ := 1

/-- `MAX_FILENAME_LENGTH`. -/
abbrev maxFilenameLength : ℕ := 256

/-- `LOCAL_HEADER_SKIP_BYTES`. -/
abbrev localHeaderSkipBytes : ℕ := 22

/-- `jpeg_header`. -/
def jpegHeader : List UInt8 := [0xFF, 0xD8]

/-- `jpeg_end`. -/
def jpegEnd : List UInt8 := [0xFF, 0xD9]

/-- `zip_header`. -/
def zipHeader : List UInt8 := [0x50, 0x4B]

/-- The loop of `signature_search` over the bytes that `fgetc` returns: whether it finds the
signature, and the number of bytes that it has read. -/
def searchLoop (signature : List UInt8) (length : ℕ) : ℕ → List UInt8 → Bool × ℕ
  | _, [] => (false, 0)
  | pos, c :: rest =>
    let pos := if signature[pos]? = some c then pos + 1 else 0
    if pos = length then (true, 1)
    else
      let (found, n) := searchLoop signature length pos rest
      (found, n + 1)

/-- `signature_search`. If it does not find the signature, `fgetc` has returned `EOF`. -/
def signatureSearch (f : File) (signature : List UInt8) (length : ℕ) : Bool × File :=
  let (found, n) := searchLoop signature length 0 f.rest
  (found, { f with pos := f.pos + n, eof := f.eof || !found })

/-- `check_zip_header`. -/
def checkZipHeader (f : File) : ℤ × File :=
  let (buf, f) := fread 2 f
  if buf.length < 2 then (exitFailure, f)
  else if buf = [0x03, 0x04] then (localFileHeader, f)
  else if buf = [0x05, 0x06] then (endOfCentralDirectory, f)
  else (exitFailure, (fseek (-2) f).2)

/-- The `uint16_t` with these two bytes in memory. -/
def uint16 (bytes : List UInt8) : ℕ := (bytes.getD 0 0).toNat + 256 * (bytes.getD 1 0).toNat

/-- `get_filename`: the bytes that it puts into `fname`, or `none` if it fails. -/
def getFilename (f : File) : Option (List UInt8) × File :=
  let (_, f) := fseek localHeaderSkipBytes f
  let (size, f) := fread 2 f
  if size.length < 2 then (none, f)
  else
    let size := if uint16 size ≥ maxFilenameLength then maxFilenameLength - 1 else uint16 size
    let (failed, f) := fseek 2 f
    if failed ≠ 0 then (none, f)
    else
      let (name, f) := fread size f
      if name.length < size then (none, f) else (some (name ++ [0]), f)

/-- What the program prints. -/
inductive Message where
  /-- "Opened file ..., starting analyze..." -/
  | opened
  /-- "JPEG signature detected! Trying to reach end..." -/
  | jpegFound
  /-- "JPEG end signature detected!" -/
  | jpegEnded
  /-- "JPEG file end not detected! Possibly broken image, exiting..." -/
  | jpegBroken
  /-- "Hmm, JPEG header not found, maybe simple archive?.." -/
  | noJpeg
  /-- "Begin archive signature search." -/
  | begin
  /-- "Found ZIP with file ..." -/
  | foundFile (name : List UInt8)
  /-- "ZIP file end (EOCD  record) found." -/
  | eocdFound
deriving DecidableEq

/-- The loop of `main`: what it prints, and the stream when it ends; `none` if it has not ended. -/
def scanLoop : ℕ → File → Option (List Message × File)
  | 0, _ => none
  | fuel + 1, f =>
    if f.eof then some ([], f)
    else
      let (found, f) := signatureSearch f zipHeader 2
      if found then
        let (record, f) := checkZipHeader f
        if record = localFileHeader then
          let (fname, f) := getFilename f
          match fname with
          | some fname => (scanLoop fuel f).map fun (messages, f) =>
              (.foundFile (CString.ofBytes fname) :: messages, f)
          | none => scanLoop fuel f
        else if record = endOfCentralDirectory then some ([.eocdFound], f)
        else scanLoop fuel f
      else some ([], f)

/-- How the program ends. -/
structure Outcome where
  messages : List Message
  status : ℤ
  /-- The stream when it is closed. -/
  file : File

/-- `main` for a file with this content. Every round of the loop but the last one reads some bytes,
so that there cannot be more rounds than the fuel allows. -/
def zipjpegTest (content : List UInt8) : Option Outcome :=
  let f := fopen content
  let fuel := content.length + 1
  let (found, f) := signatureSearch f jpegHeader 2
  if found then
    let (ended, f) := signatureSearch f jpegEnd 2
    if ended then
      (scanLoop fuel f).map fun (messages, f) =>
        ⟨[.opened, .jpegFound, .jpegEnded, .begin] ++ messages, exitSuccess, f⟩
    else some ⟨[.opened, .jpegFound, .jpegBroken], exitFailure, f⟩
  else
    (scanLoop fuel (rewind f)).map fun (messages, f) =>
      ⟨[.opened, .noJpeg, .begin] ++ messages, exitSuccess, f⟩

end CDevHws.Hw03
