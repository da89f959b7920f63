import CDevHws.Hw08.Parson

/-!
# Comments in JSON (`parson.c`)

`json_parse_string_with_comments` writes blanks over the comments in a copy of the string, and
parses the copy.
-/

namespace CDevHws.Hw08

/-- `strstr`: where the first occurrence of a token begins. -/
def strstr (string token : List UInt8) : Option ℕ :=
  (List.range (string.length + 1)).find? fun i => token <+: string.drop i

/-- `n` blanks. -/
def blanks (n : ℕ) : List UInt8 := List.replicate n 32

/-- The loop of `remove_comments`: what it leaves of the string. `startToken` is not empty. -/
def removeCommentsLoop (startToken endToken : List UInt8) (inString escaped : Bool) :
    List UInt8 → List UInt8
  | [] => []
  | c :: string =>
    if c = 92 ∧ escaped = false then
      c :: removeCommentsLoop startToken endToken inString true string
    else if c = 34 ∧ escaped = false then
      c :: removeCommentsLoop startToken endToken (!inString) false string
    else if inString = false ∧ startToken <+: c :: string then
      -- behind the start token, whose first byte is `c`
      let comment := string.drop (startToken.length - 1)
      match strstr comment endToken with
      | none => blanks startToken.length ++ comment
      | some ptr =>
        blanks startToken.length ++ blanks (ptr + endToken.length) ++
          removeCommentsLoop startToken endToken inString false
            (comment.drop (ptr + endToken.length))
    else c :: removeCommentsLoop startToken endToken inString false string
termination_by string => string.length
decreasing_by
  · simp
  · simp
  · simp only [List.length_drop, List.length_cons]
    omega
  · simp

/-- `remove_comments`. -/
def removeComments (startToken endToken string : List UInt8) : List UInt8 :=
  if startToken.length = 0 ∨ endToken.length = 0 then string
  else removeCommentsLoop startToken endToken false false string

variable {N : Type}

/-- `json_parse_string_with_comments`. -/
def jsonParseStringWithComments (format : NumberFormat N) (string : List UInt8) :
    Option (JsonValue N) :=
  let stringMutableCopy := CString.ofBytes string
  let stringMutableCopy := removeComments (bytes "/*") (bytes "*/") stringMutableCopy
  let stringMutableCopy := removeComments (bytes "//") (bytes "\n") stringMutableCopy
  (parseValue format (maxNesting + 1) stringMutableCopy).map Prod.fst

/-- A byte that may stand in a number: not a quote, a backslash, a slash or a blank. -/
def inNumber (c : UInt8) : Bool := c != 34 && c != 92 && c != 47 && c != 32

/-- On a text that begins with a digit or a minus, `strtod` reads nothing but bytes that may stand
in a number, and takes no notice of what follows them. -/
structure NumberFormat.ReadsNumbers (format : NumberFormat N) : Prop where
  ahead : ∀ c s, c = 45 ∨ CString.isdigit c →
    format.strtod (c :: s) = format.strtod ((c :: s).takeWhile inNumber)
  inside : ∀ c s number read, c = 45 ∨ CString.isdigit c →
    format.strtod (c :: s) = some (number, read) → read ≤ ((c :: s).takeWhile inNumber).length

/-- What may stand between `//` and the end of the line: no quotes, no backslashes and no start of
the other kind of comment, which is looked for first. -/
structure LineComment (body : List UInt8) : Prop where
  no_quote : 34 ∉ body
  no_backslash : 92 ∉ body
  no_newline : 10 ∉ body
  no_block : ¬ bytes "/*" <:+: bytes "//" ++ body

/-- A text and the same text with blanks over its comments. -/
inductive Blanked : List UInt8 → List UInt8 → Prop
  | nil : Blanked [] []
  | plain {c : UInt8} {s t : List UInt8} (h34 : c ≠ 34) (h92 : c ≠ 92) (h47 : c ≠ 47)
      (h : Blanked s t) : Blanked (c :: s) (c :: t)
  | quoted {body s t : List UInt8} (hbody : Quoted body) (h : Blanked s t) :
      Blanked (34 :: (body ++ 34 :: s)) (34 :: (body ++ 34 :: t))
  | block {body s t : List UInt8} (hbody : ¬ bytes "*/" <:+: body) (h : Blanked s t) :
      Blanked (bytes "/*" ++ body ++ bytes "*/" ++ s) (blanks (body.length + 4) ++ t)
  | line {body s t : List UInt8} (hbody : LineComment body) (h : Blanked s t) :
      Blanked (bytes "//" ++ body ++ bytes "\n" ++ s) (blanks (body.length + 3) ++ t)

end CDevHws.Hw08
