import ClientAuth.Text.Base64
import ClientAuth.Text.Blank
import ClientAuth.Text.Pieces
import ClientAuth.Wording

/-!
# PEM armour

A PEM document frames base64 text between a `BEGIN` and an `END` line that name the same tag. `Pem.decode` reads the
first frame of a text and ignores what follows it; `Pem.encode` writes lines of 64 symbols, each ended by a carriage
return and a line feed.
-/

namespace ClientAuth.Pem

/-- What a frame holds. -/
structure Document where
  tag : String
  contents : Bytes
  deriving DecidableEq, Repr

/-- Why a text is not a PEM document. -/
inductive Error where
  | malformedFraming
  | missingBeginTag
  | missingEndTag
  | mismatchedTags (opening closing : String)
  | invalidData (cause : Base64.Error)
  | invalidHeader (line : String)
  deriving DecidableEq, Repr

/-- What is said about a text that is not a PEM document, and about the cause. -/
def Error.chain : Error → CauseChain
  | malformedFraming => .root "malformedframing"
  | missingBeginTag => .root "missing BEGIN tag"
  | missingEndTag => .root "missing END tag"
  | mismatchedTags opening closing => .root s!"mismatching BEGIN (\"{opening}\") and END (\"{closing}\") tags"
  | invalidData cause => .under s!"invalid data: {cause.message}" (.root cause.message)
  | invalidHeader line => .root s!"invalid header: {line}"

/-- Searches a marker of which `found` characters have just been seen and gives what stands before and after it. A
character that does not continue the marker starts the search over behind it, so a marker that begins within a failed
attempt is missed. -/
def searchFrom (marker : List Char) : (found : List Char) → (pending : List Char) → List Char →
    Option (List Char × List Char)
  | _, [], rest => some ([], rest)
  | _, _ :: _, [] => none
  | found, m :: pending, c :: rest =>
    if c = m then searchFrom marker (found ++ [c]) pending rest
    else (searchFrom marker [] marker rest).map fun cut => (found ++ c :: cut.1, cut.2)

/-- What stands before and after a marker. -/
def search (marker : String) (s : List Char) : Option (List Char × List Char) :=
  searchFrom marker.toList [] marker.toList s

/-- Spaces, tabs and line ends. -/
def isFrameBlank (c : Char) : Bool := c == ' ' || c == '\t' || c == '\n' || c == '\r'

/-- The parts of a frame as they stand in the text. -/
structure Frame where
  opening : List Char
  payload : List Char
  closing : List Char

/-- The first frame of a text. -/
def frame? (s : List Char) : Option Frame := do
  let (_, s) ← search "-----BEGIN " s
  let (opening, s) ← search "-----" s
  let (payload, s) ← search "-----END " (s.dropWhile isFrameBlank)
  let (closing, _) ← search "-----" s
  return { opening, payload, closing }

/-- The headers and the data of a payload; they are parted by the first empty line. -/
def split (payload : List Char) : List Char × List Char :=
  match search "\n\n" payload with
  | some cut => cut
  | none =>
    match search "\r\n\r\n" payload with
    | some cut => cut
    | none => ([], payload)

/-- A line without the carriage return that belongs to the line feed after it. -/
def dropReturn (line : List Char) : List Char :=
  if line.getLast? = some '\r' then line.dropLast else line

/-- The lines of a text. The line feed that ends the last line is optional. -/
def lines (s : List Char) : List (List Char) :=
  let all := Text.pieces '\n' s
  let last := all.getLastD []
  all.dropLast.map dropReturn ++ if last.isEmpty then [] else [last]

/-- Reads the first frame of a text. -/
def decode (s : String) : Except Error Document := do
  let some f := frame? s.toList | throw .malformedFraming
  if f.opening.isEmpty then throw .missingBeginTag
  if f.closing.isEmpty then throw .missingEndTag
  if f.opening ≠ f.closing then throw (.mismatchedTags (String.ofList f.opening) (String.ofList f.closing))
  let (headers, data) := split f.payload
  let contents ← (Base64.decode Base64.standard (String.ofList (data.filter (!Text.isBlank ·)))).mapError .invalidData
  match (lines headers).find? (fun line => !line.contains ':') with
  | some line => throw (.invalidHeader (String.ofList line))
  | none => return { tag := String.ofList f.opening, contents }

/-- A line end. -/
def lineEnd : List Char := ['\r', '\n']

/-- Text in lines of `width` characters, each ended. -/
def wrap (width : Nat) (s : List Char) : List Char :=
  (chunks width s).flatMap (· ++ lineEnd)

/-- Writes a frame around octets. -/
def encode (tag : String) (contents : Bytes) : String :=
  String.ofList ("-----BEGIN ".toList ++ tag.toList ++ "-----".toList ++ lineEnd ++
    wrap 64 (Base64.encode Base64.standard contents).toList ++ "-----END ".toList ++ tag.toList ++ "-----".toList ++ lineEnd)

end ClientAuth.Pem
