import ClientAuth.Certificate.Basic
import ClientAuth.Report
import ClientAuth.Text.Pem

/-!
# Certificates as text

A certificate is handed over as PEM, or as base64 of its DER form with line breaks anywhere. `Certificate.decode` reads
either, `Certificate.toPem` writes the first.
-/

namespace ClientAuth.Certificate

/-- Why there is no certificate. -/
inductive Error where
  /-- No certificate was given. -/
  | absent
  /-- An empty text was given. -/
  | emptyText
  /-- No octets were given, or the text held none. -/
  | emptyBytes
  /-- The text is not base64. -/
  | base64 (cause : Base64.Error)
  /-- The text is not PEM, though it starts like it. -/
  | pem (cause : Pem.Error)
  /-- The armour holds something else. -/
  | unexpectedTag (tag : String)
  /-- The octets are not a certificate. -/
  | der
  deriving DecidableEq, Repr

/-- Why there is no certificate, as it is reported. -/
def Error.reported : Error → CertificateReport
  | absent => .invalidArgument "certificate is absent"
  | emptyText => .invalidArgument "encoded certificate is empty"
  | emptyBytes => .invalidArgument "certificate bytes are empty"
  | base64 cause => .decode (.base64 (.root cause.message))
  | pem cause => .decode (.pem cause.chain)
  | unexpectedTag tag => .decode (.unexpectedTag tag)
  | der => .decode (.der (.root none))

/-- What is said when there is no certificate, and about the cause. -/
def Error.chain (e : Error) : CauseChain := e.reported.chain

/-- The tag that armours a certificate. -/
def pemTag : String := "CERTIFICATE"

/-- How armoured text starts. -/
def armourStart : List Char := "-----BEGIN".toList

/-- Reads DER octets. -/
def fromDer (der : Bytes) : Except Error Certificate :=
  if der.isEmpty then .error .emptyBytes
  else
    match ofDer? der with
    | some c => .ok c
    | none => .error .der

/-- Reads a text: PEM if it starts like it, else base64 in which blanks do not count. -/
def decode (s : String) : Except Error Certificate := do
  let s := Text.trimChars s.toList
  if s.isEmpty then throw .emptyText
  if armourStart.isPrefixOf s then
    let document ← (Pem.decode (String.ofList s)).mapError .pem
    if document.tag ≠ pemTag then throw (.unexpectedTag document.tag)
    fromDer document.contents
  else
    let compact := String.ofList (s.filter (!Text.isAsciiBlank ·))
    fromDer (← (Base64.decode Base64.standard compact).mapError .base64)

/-- A certificate in PEM armour. -/
def toPem (c : Certificate) : String := Pem.encode pemTag c.der

end ClientAuth.Certificate
