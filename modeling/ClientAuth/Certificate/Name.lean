import ClientAuth.Der.Oid
import ClientAuth.Text.Utf8

/-!
# Distinguished names

A name is a row of sets of attributes. Within a set the attributes count in the order of their encodings, whatever
order they are written in. `Name.fields` lists them under short or dotted keys and `Name.render` writes them as text.
-/

namespace ClientAuth

open Der (Element Oid)

/-- One attribute of a name: its type, the octets of its value, and its whole encoding. -/
structure Attribute where
  type : Oid
  value : Bytes
  encoding : Bytes
  deriving DecidableEq, Repr

namespace Attribute

/-- The type of common names. -/
def commonName : Oid := .ofArcs 2 5 [4, 3]

/-- The types that are written by a short key. -/
def shortKeys : List (Oid × String) :=
  [(commonName, "CN"),
   (.ofArcs 2 5 [4, 5], "SERIALNUMBER"),
   (.ofArcs 2 5 [4, 6], "C"),
   (.ofArcs 2 5 [4, 7], "L"),
   (.ofArcs 2 5 [4, 8], "ST"),
   (.ofArcs 2 5 [4, 10], "O"),
   (.ofArcs 2 5 [4, 11], "OU"),
   (.ofArcs 0 9 [2342, 19200300, 100, 1, 1], "UID"),
   (.ofArcs 0 9 [2342, 19200300, 100, 1, 25], "DC"),
   (.ofArcs 1 2 [840, 113549, 1, 9, 1], "E")]

/-- The key of a type: its short key, or its arcs with dots. -/
def keyOf (type : Oid) : String :=
  (shortKeys.lookup type).getD type.dotted

/-- The key of an attribute. -/
def key (a : Attribute) : String := keyOf a.type

/-- The value of an attribute as text, whatever string type it was written in. -/
def text (a : Attribute) : String := Utf8.decodeLossy a.value

/-- Reads an attribute: a type, and a value of any one type. -/
def ofElement? (e : Element) : Option Attribute := do
  match ← e.children? Der.Tag.sequence with
  | [type, value] => return { type := ← Oid.ofElement? type, value := value.content, encoding := e.encode }
  | _ => none

end Attribute

/-- A set of attributes, in the order in which they are written. -/
structure AttributeSet where
  written : List Attribute
  deriving DecidableEq, Repr

namespace AttributeSet

/-- Whether one attribute's encoding comes before another's, or is the same. -/
def precedes (a b : Attribute) : Bool := !(decide (b.encoding < a.encoding))

/-- The attributes in the order in which they count: that of their encodings. -/
def ordered (s : AttributeSet) : List Attribute := s.written.mergeSort precedes

/-- Reads a set; an attribute may not be written twice. -/
def ofElement? (e : Element) : Option AttributeSet := do
  let attributes ← (← e.children? Der.Tag.set).mapM Attribute.ofElement?
  if (attributes.map (·.encoding)).Nodup then return ⟨attributes⟩ else none

end AttributeSet

/-- A distinguished name. -/
structure Name where
  sets : List AttributeSet
  deriving DecidableEq, Repr

namespace Name

/-- Reads a name. -/
def ofElement? (e : Element) : Option Name := do
  return ⟨← (← e.children? Der.Tag.sequence).mapM AttributeSet.ofElement?⟩

/-- All attributes in the order in which they count. -/
def attributes (n : Name) : List Attribute := n.sets.flatMap (·.ordered)

/-- All attributes in the order in which they are written. -/
def written (n : Name) : List Attribute := n.sets.flatMap (·.written)

/-- The keys and values of a name. -/
def fields (n : Name) : List (String × String) := n.attributes.map fun a => (a.key, a.text)

/-- The value of the first common name. -/
def commonName? (n : Name) : Option String :=
  (n.attributes.find? (·.type == Attribute.commonName)).map (·.text)

/-- One field as text. -/
def renderField (field : String × String) : String := s!"{field.1}={field.2}"

/-- The fields of a name as text, with commas between them. -/
def render (n : Name) : String := ", ".intercalate (n.fields.map renderField)

end Name

end ClientAuth
