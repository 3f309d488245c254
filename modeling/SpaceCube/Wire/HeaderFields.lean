import SpaceCube.Wire.HeadSize

/- What the lines of a head come to: the three parts of the request line, and for every name,
   however it is spelled, the values of its lines. -/
namespace HeaderFields
open MachineWord OrderedMap TextSearch HttpParser HttpRequest HeadSize Masking
open ClosingHandshake (asciiBytes)

/-- A header line. Around its value there may be white space. -/
structure Field where
  name : List Byte
  text : List Byte

def Field.line (f : Field) : List Byte := f.name ++ (headerSeparator ++ f.text)

structure Field.Proper (f : Field) : Prop where
  named : f.name ≠ []
  token : ∀ c ∈ f.name, isNotTokenChar c = false
  plain : ∀ c ∈ f.text, bytesEqual c 0x0D = false

def sameName (k k' : List Byte) : Bool := !ciLess k k' && !ciLess k' k

/-- A value that is there already is continued, an empty one is not. -/
def joinValue (old val : List Byte) : List Byte :=
  if old.isEmpty then val else old ++ asciiBytes ", " ++ val

def joined (key : List Byte) (fields : List Field) : List Byte :=
  (fields.filter fun f => sameName f.name key).foldl
    (fun old f => joinValue old (stripLws f.text)) []

structure RequestLine where
  method : List Byte
  uri : List Byte
  version : List Byte

def RequestLine.line (l : RequestLine) : List Byte :=
  l.method ++ ([0x20] ++ (l.uri ++ ([0x20] ++ l.version)))

structure RequestLine.Proper (l : RequestLine) : Prop where
  named : l.method ≠ []
  token : ∀ c ∈ l.method, isNotTokenChar c = false
  uri : ∀ c ∈ l.uri, bytesEqual c 0x20 = false ∧ bytesEqual c 0x0D = false
  version : ∀ c ∈ l.version, bytesEqual c 0x0D = false

end HeaderFields
