import SpaceCube.Wire.HttpRequest

/- What the limit on the size of a head comes to. The count takes three bytes for the end of each
   line, which has two, and three more for every read that leaves the head unfinished. -/
namespace HeadSize
open MachineWord TextSearch HttpParser HttpRequest Masking
open ClosingHandshake (asciiBytes)

def counted (lines : List (List Byte)) : Nat :=
  (lines.map (·.length + sizeofHeaderDelimiter)).sum

variable {lines : List (List Byte)} {s q : Request} {n fuel : Nat}
  {buf range found held rest : List Byte}

end HeadSize
