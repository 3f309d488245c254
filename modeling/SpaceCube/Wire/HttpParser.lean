import SpaceCube.Library.OrderedMap
import SpaceCube.Library.TextSearch
import SpaceCube.Wire.ClosingHandshake

/- The parser that requests and responses share: header lines, the body that a header announces
   and the loop over the lines of a head, with the count of bytes that limits it. -/
namespace HttpParser
open MachineWord OrderedMap TextSearch
open ClosingHandshake (asciiBytes)

structure HttpException where
  msg : String
  errorCode : Nat
  deriving DecidableEq

def badRequest : Nat := 400
def requestEntityTooLarge : Nat := 413
def requestHeaderFieldsTooLarge : Nat := 431
def internalServerError : Nat := 500

def headerDelimiter : List Byte := [0x0D, 0x0A]
def headerSeparator : List Byte := [0x3A]

/-- The array of the source ends with a null character. -/
def sizeofHeaderDelimiter : Nat := 3

def maxHeaderSize : Nat := 16000
def maxBodySize : Nat := 32000000

/-- Of the characters from 128 on none is one of a token. -/
def headerToken : List Nat :=
  [0, 0, 0, 0, 0, 0, 0, 0, 0, 0, 0, 0, 0, 0, 0, 0,
    0, 0, 0, 0, 0, 0, 0, 0, 0, 0, 0, 0, 0, 0, 0, 0,
    0, 1, 0, 1, 1, 1, 1, 1, 0, 0, 1, 1, 0, 1, 1, 0,
    1, 1, 1, 1, 1, 1, 1, 1, 1, 1, 0, 0, 0, 0, 0, 0,
    0, 1, 1, 1, 1, 1, 1, 1, 1, 1, 1, 1, 1, 1, 1, 1,
    1, 1, 1, 1, 1, 1, 1, 1, 1, 1, 1, 0, 0, 0, 1, 1,
    1, 1, 1, 1, 1, 1, 1, 1, 1, 1, 1, 1, 1, 1, 1, 1,
    1, 1, 1, 1, 1, 1, 1, 1, 1, 1, 1, 0, 1, 0, 1, 0]

def isNotTokenChar (c : Byte) : Bool := headerToken.getD c.toNat 0 = 0

def isWhitespaceChar (c : Byte) : Bool := c = 9 || c = 32

/-- tolower of the C locale. -/
def toLower (c : Byte) : Nat := if 65 ≤ c.toNat ∧ c.toNat ≤ 90 then c.toNat + 32 else c.toNat

/-- lexicographical_compare with nocase_compare. -/
def ciLess : List Byte → List Byte → Bool
  | _, [] => false
  | [], _ :: _ => true
  | x :: xs, y :: ys =>
    if toLower x < toLower y then true
    else if toLower y < toLower x then false
    else ciLess xs ys

theorem ci_less_irrefl (k : List Byte) : ciLess k k = false := by
  induction k with
  | nil => rfl
  | cons x k ih => simp [ciLess, ih]

theorem ci_less_trans (a b c : List Byte) (first : ciLess a b = true)
    (second : ciLess b c = true) : ciLess a c = true := by
  induction a generalizing b c with
  | nil =>
    cases c with
    | nil => simp [ciLess] at second
    | cons z c => rfl
  | cons x a ih =>
    cases b with
    | nil => simp [ciLess] at first
    | cons y b =>
      cases c with
      | nil => simp [ciLess] at second
      | cons z c =>
        simp only [ciLess] at first second ⊢
        grind

theorem ci_less_between (a b c : List Byte) (apart : ciLess a b = true) :
    ciLess a c = true ∨ ciLess c b = true := by
  induction a generalizing b c with
  | nil =>
    cases c with
    | nil => exact Or.inr apart
    | cons z c => exact Or.inl rfl
  | cons x a ih =>
    cases b with
    | nil => simp [ciLess] at apart
    | cons y b =>
      cases c with
      | nil => exact Or.inr rfl
      | cons z c =>
        simp only [ciLess] at apart ⊢
        have further := ih b c
        grind

def ciOrder : Comparison (List Byte) := ⟨ciLess, ci_less_irrefl, ci_less_trans, ci_less_between⟩

abbrev HeaderList := Map ciOrder (List Byte)

inductive BodyEncoding where
  | unknown
  | plain
  | chunked
  deriving DecidableEq

structure Parser where
  version : List Byte
  headers : HeaderList
  headerBytes : Nat
  body : List Byte
  bodyBytesNeeded : Nat
  bodyBytesMax : Nat
  bodyEncoding : BodyEncoding

def Parser.initial : Parser := ⟨[], .empty _ _, 0, [], 0, maxBodySize, .unknown⟩

def Parser.getHeader (p : Parser) (key : List Byte) : List Byte := (p.headers.find key).getD []

def Parser.appendHeader (p : Parser) (key val : List Byte) : Except HttpException Parser :=
  if key.any isNotTokenChar then .error ⟨"Invalid header name", badRequest⟩
  else if (p.getHeader key).isEmpty then .ok { p with headers := p.headers.insert key val }
  else .ok
    { p with headers := p.headers.insert key (p.getHeader key ++ asciiBytes ", " ++ val) }

def extractLws : List Byte → List Byte
  | a :: b :: c :: rest =>
    if a = 0x0D ∧ b = 0x0A ∧ isWhitespaceChar c then rest.dropWhile isWhitespaceChar
    else (a :: b :: c :: rest).dropWhile isWhitespaceChar
  | xs => xs.dropWhile isWhitespaceChar

/-- A turn that goes on has taken a byte, so that a turn for each and one more are enough. -/
def extractAllLwsLoop : Nat → List Byte → List Byte
  | 0, xs => xs
  | fuel + 1, xs =>
    let next := extractLws xs
    if next ≠ [] ∧ next.length ≠ xs.length then extractAllLwsLoop fuel next else next

def extractAllLws (xs : List Byte) : List Byte := extractAllLwsLoop (xs.length + 1) xs

def stripLws (input : List Byte) : List Byte :=
  let front := extractAllLws input
  if front.isEmpty then []
  else
    let back := extractAllLws input.reverse
    if back.isEmpty then [] else front.take (front.length - (input.length - back.length))

def bytesEqual (x y : Byte) : Bool := x = y

def Parser.processHeader (p : Parser) (line : List Byte) : Except HttpException Parser :=
  match search bytesEqual headerSeparator line with
  | none => .error ⟨"Invalid header line", badRequest⟩
  | some (name, found) =>
    p.appendHeader (stripLws name) (stripLws (found.drop headerSeparator.length))

def isSpace (c : Byte) : Bool := c = 32 || (9 ≤ c.toNat && c.toNat ≤ 13)

def isDigit (c : Byte) : Bool := 48 ≤ c.toNat && c.toNat ≤ 57

def decimal (digits : List Byte) : Nat :=
  digits.foldl (fun n c => 10 * n + (c.toNat - 48)) 0

/-- strtoul in base 10 for an unsigned long of 64 bits: too large a number is the largest one,
    and a minus sign negates in it. -/
def strtoul (text : List Byte) : Nat :=
  let text := text.dropWhile isSpace
  let negative := text.head? = some 0x2D
  let digits := if negative ∨ text.head? = some 0x2B then text.tail else text
  let n := decimal (digits.takeWhile isDigit)
  if 2 ^ 64 ≤ n then 2 ^ 64 - 1 else if negative then (2 ^ 64 - n) % 2 ^ 64 else n

/-- Chunked bodies are not read: that branch of the source returns as the last one does. -/
def Parser.prepareBody (p : Parser) : Except HttpException (Parser × Bool) :=
  let length := p.getHeader (asciiBytes "Content-Length")
  if !length.isEmpty then
    if p.bodyBytesMax < strtoul length then
      .error ⟨"HTTP message body too large", requestEntityTooLarge⟩
    else .ok ({ p with bodyBytesNeeded := strtoul length, bodyEncoding := .plain }, true)
  else .ok (p, false)

/-- With the number of bytes that are taken. -/
def Parser.processBody (p : Parser) (buf : List Byte) : Except HttpException (Parser × Nat) :=
  if p.bodyEncoding = .plain then
    let processed := min p.bodyBytesNeeded buf.length
    .ok ({ p with
      body := p.body ++ buf.take processed
      bodyBytesNeeded := p.bodyBytesNeeded - processed }, processed)
  else .error ⟨"Unexpected body encoding", internalServerError⟩

def Parser.bodyReady (p : Parser) : Bool := p.bodyBytesNeeded = 0

/-- Where the loop over the lines stops: out of bytes, with what is left of them, or at a blank
    line, with the bytes from its end on. -/
inductive LoopEnd (σ : Type) where
  | outOfBytes (s : σ) (headerBytes : Nat) (buf : List Byte)
  | blankLine (s : σ) (headerBytes : Nat) (found : List Byte)

def headersTooLarge : HttpException :=
  ⟨"Maximum header size exceeded.", requestHeaderFieldsTooLarge⟩

/-- The loop in consume of a request and of a response; line is what is made of a line. Every
    search that is made adds to the bytes, also one that finds no end of a line. -/
def headLoop {σ : Type} (line : σ → List Byte → Except HttpException σ) :
    Nat → σ → Nat → List Byte → Except HttpException (LoopEnd σ)
  | 0, s, headerBytes, buf => .ok (.outOfBytes s headerBytes buf)
  | fuel + 1, s, headerBytes, buf =>
    let result := search bytesEqual headerDelimiter buf
    let range := (result.map Prod.fst).getD buf
    let headerBytes := headerBytes + range.length + sizeofHeaderDelimiter
    if maxHeaderSize < headerBytes then .error headersTooLarge
    else match result with
      | none => .ok (.outOfBytes s (headerBytes - buf.length) buf)
      | some (range, found) =>
        if range.isEmpty then .ok (.blankLine s headerBytes found)
        else match line s range with
          | .error e => .error e
          | .ok s => headLoop line fuel s headerBytes (found.drop headerDelimiter.length)

end HttpParser
