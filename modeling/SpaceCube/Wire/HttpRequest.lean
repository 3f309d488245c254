import SpaceCube.Library.HeadedReader
import SpaceCube.Wire.HttpParser
import SpaceCube.Wire.FrameMachine

/- The request that opens a connection, read piece by piece. How it is cut makes no difference,
   but for the limit on the size of its head, which counts the reads as well. -/
namespace HttpRequest
open MachineWord OrderedMap PiecewiseReader TextSearch HeadedReader HttpParser Masking
open ClosingHandshake (asciiBytes)
open FrameMachine (littleEndian64)

structure Request extends Parser where
  buf : List Byte
  method : List Byte
  uri : List Byte
  ready : Bool

def Request.initial : Request := ⟨.initial, [], [], [], false⟩

def Request.setMethod (r : Request) (method : List Byte) : Except HttpException Request :=
  if method.any isNotTokenChar then .error ⟨"Invalid method token.", badRequest⟩
  else .ok { r with method := method }

def Request.process (r : Request) (line : List Byte) : Except HttpException Request :=
  match search bytesEqual [0x20] line with
  | none => .error ⟨"Invalid request line1", badRequest⟩
  | some (method, found) =>
    match r.setMethod method with
    | .error e => .error e
    | .ok r =>
      match search bytesEqual [0x20] found.tail with
      | none => .error ⟨"Invalid request line2", badRequest⟩
      | some (uri, found) => .ok { r with uri := uri, version := found.tail }

/-- An empty method passes for none: the next line is a request line again. -/
def Request.line (r : Request) (range : List Byte) : Except HttpException Request :=
  if r.method.isEmpty then r.process range
  else (r.toParser.processHeader range).map fun p => { r with toParser := p }

def Request.takeBody (r : Request) (buf : List Byte) : Except HttpException (Request × Nat) :=
  (r.toParser.processBody buf).map fun (p, n) =>
    ({ r with toParser := p, ready := r.ready || p.bodyReady }, n)

def incompleteRequest : HttpException := ⟨"Incomplete Request", badRequest⟩

def Request.incomplete (r : Request) : Bool :=
  r.method.isEmpty || (r.getHeader (asciiBytes "Host")).isEmpty

/-- While the loop runs, m_buf and m_header_bytes are its own. -/
def Request.bare (r : Request) : Request := { r with buf := [], headerBytes := 0 }

/-- With the number of bytes processed. At a blank line it is computed in size_t, where taking
    found away may wrap and adding the delimiter then comes back. -/
def Request.consume (r : Request) (buf : List Byte) : Except HttpException (Request × Nat) :=
  if r.ready then .ok (r, 0)
  else if 0 < r.bodyBytesNeeded then r.takeBody buf
  else
    let text := r.buf ++ buf
    match headLoop Request.line (text.length + 1) r.bare r.headerBytes text with
    | .error e => .error e
    | .ok (.outOfBytes r headerBytes rest) =>
      .ok ({ r with headerBytes := headerBytes, buf := rest }, buf.length)
    | .ok (.blankLine r headerBytes found) =>
      if r.incomplete then .error incompleteRequest
      else
        let processed := buf.length + (sizeofHeaderDelimiter - 1) - found.length
        match r.toParser.prepareBody with
        | .error e => .error e
        | .ok (p, true) =>
          ({ r with toParser := { p with headerBytes := headerBytes } }.takeBody
            (buf.drop processed)).map fun (r, n) => (r, processed + n)
        | .ok (p, false) =>
          .ok ({ r with toParser := { p with headerBytes := headerBytes }, ready := true },
            processed)

/-- my_equal in the C locale. -/
def ciEqual (x y : Byte) : Bool := toLower x = toLower y

def ciFindSubstr (haystack needle : List Byte) : Bool := (search ciEqual needle haystack).isSome

def isWebsocketHandshake (r : Request) : Bool :=
  ciFindSubstr (r.getHeader (asciiBytes "Upgrade")) (asciiBytes "websocket") &&
    ciFindSubstr (r.getHeader (asciiBytes "Connection")) (asciiBytes "Upgrade")

/-- An int read from a stream, none where that fails. -/
def streamInt (text : List Byte) : Option Int :=
  let text := text.dropWhile isSpace
  let negative := text.head? = some 0x2D
  let digits :=
    (if negative ∨ text.head? = some 0x2B then text.tail else text).takeWhile isDigit
  let n : Int := if negative then -decimal digits else decimal digits
  if digits.isEmpty then none else if -2 ^ 31 ≤ n ∧ n < 2 ^ 31 then some n else none

def getWebsocketVersion (r : Request) : Int :=
  if !r.ready then -2
  else
    let header := r.getHeader (asciiBytes "Sec-WebSocket-Version")
    if header.isEmpty then 0 else (streamInt header).getD (-1)

inductive HandshakeError where
  | invalidVersion
  | unsupportedVersion
  | shortKey3
  deriving DecidableEq

def versionsSupported : List Int := [0, 7, 8, 13]

/-- The version of the processor that the request gets. One that asks for no websocket gets
    none. -/
def initializeProcessor (r : Request) : Except HandshakeError (Option Int) :=
  if !isWebsocketHandshake r then .ok none
  else
    let version := getWebsocketVersion r
    if version < 0 then .error .invalidVersion
    else if version ∈ versionsSupported then .ok (some version)
    else .error .unsupportedVersion

def Request.replaceHeader (r : Request) (key val : List Byte) : Request :=
  { r with headers := r.headers.insert key val }

/-- What the reads of a server's connection come to, when the handshake that the request asks
    for is accepted: a plain request is served and no frames follow, and the frames of version
    00 are another processor's, here the stream that it is given. -/
inductive Outcome (m : Machine) where
  | reading (r : Request)
  | refused (e : HttpException)
  | rejected (r : Request) (e : HandshakeError)
  | plain (r : Request)
  | draft (r : Request) (stream : List Byte)
  | opened (r : Request) (msgs : List Hybi13.Message) (last : Hybi13.ReadEnd m)

/-- handle_read_handshake from a request that is ready on, with what is left over of that read,
    and then handle_read_frame. The processors of versions 7 and 8 read as that of 13 does. -/
def openConnection (m : Machine) (s : Hybi13.Settings) (r : Request) (rest : List Byte)
    (bufs : List (List Byte)) : Outcome m :=
  match initializeProcessor r with
  | .error e => .rejected r e
  | .ok none => .plain r
  | .ok (some version) =>
    if version = 0 then
      if 8 ≤ rest.length then
        .draft (r.replaceHeader (asciiBytes "Sec-WebSocket-Key3") (rest.take 8))
          (rest.drop 8 ++ bufs.flatten)
      else .rejected r .shortKey3
    else
      let (msgs, last) := Hybi13.readAll s (.initial m) (rest :: bufs)
      .opened r msgs last

/-- handle_read_handshake, read after read. -/
def readConnection (m : Machine) (s : Hybi13.Settings) (r : Request) :
    List (List Byte) → Outcome m
  | [] => .reading r
  | buf :: bufs =>
    match r.consume buf with
    | .error e => .refused e
    | .ok (r, processed) =>
      if r.ready then openConnection m s r (buf.drop processed) bufs
      else readConnection m s r bufs

/-- The same but for the count of header bytes. -/
def Request.uncounted (r : Request) : Request := { r with headerBytes := 0 }

def Outcome.uncounted {m : Machine} : Outcome m → Outcome m
  | .reading r => .reading r.uncounted
  | .refused e => .refused e
  | .rejected r e => .rejected r.uncounted e
  | .plain r => .plain r.uncounted
  | .draft r stream => .draft r.uncounted stream
  | .opened r msgs last => .opened r.uncounted msgs last

/-- The refusal of a request of version 00 that came with less than its third key. -/
def Outcome.ShortKey {m : Machine} (o : Outcome m) : Prop :=
  ∃ r, o = .rejected r .shortKey3 ∧ initializeProcessor r = .ok (some 0)

/-- What is made of the head and the body, the count of header bytes left out. -/
def rules : Rules Request (Request × List Byte) Byte HttpException where
  line := Request.line
  blank := fun r =>
    if r.incomplete then .error incompleteRequest
    else r.toParser.prepareBody.map fun (p, _) =>
      ({ r with toParser := { p with bodyBytesNeeded := 0 } }, p.bodyBytesNeeded)
  finish := fun r body => .ok ({ r with body := r.body ++ body, ready := true }, [])

abbrev requestTurn := turn bytesEqual headerDelimiter rules (keeping Empty)

theorem request_splits : Splits requestTurn (Proper fun _ => True) :=
  headed_splits (fun _ _ _ _ => trivial) keeping_splits

/-- A request between two lines. -/
structure Bare (r : Request) : Prop where
  headerBytes : r.headerBytes = 0
  buf : r.buf = []
  body : r.body = []
  needed : r.bodyBytesNeeded = 0
  unready : r.ready = false

theorem append_header_keeps {p q : Parser} {key val : List Byte}
    (done : p.appendHeader key val = .ok q) : ∃ headers, q = { p with headers := headers } := by
  unfold Parser.appendHeader at done
  split at done
  · cases done
  · split at done
    · exact ⟨_, (Except.ok.inj done).symm⟩
    · exact ⟨_, (Except.ok.inj done).symm⟩

theorem process_header_keeps {p q : Parser} {line : List Byte}
    (done : p.processHeader line = .ok q) : ∃ headers, q = { p with headers := headers } := by
  unfold Parser.processHeader at done
  split at done
  · cases done
  · exact append_header_keeps done

theorem process_keeps {r r' : Request} {line : List Byte} (done : r.process line = .ok r') :
    ∃ method uri version,
      r' = { r with method := method, uri := uri, version := version } := by
  unfold Request.process Request.setMethod at done
  split at done
  · cases done
  · split at done
    · cases done
    · rename_i named
      split at named
      · cases named
      · obtain rfl := Except.ok.inj named
        split at done
        · cases done
        · exact ⟨_, _, _, (Except.ok.inj done).symm⟩

theorem line_bare {r r' : Request} {range : List Byte} (bare : Bare r)
    (done : r.line range = .ok r') : Bare r' := by
  unfold Request.line at done
  split at done
  · obtain ⟨method, uri, version, rfl⟩ := process_keeps done
    exact ⟨bare.headerBytes, bare.buf, bare.body, bare.needed, bare.unready⟩
  · cases parsed : r.toParser.processHeader range with
    | error e => simp [parsed, Except.map] at done
    | ok p =>
      rw [parsed] at done
      obtain rfl := Except.ok.inj done
      obtain ⟨headers, rfl⟩ := process_header_keeps parsed
      exact ⟨bare.headerBytes, bare.buf, bare.body, bare.needed, bare.unready⟩

theorem bare_form {r : Request} (bare : Bare r) : ∃ version headers max encoding method uri,
    r = ⟨⟨version, headers, 0, [], 0, max, encoding⟩, [], method, uri, false⟩ := by
  obtain ⟨⟨version, headers, headerBytes, body, needed, max, encoding⟩, buf, method, uri,
    ready⟩ := r
  obtain ⟨rfl, rfl, rfl, rfl, rfl⟩ := bare
  exact ⟨version, headers, max, encoding, method, uri, rfl⟩

/-- What the loop has read when it stops. -/
def LoopReads (s : Request) (held xs : List Byte) : Except HttpException (LoopEnd Request) → Prop
  | .error e => e = headersTooLarge ∨ Reads requestTurn (.head s held) xs [] (.error e)
  | .ok (.outOfBytes s' _ rest) => Bare s' ∧ search bytesEqual headerDelimiter rest = none ∧
      Reads requestTurn (.head s held) xs [] (.ok (.head s' rest))
  | .ok (.blankLine s' _ found) => Bare s' ∧ begins bytesEqual headerDelimiter found = true ∧
      (∃ before, held ++ xs = before ++ found) ∧
      ∀ last, Continues requestTurn (found.drop headerDelimiter.length) last
        (lineStage rules s' []) → Reads requestTurn (.head s held) xs [] last

theorem loop_reads {fuel n : Nat} {s : Request} {held xs : List Byte} (bare : Bare s)
    (nowhere : search bytesEqual headerDelimiter held = none)
    (enough : (held ++ xs).length < fuel) :
    LoopReads s held xs (headLoop Request.line fuel s n (held ++ xs)) := by
  induction fuel generalizing s n held xs with
  | zero => exact absurd enough (Nat.not_lt_zero _)
  | succ fuel ih =>
    rw [headLoop]
    split
    · exact Or.inl rfl
    · by_cases empty : xs = []
      · subst empty
        rw [List.append_nil, nowhere]
        exact ⟨bare, nowhere, .waits rfl⟩
      · cases result : search bytesEqual headerDelimiter (held ++ xs) with
        | none =>
          exact ⟨bare, result, .goes (head_short empty result) (.waits rfl)⟩
        | some split =>
          obtain ⟨range, found⟩ := split
          obtain ⟨cut, begun⟩ := search_found result
          have turns : requestTurn (.head s held) xs = _ := head_found empty result
          dsimp only
          cases range with
          | nil => exact ⟨bare, begun, ⟨[], cut⟩, fun last more => reads_taken turns more⟩
          | cons c range =>
            rw [if_neg (by simp)]
            cases parsed : s.line (c :: range) with
            | error e =>
              refine Or.inr (reads_taken turns ?_)
              simp [lineStage, rules, parsed, Except.map, Continues]
            | ok s' =>
              have staged : lineStage rules s (c :: range) = .ok (.head s' []) := by
                simp [lineStage, rules, parsed, Except.map]
              rw [staged] at turns
              have shorter : (([] : List Byte) ++ found.drop headerDelimiter.length).length <
                  fuel := by
                have lengths := congrArg List.length cut
                rw [List.length_append, List.length_append, List.length_cons] at lengths
                rw [List.length_append] at enough
                rw [List.nil_append, List.length_drop]
                omega
              have further : LoopReads s' [] (found.drop headerDelimiter.length)
                  (headLoop Request.line fuel s' (n + (c :: range).length + sizeofHeaderDelimiter)
                    ([] ++ found.drop headerDelimiter.length)) :=
                ih (line_bare bare parsed) rfl shorter
              rw [List.nil_append] at further
              dsimp only
              simp only [Option.map_some, Option.getD_some]
              generalize headLoop Request.line fuel s' _ _ = ends at further ⊢
              match ends, further with
              | .error e, further =>
                exact further.imp id fun reads => reads_taken turns reads
              | .ok (.outOfBytes s'' _ rest), ⟨bare', nowhere', reads⟩ =>
                exact ⟨bare', nowhere', reads_taken turns reads⟩
              | .ok (.blankLine s'' _ found'), ⟨bare', begun', ⟨before, cut'⟩, goes⟩ =>
                refine ⟨bare', begun', ⟨c :: range ++ found.take headerDelimiter.length ++ before,
                  ?_⟩, fun last more => reads_taken turns (goes last more)⟩
                rw [List.nil_append] at cut'
                rw [cut, List.append_assoc, List.append_assoc, ← cut', List.take_append_drop]

/-- A request that has not been read whole. -/
structure Going (r : Request) : Prop where
  unready : r.ready = false
  lines : r.bodyBytesNeeded = 0 →
    r.body = [] ∧ search bytesEqual headerDelimiter r.buf = none
  body : 0 < r.bodyBytesNeeded → r.buf = [] ∧ r.bodyEncoding = .plain

def stage (r : Request) : Stage Request (Request × List Byte) Byte :=
  if r.bodyBytesNeeded = 0 then .head r.bare r.buf
  else .body { r.bare with body := [], bodyBytesNeeded := 0 } r.body r.bodyBytesNeeded

/-- A result of consume, where P tells which ends the reading comes to. -/
def Consumed (P : Except HttpException (Stage Request (Request × List Byte) Byte) → Prop)
    (xs : List Byte) : Except HttpException (Request × Nat) → Prop
  | .error e => e = headersTooLarge ∨ P (.error e)
  | .ok (r, n) =>
    (r.ready = true → r.buf = [] ∧ P (.ok (.behind (r.bare, xs.drop n)))) ∧
    (r.ready = false → Going r ∧ P (.ok (stage r)))

abbrev ConsumeReads (r : Request) (xs : List Byte) :=
  Consumed (Reads requestTurn (stage r) xs []) xs

/-- The end of what a read has brought is consumed behind the first bytes of it. -/
theorem consumed_behind
    {P Q : Except HttpException (Stage Request (Request × List Byte) Byte) → Prop}
    {xs : List Byte} {k : Nat} {result : Except HttpException (Request × Nat)}
    (goes : ∀ last, P last → Q last) (done : Consumed P (xs.drop k) result) :
    Consumed Q xs (result.map fun (r, n) => (r, k + n)) := by
  match result, done with
  | .error e, done => exact done.imp id (goes _)
  | .ok (r, n), ⟨ends, goes_on⟩ =>
    rw [List.drop_drop] at ends
    exact ⟨fun ready => (ends ready).imp id (goes _),
      fun unready => (goes_on unready).imp id (goes _)⟩

theorem take_body_eq {r : Request} (plain : r.bodyEncoding = .plain) (xs : List Byte) :
    r.takeBody xs = .ok
      ({ r with
          body := r.body ++ xs.take (min r.bodyBytesNeeded xs.length)
          bodyBytesNeeded := r.bodyBytesNeeded - min r.bodyBytesNeeded xs.length
          ready := r.ready || decide (r.bodyBytesNeeded - min r.bodyBytesNeeded xs.length = 0) },
        min r.bodyBytesNeeded xs.length) := by
  simp [Request.takeBody, Parser.processBody, plain, Except.map, Parser.bodyReady]

theorem take_body_reads {r : Request} (going : Going r) (needed : 0 < r.bodyBytesNeeded)
    (xs : List Byte) : ConsumeReads r xs (r.takeBody xs) := by
  obtain ⟨buf, plain⟩ := going.body needed
  have here : stage r =
      .body { r.bare with body := [], bodyBytesNeeded := 0 } r.body r.bodyBytesNeeded :=
    if_neg (Nat.ne_of_gt needed)
  rw [take_body_eq plain]
  by_cases short : xs.length < r.bodyBytesNeeded
  · rw [Nat.min_eq_right (Nat.le_of_lt short), List.take_length]
    have more : r.bodyBytesNeeded - xs.length ≠ 0 := by omega
    simp only [more, decide_false, Bool.or_false]
    refine ⟨fun ready => ?_, fun _ => ⟨?_, ?_⟩⟩
    · rw [going.unready] at ready
      cases ready
    · exact ⟨going.unready, fun none => absurd none more, fun _ => ⟨buf, plain⟩⟩
    · rw [here, stage, if_neg more]
      by_cases empty : xs = []
      · subst empty
        rw [List.append_nil, List.length_nil, Nat.sub_zero]
        exact .waits rfl
      · exact .goes (body_short empty short) (.waits rfl)
  · have enough : r.bodyBytesNeeded ≤ xs.length := Nat.le_of_not_lt short
    have filled : xs ≠ [] := by
      rintro rfl
      exact short needed
    rw [Nat.min_eq_left enough, Nat.sub_self]
    simp only [decide_true, Bool.or_true]
    refine ⟨fun _ => ⟨buf, ?_⟩, fun unready => by cases unready⟩
    rw [here]
    exact reads_taken (body_enough filled enough) (kept_reads _ [] _)

theorem prepare_body_cases {p q : Parser} {more : Bool} (done : p.prepareBody = .ok (q, more)) :
    more = false ∧ q = p ∨
      more = true ∧ ∃ n, q = { p with bodyBytesNeeded := n, bodyEncoding := .plain } := by
  unfold Parser.prepareBody at done
  dsimp only at done
  split at done
  · split at done
    · cases done
    · obtain ⟨rfl, rfl⟩ := Prod.ext_iff.mp (Except.ok.inj done)
      exact Or.inr ⟨rfl, _, rfl⟩
  · obtain ⟨rfl, rfl⟩ := Prod.ext_iff.mp (Except.ok.inj done)
    exact Or.inl ⟨rfl, rfl⟩

/-- A body that has been announced is taken from the rest of the read. -/
theorem announced_reads {q : Request} (plain : q.bodyEncoding = .plain) (body : q.body = [])
    (buf : q.buf = []) (unready : q.ready = false) (rest : List Byte) :
    Consumed (fun last => Continues requestTurn rest last
      (announced rules ({ q.bare with bodyBytesNeeded := 0 }, q.bodyBytesNeeded)))
      rest (q.takeBody rest) := by
  cases needed : q.bodyBytesNeeded with
  | zero =>
    rw [take_body_eq plain, needed]
    simp only [Nat.zero_min, Nat.sub_self, decide_true, Bool.or_true, List.take_zero,
      List.append_nil]
    refine ⟨fun _ => ⟨buf, ?_⟩, fun unready => by cases unready⟩
    obtain ⟨⟨version, headers, headerBytes, _, _, max, encoding⟩, _, method, uri, _⟩ := q
    obtain rfl := body
    exact kept_reads _ [] rest
  | succ k =>
    have going : Going q :=
      ⟨unready, fun none => absurd (needed.symm.trans none) (Nat.succ_ne_zero k),
        fun _ => ⟨buf, plain⟩⟩
    have there : stage q = .body { q.bare with bodyBytesNeeded := 0 } [] (k + 1) := by
      rw [stage, if_neg (by omega), body, needed]
      simp [Request.bare, body]
    have taken := take_body_reads going (by omega) rest
    unfold ConsumeReads at taken
    rw [there] at taken
    exact taken

/-- The bytes behind a blank line are the last ones of the read that it ends in. -/
theorem processed_rest {held xs before found : List Byte}
    (nowhere : search bytesEqual headerDelimiter held = none)
    (cut : held ++ xs = before ++ found)
    (begun : begins bytesEqual headerDelimiter found = true) :
    xs.drop (xs.length + (sizeofHeaderDelimiter - 1) - found.length) =
      found.drop headerDelimiter.length := by
  have late : found.length < xs.length + 2 := found_late nowhere cut begun
  have long : 2 ≤ found.length := begins_length begun
  have lengths := congrArg List.length cut
  rw [List.length_append, List.length_append] at lengths
  have before_end : held.length + (xs.length + 2 - found.length) = before.length + 2 := by omega
  have left : (held ++ xs).drop (held.length + (xs.length + 2 - found.length)) =
      xs.drop (xs.length + 2 - found.length) := by
    rw [← List.drop_drop, List.drop_left]
  have right : (before ++ found).drop (before.length + 2) = found.drop 2 := by
    rw [← List.drop_drop, List.drop_left]
  rw [cut, before_end] at left
  exact left.symm.trans right

theorem consume_reads {r : Request} (going : Going r) (xs : List Byte) :
    ConsumeReads r xs (r.consume xs) := by
  unfold Request.consume
  rw [if_neg (by simp [going.unready])]
  by_cases needed : 0 < r.bodyBytesNeeded
  · rw [if_pos needed]
    exact take_body_reads going needed xs
  · have none : r.bodyBytesNeeded = 0 := Nat.eq_zero_of_not_pos needed
    obtain ⟨body, nowhere⟩ := going.lines none
    have here : stage r = .head r.bare r.buf := if_pos none
    have bare : Bare r.bare := ⟨rfl, rfl, body, none, going.unready⟩
    have loops : LoopReads r.bare r.buf xs (headLoop Request.line ((r.buf ++ xs).length + 1)
        r.bare r.headerBytes (r.buf ++ xs)) := loop_reads bare nowhere (Nat.lt_succ_self _)
    rw [if_neg needed]
    dsimp only
    generalize headLoop Request.line _ _ _ _ = ends at loops ⊢
    match ends, loops with
    | .error e, loops =>
      refine Or.imp id (fun reads => ?_) loops
      rwa [here]
    | .ok (.outOfBytes s n rest), ⟨bare', nowhere', reads⟩ =>
      refine ⟨fun ready => ?_, fun _ => ⟨⟨bare'.unready, fun _ => ⟨bare'.body, nowhere'⟩, ?_⟩, ?_⟩⟩
      · rw [bare'.unready] at ready
        cases ready
      · exact fun more => absurd bare'.needed (Nat.ne_of_gt more)
      · have there : stage { s with headerBytes := n, buf := rest } = .head s rest := by
          have same : s = { s with headerBytes := 0, buf := [] } := by
            rw [← bare'.headerBytes, ← bare'.buf]
          rw [stage, if_pos bare'.needed]
          exact congrArg (Stage.head · rest) same.symm
        rwa [here, there]
    | .ok (.blankLine s n found), ⟨bare', begun, ⟨before, cut⟩, goes⟩ =>
      have rest := processed_rest nowhere cut begun
      dsimp only
      by_cases incomplete : s.incomplete = true
      · rw [if_pos incomplete]
        refine Or.inr (here ▸ goes _ ?_)
        simp [lineStage, rules, incomplete, Except.bind, Continues]
      · rw [if_neg incomplete]
        cases prepared : s.toParser.prepareBody with
        | error e =>
          refine Or.inr (here ▸ goes _ ?_)
          simp [lineStage, rules, incomplete, prepared, Except.bind, Except.map, Continues]
        | ok announcement =>
          obtain ⟨p, more⟩ := announcement
          have staged : lineStage rules s [] = announced rules
              ({ s with toParser := { p with bodyBytesNeeded := 0 } }, p.bodyBytesNeeded) := by
            simp [lineStage, rules, incomplete, prepared, Except.bind, Except.map]
          obtain ⟨version, headers, max, encoding, method, uri, rfl⟩ := bare_form bare'
          rcases prepare_body_cases prepared with ⟨rfl, rfl⟩ | ⟨rfl, needed, rfl⟩
          · -- no body: the request is ready, and the rest of the read is left over
            refine ⟨fun _ => ⟨rfl, ?_⟩, fun unready => by cases unready⟩
            rw [here, rest]
            refine goes _ ?_
            rw [staged]
            exact kept_reads _ [] _
          · have further := announced_reads (q := ⟨⟨version, headers, n, [], needed, max, .plain⟩,
              [], method, uri, false⟩) rfl rfl rfl rfl (found.drop headerDelimiter.length)
            rw [← rest] at further
            refine consumed_behind (fun last more => ?_) further
            rw [here]
            refine goes _ ?_
            rw [staged, ← rest]
            exact more

/-- What a connection shows of an end that its reading comes to. -/
inductive Shows (m : Machine) (s : Hybi13.Settings) :
    Except HttpException (Stage Request (Request × List Byte) Byte) → Outcome m → Prop where
  | refused (e : HttpException) : Shows m s (.error e) (.refused e)
  | reading {r : Request} (going : Going r) : Shows m s (.ok (stage r)) (.reading r)
  | ready {r : Request} {rest : List Byte} {bufs : List (List Byte)} (empty : r.buf = []) :
    Shows m s (.ok (.behind (r.bare, rest ++ bufs.flatten))) (openConnection m s r rest bufs)

theorem connection_reads (m : Machine) (s : Hybi13.Settings) {r : Request} (going : Going r)
    (bufs : List (List Byte)) :
    readConnection m s r bufs = .refused headersTooLarge ∨
      ∃ last, ReadsAll requestTurn (stage r) bufs [] last ∧
        Shows m s last (readConnection m s r bufs) := by
  induction bufs generalizing r with
  | nil => exact Or.inr ⟨_, .done, .reading going⟩
  | cons buf bufs ih =>
    have here := consume_reads going buf
    rw [readConnection]
    generalize r.consume buf = result at here ⊢
    match result, here with
    | .error e, here =>
      rcases here with rfl | reads
      · exact Or.inl rfl
      · exact Or.inr ⟨_, .fails reads, .refused e⟩
    | .ok (r', n), ⟨ends, goes_on⟩ =>
      dsimp only
      by_cases ready : r'.ready = true
      · obtain ⟨empty, reads⟩ := ends ready
        rw [if_pos ready]
        exact Or.inr ⟨_, .goes reads (kept_all _ _ _), .ready empty⟩
      · obtain ⟨going', reads⟩ := goes_on (eq_false_of_ne_true ready)
        rw [if_neg ready]
        refine (ih going').imp id fun ⟨last, more, shows⟩ => ⟨last, .goes reads more, shows⟩

theorem going_initial : Going .initial :=
  ⟨rfl, fun _ => ⟨rfl, rfl⟩, fun more => absurd more (Nat.lt_irrefl 0)⟩

theorem bare_eq {r r' : Request} (same : r.bare = r'.bare) (buf : r.buf = r'.buf) :
    r.uncounted = r'.uncounted := by
  have back : ∀ q : Request, q.uncounted = { q.bare with buf := q.buf } := fun q => rfl
  rw [back r, back r', same, buf]

theorem stage_eq {r r' : Request} (going : Going r) (going' : Going r')
    (same : stage r = stage r') : r.uncounted = r'.uncounted := by
  unfold stage at same
  split at same
  · rename_i none
    split at same
    · obtain ⟨bare, buf⟩ := Stage.head.inj same
      exact bare_eq bare buf
    · cases same
  · rename_i some
    split at same
    · cases same
    · rename_i some'
      obtain ⟨bare, body, needed⟩ := Stage.body.inj same
      have buf := (going.body (Nat.pos_of_ne_zero some)).1
      have buf' := (going'.body (Nat.pos_of_ne_zero some')).1
      have back : ∀ q : Request, q.bare =
          { ({ q.bare with body := [], bodyBytesNeeded := 0 } : Request) with
            body := q.body, bodyBytesNeeded := q.bodyBytesNeeded } := fun q => rfl
      refine bare_eq ?_ (buf.trans buf'.symm)
      rw [back r, back r', bare, body, needed]

/-- The processor does not depend on how many bytes were counted. -/
theorem same_processor {r r' : Request} (same : r.uncounted = r'.uncounted) :
    initializeProcessor r = initializeProcessor r' := by
  have uncounted : ∀ q : Request, initializeProcessor q = initializeProcessor q.uncounted :=
    fun q => rfl
  rw [uncounted r, uncounted r', same]

/-- Behind the request only its version 00 depends on where a read ends. -/
theorem open_same {m : Machine} {s : Hybi13.Settings} {r r' : Request}
    {rest rest' : List Byte} {bufs bufs' : List (List Byte)} (same : r.uncounted = r'.uncounted)
    (stream : rest ++ bufs.flatten = rest' ++ bufs'.flatten) :
    (openConnection m s r rest bufs).ShortKey ∨ (openConnection m s r' rest' bufs').ShortKey ∨
      (openConnection m s r rest bufs).uncounted =
        (openConnection m s r' rest' bufs').uncounted := by
  have processor := same_processor same
  unfold openConnection
  rw [← processor]
  cases result : initializeProcessor r with
  | error e => exact Or.inr (Or.inr (congrArg (Outcome.rejected · e) same))
  | ok version =>
    cases version with
    | none => exact Or.inr (Or.inr (congrArg Outcome.plain same))
    | some version =>
      dsimp only
      by_cases draft : version = 0
      · subst draft
        rw [if_pos rfl, if_pos rfl]
        by_cases short : 8 ≤ rest.length
        · by_cases short' : 8 ≤ rest'.length
          · rw [if_pos short, if_pos short']
            have key := congrArg (List.take 8) stream
            have further := congrArg (List.drop 8) stream
            rw [List.take_append_of_le_length short, List.take_append_of_le_length short'] at key
            rw [List.drop_append_of_le_length short,
              List.drop_append_of_le_length short'] at further
            have replaced : ∀ (q : Request) (k v : List Byte),
                (q.replaceHeader k v).uncounted = q.uncounted.replaceHeader k v :=
              fun q k v => rfl
            refine Or.inr (Or.inr ?_)
            simp only [Outcome.uncounted, replaced, key, further, same]
          · rw [if_neg short']
            exact Or.inr (Or.inl ⟨r', rfl, processor.symm.trans result⟩)
        · rw [if_neg short]
          exact Or.inl ⟨r, rfl, result⟩
      · rw [if_neg draft, if_neg draft, ReadPieces.all_at_once ReadPieces.settled_initial,
          ReadPieces.all_at_once ReadPieces.settled_initial, List.flatten_cons,
          List.flatten_cons, stream]
        exact Or.inr (Or.inr (congrArg (Outcome.opened · _ _) same))

/-- The same end is shown alike, but for the count of header bytes and the third key. -/
theorem shows_same {m : Machine} {s : Hybi13.Settings} {o o' : Outcome m}
    {last : Except HttpException (Stage Request (Request × List Byte) Byte)}
    (first : Shows m s last o) (second : Shows m s last o') :
    o.ShortKey ∨ o'.ShortKey ∨ o.uncounted = o'.uncounted := by
  cases first with
  | refused e =>
    cases second
    exact Or.inr (Or.inr rfl)
  | reading going =>
    generalize same : Except.ok (stage _) = last at second
    cases second with
    | refused e => cases same
    | reading going' =>
      exact Or.inr (Or.inr (congrArg Outcome.reading
        (stage_eq going going' (Except.ok.inj same))))
    | ready empty =>
      unfold stage at same
      split at same <;> cases same
  | ready empty =>
    generalize same : Except.ok (Stage.behind _) = last at second
    cases second with
    | refused e => cases same
    | reading going' =>
      unfold stage at same
      split at same <;> cases same
    | ready empty' =>
      obtain ⟨bare, stream⟩ := Prod.ext_iff.mp (Stage.behind.inj (Except.ok.inj same))
      exact open_same (bare_eq bare (empty.trans empty'.symm)) stream

/-- However the bytes of a connection are cut into reads, the same request is read, or refused
    with the same exception, and the same messages follow. What a cut decides is only whether
    the head is refused as too large and, for version 00, whether its third key came with the end
    of the request. -/
theorem request_cut_free (m : Machine) (s : Hybi13.Settings) (bufs bufs' : List (List Byte))
    (same : bufs.flatten = bufs'.flatten) :
    readConnection m s .initial bufs = .refused headersTooLarge ∨
      readConnection m s .initial bufs' = .refused headersTooLarge ∨
      (readConnection m s .initial bufs).ShortKey ∨
      (readConnection m s .initial bufs').ShortKey ∨
      (readConnection m s .initial bufs).uncounted =
        (readConnection m s .initial bufs').uncounted := by
  rcases connection_reads m s going_initial bufs with large | ⟨last, reads, shows⟩
  · exact Or.inl large
  rcases connection_reads m s going_initial bufs' with large | ⟨last', reads', shows'⟩
  · exact Or.inr (Or.inl large)
  have start : Proper (fun _ => True) (stage .initial) := trivial
  obtain ⟨_, rfl⟩ := cuts_agree request_splits start rfl same reads reads'
  exact Or.inr (Or.inr (shows_same shows shows'))

def Outcome.isOpened {m : Machine} : Outcome m → Bool
  | .opened _ _ _ => true
  | _ => false

/-- A request with a body of two bytes, an empty text behind it. -/
def sampleStream : List Byte :=
  asciiBytes "GET / HTTP/1.1\r\nHost: a\r\nUpgrade: websocket\r\nConnection: Upgrade\r\n" ++
    asciiBytes "Sec-WebSocket-Version: 13\r\nContent-Length: 2\r\n\r\nhi" ++
    [0x81, 0x80, 0, 0, 0, 0]

/-- Read at once and byte by byte. -/
theorem sample_cut_free :
    (readConnection littleEndian64 ⟨true, 100⟩ .initial [sampleStream]).uncounted =
      (readConnection littleEndian64 ⟨true, 100⟩ .initial (sampleStream.map ([·]))).uncounted := by
  have whole : (readConnection littleEndian64 ⟨true, 100⟩ .initial
      [sampleStream]).isOpened = true := by decide +kernel
  have bytes : (readConnection littleEndian64 ⟨true, 100⟩ .initial
      (sampleStream.map ([·]))).isOpened = true := by decide +kernel
  rcases request_cut_free littleEndian64 ⟨true, 100⟩ [sampleStream] (sampleStream.map ([·]))
    (by decide +kernel) with large | large | ⟨r, short, _⟩ | ⟨r, short, _⟩ | same
  · rw [large] at whole
    cases whole
  · rw [large] at bytes
    cases bytes
  · rw [short] at whole
    cases whole
  · rw [short] at bytes
    cases bytes
  · exact same

end HttpRequest
