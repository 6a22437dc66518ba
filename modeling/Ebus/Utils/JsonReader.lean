import Ebus.Lib.Json
import Ebus.Utils.Chars

/-!
# The pull reader

`JsonReader` walks over a text and reports one token for each call of `next`. It sees the text
as far as it has come and, in streaming mode, as far as it was fed: `rest` is what lies behind
the position of the reader, `json_.substr(pos_)`. The buffer of the streaming mode is the one
that grows; the fixed one and a raw value that goes on in the next chunk are left out.
-/

namespace Ebus

namespace JsonLimits

def maxRecursionDepth : Nat := 32

end JsonLimits

structure JsonReader where
  rest : List UInt8 := []
  value : List UInt8 := []
  ended : Bool := false
  needMoreData : Bool := false
  skipToClosingInString : Bool := false
  skipToClosingDepth : Nat := 1
  deriving DecidableEq, Repr

namespace JsonReader

inductive Token where
  | end
  | objectStart
  | objectEnd
  | arrayStart
  | arrayEnd
  | key
  | string
  | number
  | boolean
  | null
  | error
  | needMoreData
  deriving DecidableEq, Repr

/-- The tokens that `value` goes with. -/
def Token.hasValue : Token → Bool
  | .key | .string | .number | .boolean | .null => true
  | _ => false

/-- The characters that the loop over a number goes on with. -/
def isNumberChar (c : UInt8) : Bool :=
  Json.isDigit c || c = 0x2e || c = 0x65 || c = 0x45 || c = 0x2b || c = 0x2d

variable (r : JsonReader)

def skipWhitespace : JsonReader := { r with rest := r.rest.dropWhile Json.isSpace }

/-- The constructor on a whole text. -/
def ofText (json : List UInt8) : JsonReader :=
  { rest := json, ended := true : JsonReader }.skipWhitespace

def feed (chunk : List UInt8) : JsonReader :=
  { r with rest := r.rest ++ chunk, needMoreData := false }

def endOfInput : JsonReader := { r with ended := true, needMoreData := false }

/-- `readString` behind the opening quote: the string, and what follows its closing quote. -/
def readString : List UInt8 → Option (List UInt8 × List UInt8)
  | [] => none
  | c :: rest =>
      if c = Json.backslash then
        match rest with
        | [] => none
        | next :: rest =>
            if next = Json.unicode then
              match rest with
              | a :: b :: c' :: d :: rest =>
                  (readString rest).map fun (s, after) =>
                    (c :: next :: a :: b :: c' :: d :: s, after)
              | _ => none
            else (readString rest).map fun (s, after) => (c :: next :: s, after)
      else if c = Json.quote then some ([], rest)
      else (readString rest).map fun (s, after) => (c :: s, after)

def waitForData : Token × JsonReader := (.needMoreData, { r with needMoreData := true })

/-- The text ends, or the chunk. -/
def incomplete : Token × JsonReader := if r.ended then (.error, r) else r.waitForData

/-- `true`, `false` and `null`. -/
def keyword (token : Token) (word : List UInt8) : Token × JsonReader :=
  if word <+: r.rest then (token, { r with value := word, rest := r.rest.drop word.length })
  else if r.ended = false ∧ r.rest.length < word.length then r.waitForData
  else (.error, r)

/-- The branches of `next` for the first character of a token, `c` in front of `rest`. -/
def token (c : UInt8) (rest : List UInt8) : Token × JsonReader :=
  if c = 0x7b then (.objectStart, { r with rest })
  else if c = 0x7d then (.objectEnd, { r with rest })
  else if c = 0x5b then (.arrayStart, { r with rest })
  else if c = 0x5d then (.arrayEnd, { r with rest })
  else if c = Json.quote then
    match readString rest with
    | none => { r with value := [] : JsonReader }.incomplete
    | some (s, after) =>
        let r := { r with value := s, rest := after }
        -- a colon ahead makes the string a key
        let ahead := r.skipWhitespace
        if ahead.rest.head? = some 0x3a then (.key, ahead) else (.string, r)
  else if c = 0x74 then r.keyword .boolean Json.Lexeme.trueText
  else if c = 0x66 then r.keyword .boolean Json.Lexeme.falseText
  else if c = 0x6e then r.keyword .null Json.Lexeme.nullText
  else if Json.isDigit c ∨ c = 0x2d then
    let after := rest.dropWhile isNumberChar
    if r.ended = false ∧ after = [] then r.waitForData
    else (.number, { r with value := c :: rest.takeWhile isNumberChar, rest := after })
  else (.error, r)

def next : Token × JsonReader :=
  let r := r.skipWhitespace
  match r.rest with
  | [] => if r.ended then (.end, r) else r.waitForData
  | c :: rest =>
      let r := { r with needMoreData := false }
      if c = 0x3a ∨ c = 0x2c then
        let r := { r with rest : JsonReader }.skipWhitespace
        match r.rest with
        | [] => r.incomplete
        | c :: rest => r.token c rest
      else r.token c rest

/-- Where the loop of `skipToClosing` stops. -/
structure Closing where
  rest : List UInt8
  inString : Bool
  depth : Nat
  /-- A backslash is the last character. -/
  cut : Bool := false

/-- The loop of `skipToClosing`. -/
def closingLoop (inString : Bool) (depth : Nat) : List UInt8 → Closing
  | [] => { rest := [], inString, depth }
  | c :: rest =>
      if depth = 0 then { rest := c :: rest, inString, depth }
      else if inString then
        if c = Json.backslash then
          match rest with
          | [] => { rest := [c], inString, depth, cut := true }
          | _ :: rest => closingLoop true depth rest
        else closingLoop (c ≠ Json.quote) depth rest
      else if c = Json.quote then closingLoop true depth rest
      else if c = 0x7b ∨ c = 0x5b then closingLoop false (depth + 1) rest
      else if c = 0x7d ∨ c = 0x5d then closingLoop false (depth - 1) rest
      else closingLoop false depth rest

def skipToClosing : JsonReader :=
  let found := closingLoop r.skipToClosingInString r.skipToClosingDepth r.rest
  if found.cut then
    if r.ended then { r with rest := [] }
    else
      { r with
        rest := found.rest, needMoreData := true, skipToClosingInString := true,
        skipToClosingDepth := found.depth }
  else if 0 < found.depth then
    { r with
      rest := found.rest, needMoreData := true, skipToClosingInString := found.inString,
      skipToClosingDepth := found.depth }
  else
    { r with
      rest := found.rest, needMoreData := false, skipToClosingInString := false,
      skipToClosingDepth := 1 }

def skipValue : JsonReader :=
  let (token, r) := r.next
  if token = .objectStart ∨ token = .arrayStart then r.skipToClosing else r

/-- `rawValue` on a text that is there as a whole. -/
def rawValue : List UInt8 × JsonReader :=
  let r := r.skipWhitespace
  let r :=
    match r.rest with
    | c :: rest =>
        if c = 0x3a ∨ c = 0x2c then ({ r with rest : JsonReader }).skipWhitespace else r
    | [] => r
  let start := r.rest
  let (token, r) := r.next
  if token = .needMoreData then ([], r)
  else
    let r := if token = .objectStart ∨ token = .arrayStart then r.skipToClosing else r
    if (token = .objectStart ∨ token = .arrayStart) ∧ r.needMoreData then ([], r)
    else if token = .end ∨ token = .error then ([], r)
    else (start.take (start.length - r.rest.length), r)

/-- The loop of `forEachField`. The callback gets the key and changes what it captured, here the
state of type `σ`; the reader skips the value that it did not take. -/
def fieldLoop {σ : Type} (func : List UInt8 → σ → JsonReader → Bool × σ × JsonReader) :
    Nat → σ → JsonReader → σ × JsonReader
  | 0, state, r => (state, r)
  | fuel + 1, state, r =>
      let (token, r) := r.next
      if token = .objectEnd ∨ token = .end ∨ token = .error ∨ token = .needMoreData then (state, r)
      else if token = .key then
        let (taken, state, r) := func r.value state r
        fieldLoop func fuel state (if taken then r else r.skipValue)
      else fieldLoop func fuel state r

/-- Each round takes a byte at least. -/
def forEachField {σ : Type} (func : List UInt8 → σ → JsonReader → Bool × σ × JsonReader)
    (state : σ) : σ × JsonReader :=
  fieldLoop func (r.rest.length + 1) state r

/-- The loop of `find`, with the state of the predicate. The predicate starts in front of the
element, and the loop goes on behind the first token of it. -/
def findLoop {σ : Type} (pred : σ → JsonReader → Bool × σ × JsonReader) :
    Nat → σ → JsonReader → Bool × σ × JsonReader
  | 0, state, r => (false, state, r)
  | fuel + 1, state, r =>
      let elementStart := r.rest
      let (token, r) := r.next
      if token = .arrayEnd ∨ token = .end ∨ token = .error ∨ token = .needMoreData then
        (false, state, r)
      else
        let afterToken := r.rest
        let (found, state, r) := pred state { r with rest := elementStart }
        if found then (true, state, r)
        else findLoop pred fuel state { r with rest := afterToken : JsonReader }.skipValue

/-- Each round takes a byte at least. -/
def find {σ : Type} (pred : σ → JsonReader → Bool × σ × JsonReader) (state : σ) :
    Bool × σ × JsonReader :=
  findLoop pred (r.rest.length + 1) state r

def asBool : Bool := r.value = Json.Lexeme.trueText

def asNum (type : IntType) : Int := Chars.toNum type r.value

def asNumStrict (type : IntType) : Option Int := Chars.toNumStrict type r.value

/-- The loop of `findKey`; `depth` counts the containers that it is inside of. -/
def findKeyLoop (targetKey : List UInt8) : Nat → Nat → JsonReader → Bool × JsonReader
  | 0, _, r => (false, r)
  | fuel + 1, depth, r =>
      let (token, r) := r.next
      if token = .end ∨ token = .error ∨ token = .needMoreData then (false, r)
      else if token = .objectStart ∨ token = .arrayStart then
        findKeyLoop targetKey fuel (depth + 1) r
      else if token = .objectEnd ∨ token = .arrayEnd then
        if depth = 0 then (false, r) else findKeyLoop targetKey fuel (depth - 1) r
      else if token = .key ∧ depth = 0 ∧ r.value = targetKey then (true, r)
      else findKeyLoop targetKey fuel depth r

def findKey (targetKey : List UInt8) : Bool × JsonReader :=
  findKeyLoop targetKey (r.rest.length + 1) 0 r

def parseIndex (s : List UInt8) : Option Nat :=
  match Chars.fromChars .uint64 10 s with
  | some (index, []) => some index.toNat
  | _ => none

/-- The values in front of the element that the path asks for. -/
def skipValues (r : JsonReader) : Nat → JsonReader
  | 0 => r
  | n + 1 => skipValues r.skipValue n

/-- A path is cut at its dots. -/
def segments : List UInt8 → List (List UInt8)
  | [] => [[]]
  | c :: path =>
      if c = 0x2e then [] :: segments path
      else
        match segments path with
        | segment :: rest => (c :: segment) :: rest
        | [] => [[c]]

/-- The loop of `get` behind the start of a container. -/
def getLoop (container : Token) : List (List UInt8) → JsonReader → Token × JsonReader
  | [], r => (.error, r)
  | segment :: path, r =>
      if container = .objectStart then
        let (found, r) := r.findKey segment
        if !found then (.error, r)
        else
          let (token, r) := r.next
          if token = .needMoreData then (.error, r)
          else if path = [] then (token, r)
          else if token ≠ .objectStart ∧ token ≠ .arrayStart then (.error, r)
          else getLoop token path r
      else if container = .arrayStart then
        match parseIndex segment with
        | none => (.error, r)
        | some index =>
            let (token, r) := (r.skipValues index).next
            if token = .arrayEnd ∨ token = .end ∨ token = .error ∨ token = .needMoreData then
              (.error, r)
            else if path = [] then (token, r)
            else if token ≠ .objectStart ∧ token ≠ .arrayStart then (.error, r)
            else getLoop token path r
      else (.error, r)

/-- `get` resets the reader to the beginning of its text. -/
def get (json path : List UInt8) : Token × JsonReader :=
  let (token, r) := (ofText json).next
  if token = .needMoreData then (.error, r)
  else if token ≠ .objectStart ∧ token ≠ .arrayStart then (.error, r)
  else getLoop token (segments path) r

/-- The loop over a string behind its opening quote: what follows the closing one. A backslash
takes the next character with it. -/
def closeString : List UInt8 → Option (List UInt8)
  | [] => none
  | c :: rest =>
      if c = Json.quote then some rest
      else if c = Json.backslash then
        match rest with
        | [] => none
        | _ :: rest => closeString rest
      else closeString rest

/-- A digit, or a character that `strchr` finds in `".eE+-"`: the zero that ends the literal is
one. -/
def validNumberChar (c : UInt8) : Bool := isNumberChar c || c = 0

/-- What `validate` expects next. -/
inductive Expects where
  | value
  | keyOrEnd
  | colon
  | commaOrEnd
  deriving DecidableEq, Repr

/-- The opening brackets of the containers it is inside of; the depth is one less than their
number. -/
structure Validator where
  state : Expects
  stack : List UInt8
  rest : List UInt8
  deriving DecidableEq, Repr

def skipWs (text : List UInt8) : List UInt8 := text.dropWhile Json.isSpace

/-- `true`, `false` and `null`. -/
def validKeyword (stack word text : List UInt8) : Option Validator :=
  if word <+: text then some ⟨.commaOrEnd, stack, text.drop word.length⟩ else none

/-- A bracket that opens a container. -/
def openContainer (stack rest : List UInt8) (bracket closing : UInt8) (next : Expects) :
    Option Validator :=
  if JsonLimits.maxRecursionDepth ≤ stack.length then none
  else
    let rest := skipWs rest
    some ⟨if rest.head? = some closing then .commaOrEnd else next, bracket :: stack, rest⟩

def closeContainer (stack rest : List UInt8) (bracket : UInt8) : Option Validator :=
  match stack with
  | top :: stack => if top = bracket then some ⟨.commaOrEnd, stack, rest⟩ else none
  | [] => none

/-- The case of `ExpectValue` for the character `c` in front of `rest`. -/
def validateValue (stack : List UInt8) (c : UInt8) (rest : List UInt8) : Option Validator :=
  if c = 0x7b then openContainer stack rest 0x7b 0x7d .keyOrEnd
  else if c = 0x5b then openContainer stack rest 0x5b 0x5d .value
  else if c = Json.quote then (closeString rest).map (⟨.commaOrEnd, stack, ·⟩)
  else if c = 0x74 then validKeyword stack Json.Lexeme.trueText (c :: rest)
  else if c = 0x6e then validKeyword stack Json.Lexeme.nullText (c :: rest)
  else if c = 0x66 then validKeyword stack Json.Lexeme.falseText (c :: rest)
  else if Json.isDigit c ∨ c = 0x2d then
    some ⟨.commaOrEnd, stack, rest.dropWhile validNumberChar⟩
  else none

/-- The case of `ExpectCommaOrEnd`. -/
def validateCommaOrEnd (stack : List UInt8) (c : UInt8) (rest : List UInt8) :
    Option Validator :=
  if c = 0x2c then
    match skipWs rest with
    | [] => none
    | d :: rest =>
        if d = 0x7d ∨ d = 0x5d then none
        else some ⟨if stack.head? = some 0x7b then .keyOrEnd else .value, stack, d :: rest⟩
  else if c = 0x7d then closeContainer stack rest 0x7b
  else if c = 0x5d then closeContainer stack rest 0x5b
  else none

/-- One round of the loop; there is no result where `validate` returns false. -/
def validateStep (state : Expects) (stack : List UInt8) (c : UInt8) (rest : List UInt8) :
    Option Validator :=
  match state with
  | .value => validateValue stack c rest
  | .keyOrEnd =>
      if c = 0x7d then closeContainer stack rest 0x7b
      else if c = Json.quote then (closeString rest).map (⟨.colon, stack, ·⟩)
      else none
  | .colon => if c = 0x3a then some ⟨.value, stack, rest⟩ else none
  | .commaOrEnd => validateCommaOrEnd stack c rest

def validateLoop : Nat → Validator → Bool
  | 0, _ => false
  | fuel + 1, v =>
      match v.rest with
      | [] => v.stack = [] && v.state = .commaOrEnd
      | c :: rest =>
          match validateStep v.state v.stack c rest with
          | none => false
          | some v => validateLoop fuel { v with rest := skipWs v.rest }

/-- Each round takes a byte at least. -/
def validate (json : List UInt8) : Bool :=
  match skipWs json with
  | [] => false
  | c :: rest => validateLoop (rest.length + 2) ⟨.value, [], c :: rest⟩

/-- What a call of `next` reports: the token and, where there is one, its value. -/
def report (token : Token) (r : JsonReader) : Token × List UInt8 :=
  (token, if token.hasValue then r.value else [])

/-- The caller's loop: up to the end of the text, an error, or the end of the data. -/
def drainLoop : Nat → JsonReader → List (Token × List UInt8) × JsonReader
  | 0, r => ([], r)
  | fuel + 1, r =>
      let (token, r) := r.next
      match token with
      | .needMoreData => ([], r)
      | .end => ([report .end r], r)
      | .error => ([report .error r], r)
      | token =>
          let (reports, r') := drainLoop fuel r
          (report token r :: reports, r')

/-- Each token takes a byte at least. -/
def drain : List (Token × List UInt8) × JsonReader := drainLoop (r.rest.length + 1) r

/-- The tokens of a text that is there as a whole. -/
def batch (json : List UInt8) : List (Token × List UInt8) := (ofText json).drain.1

/-- The tokens of a text that is fed in chunks. -/
def stream (r : JsonReader) : List (List UInt8) → List (Token × List UInt8)
  | [] => r.endOfInput.drain.1
  | chunk :: chunks =>
      let (reports, r) := (r.feed chunk).drain
      reports ++ stream r chunks

end JsonReader

end Ebus
