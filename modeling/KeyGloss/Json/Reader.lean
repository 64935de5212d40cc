import KeyGloss.Json.Fault

/-!
# Reading JSON

Readers take a JSON text from left to right and stop at the first error, so a text with
several faults is reported by the first one that a reader meets. A reader of a given
type turns down a value of another type before it reads on.

The grammar, the order in which faults are met and the wording of the errors are defined here
and in `Fault`; no other reader is assumed. What is written is read back as far as settings
need it: strings, truth values, whole numbers, lists and objects of these. No theorem is about
fractions.
-/

namespace KeyGloss

/-- What is left of a text, and the place where it starts. -/
structure Cursor where
  rest : Text
  place : TextPlace := {}
  deriving DecidableEq, Repr

/-- A reader of some part of a JSON text. -/
abbrev JsonReader := EStateM JsonError Cursor

namespace JsonReader

variable {α : Type}

/-! ## Characters and places -/

/-- The next character, which is not taken. -/
def peek : JsonReader (Option Char) := fun c => .ok c.rest.head? c

/-- Takes the next character. -/
def skip : JsonReader Unit := fun c =>
  match c.rest with
  | [] => .ok () c
  | d :: rest => .ok () ⟨rest, c.place.after d⟩

/-- Fails at the place reached. -/
def fail (fault : JsonFault) : JsonReader α := fun c => .error ⟨fault, some c.place⟩ c

/-- Fails right behind the next byte. -/
def failAhead (fault : JsonFault) : JsonReader α := fun c =>
  match c.rest with
  | [] => .error ⟨fault, some c.place⟩ c
  | d :: _ => .error ⟨fault, some (c.place.afterByte d)⟩ c

/-- Fails with a fault whose place is not known yet. -/
def reject (fault : JsonFault) : JsonReader α := fun c => .error ⟨fault, none⟩ c

/-- Gives a fault without a place the place that the reader reached. -/
def located (reader : JsonReader α) : JsonReader α := fun c =>
  match reader c with
  | .error ⟨fault, none⟩ c' => .error ⟨fault, some c'.place⟩ c'
  | result => result

/-- Reads a body and then its end. The end is read also after a failure, which moves the
place that a fault without a place is given. -/
def closing (body : JsonReader α) (close : JsonReader Unit) : JsonReader α := fun c =>
  match body c with
  | .ok a c' =>
    match close c' with
    | .ok _ c'' => .ok a c''
    | .error e c'' => .error e c''
  | .error e c' =>
    match close c' with
    | .ok _ c'' => .error e c''
    | .error _ c'' => .error e c''

/-- White space of JSON. -/
def isSpace (c : Char) : Bool := c == ' ' || c == '\n' || c == '\t' || c == '\r'

/-- Takes white space and looks at what follows. -/
def peekToken : JsonReader (Option Char) := fun c =>
  let space := c.rest.takeWhile isSpace
  let c' : Cursor := ⟨c.rest.dropWhile isSpace, c.place.afterText space⟩
  .ok c'.rest.head? c'

/-- Takes the characters of a word one by one. -/
def word : Text → JsonReader Unit
  | [] => pure ()
  | expected :: more => do
    match ← peek with
    | none => fail .endInValue
    | some c =>
      if c = expected then skip; word more
      else failAhead .noWord

/-! ## Strings -/

/-- The value of a digit of base sixteen. -/
def hexValue? (c : Char) : Option Nat :=
  if c.isDigit then some (c.toNat - '0'.toNat)
  else if 'a' ≤ c ∧ c ≤ 'f' then some (c.toNat - 'a'.toNat + 10)
  else if 'A' ≤ c ∧ c ≤ 'F' then some (c.toNat - 'A'.toNat + 10)
  else none

/-- The number of bytes of a text. -/
def byteLength (t : Text) : Nat := t.foldl (fun n c => n + c.utf8Size) 0

/-- The number that four digits spell; else a fault, and after how many bytes. -/
def hexEscape (t : Text) : Except (JsonFault × Nat) Nat :=
  if byteLength t < 4 then .error (.endInString, byteLength t)
  else
    match (t.take 4).mapM hexValue? with
    | some [a, b, c, d] => .ok (((a * 16 + b) * 16 + c) * 16 + d)
    | _ => .error (.badEscape, 4)

/-- A fault some bytes further on. -/
def shiftFault (n : Nat) : Except (JsonFault × Nat) α → Except (JsonFault × Nat) α
  | .ok a => .ok a
  | .error (fault, m) => .error (fault, n + m)

/-- Whether a number is the first half of a pair of surrogates. -/
def isLeading (n : Nat) : Bool := 0xD800 ≤ n && n ≤ 0xDBFF

/-- Whether a number is the second half of a pair of surrogates. -/
def isTrailing (n : Nat) : Bool := 0xDC00 ≤ n && n ≤ 0xDFFF

/-- The second half of a pair of surrogates: the character of the pair. -/
def trailingEscape (leading : Nat) : Text → Except (JsonFault × Nat) Char
  | '\\' :: 'u' :: t =>
    match shiftFault 2 (hexEscape t) with
    | .ok trailing =>
      if isTrailing trailing then
        .ok (Char.ofNat ((leading - 0xD800) * 0x400 + (trailing - 0xDC00) + 0x10000))
      else .error (.loneSurrogate, 6)
    | .error e => .error e
  | ['\\'] => .error (.endInString, 1)
  | '\\' :: _ => .error (.shortHexEscape, 2)
  | [] => .error (.endInString, 0)
  | _ => .error (.shortHexEscape, 1)

/-- The character that a letter after a backslash stands for. -/
def simpleEscape? : Char → Option Char
  | '"' => some '"'
  | '\\' => some '\\'
  | '/' => some '/'
  | 'b' => some '\x08'
  | 'f' => some '\x0c'
  | 'n' => some '\n'
  | 'r' => some '\r'
  | 't' => some '\t'
  | _ => none

/-- The character of an escape after its backslash, and how many characters spell it; else a
fault, and after how many bytes. -/
def escape : Text → Except (JsonFault × Nat) (Char × Nat)
  | [] => .error (.endInString, 0)
  | 'u' :: t =>
    match shiftFault 1 (hexEscape t) with
    | .error e => .error e
    | .ok n =>
      if isTrailing n then .error (.loneSurrogate, 5)
      else if isLeading n then
        (shiftFault 5 (trailingEscape n (t.drop 4))).map fun c => (c, 11)
      else .ok (Char.ofNat n, 5)
  | c :: _ =>
    match simpleEscape? c with
    | some d => .ok (d, 1)
    | none => .error (.badEscape, 1)

/-- A character that may not stand in a string as it is. -/
def isControl (c : Char) : Bool := c.toNat < 0x20

/-- The rest of a string; `taken` holds what was read, last character first. -/
def stringFrom (taken : Text) (t : Text) (p : TextPlace) : EStateM.Result JsonError Cursor Text :=
  match t with
  | [] => .error ⟨.endInString, some p⟩ ⟨[], p⟩
  | c :: rest =>
    if c = '"' then .ok taken.reverse ⟨rest, p.after c⟩
    else if c = '\\' then
      match escape rest with
      | .ok (d, n) => stringFrom (d :: taken) (rest.drop n) ((p.after c).afterText (rest.take n))
      | .error (fault, n) => .error ⟨fault, some ((p.after c).afterBytes n rest)⟩ ⟨rest, p⟩
    else if isControl c then .error ⟨.controlCharacter, some (p.after c)⟩ ⟨rest, p⟩
    else stringFrom (c :: taken) rest (p.after c)
termination_by t.length
decreasing_by
  all_goals simp only [List.length_cons, List.length_drop]; omega

/-- Reads a string after its opening quote. -/
def stringTail : JsonReader Text := fun c => stringFrom [] c.rest c.place

/-- The rest of a string that nobody looks at: its escapes are checked less, and a control
character is reported before it is taken. -/
def ignoreStringFrom (t : Text) (p : TextPlace) : EStateM.Result JsonError Cursor Unit :=
  match t with
  | [] => .error ⟨.endInString, some p⟩ ⟨[], p⟩
  | c :: rest =>
    if c = '"' then .ok () ⟨rest, p.after c⟩
    else if c = '\\' then
      match rest with
      | [] => .error ⟨.endInString, some (p.after c)⟩ ⟨[], p⟩
      | 'u' :: t' =>
        match shiftFault 1 (hexEscape t') with
        | .ok _ => ignoreStringFrom (t'.drop 4) ((p.after c).afterText ('u' :: t'.take 4))
        | .error (fault, n) => .error ⟨fault, some ((p.after c).afterBytes n rest)⟩ ⟨rest, p⟩
      | d :: t' =>
        if (simpleEscape? d).isSome then ignoreStringFrom t' ((p.after c).after d)
        else .error ⟨.badEscape, some ((p.after c).afterByte d)⟩ ⟨rest, p⟩
    else if isControl c then .error ⟨.controlCharacter, some p⟩ ⟨rest, p⟩
    else ignoreStringFrom rest (p.after c)
termination_by t.length
decreasing_by
  all_goals simp only [List.length_cons, List.length_drop]; omega

/-- Takes a string after its opening quote. -/
def ignoreString : JsonReader Unit := fun c => ignoreStringFrom c.rest c.place

/-! ## Numbers -/

/-- The largest whole number that is kept as it is. -/
def maxNatural : Nat := Nat.pow 2 64 - 1

/-- The largest exponent that is kept. -/
def maxExponent : Nat := Nat.pow 2 31 - 1

/-- Takes the digits that come next. -/
def digits : JsonReader Text := fun c =>
  let ds := c.rest.takeWhile Char.isDigit
  .ok ds ⟨c.rest.dropWhile Char.isDigit, c.place.afterText ds⟩

/-- Extends a number by digits for as long as it stays within bounds; the second result
counts the digits that were used. -/
def extend (bound : Nat) (n used : Nat) : Text → Nat × Nat
  | [] => (n, used)
  | d :: ds =>
    let next := n * 10 + (d.toNat - '0'.toNat)
    if bound < next then (n, used) else extend bound next (used + 1) ds

/-- A quotient rounded to a double, or zero where it is too large. -/
def double (q : Quotient) : Binary := (Binary.round? .double q).getD ⟨0, 0⟩

/-- A double divided by a power of ten, which is itself a double. -/
def divideByPower (b : Binary) (k : Nat) : Binary :=
  let power := (double ⟨Nat.pow 10 k, 1⟩).value
  double (b.value.mul ⟨power.den, power.num⟩)

/-- A double multiplied by a power of ten, which is itself a double. -/
def multiplyByPower? (b : Binary) (k : Nat) : Option Binary :=
  Binary.round? .double (b.value.mul (double ⟨Nat.pow 10 k, 1⟩).value)

/-- The largest power of ten that is a double. -/
def maxPower : Nat := 308

/-- A double divided by powers of ten whose exponents sum up to `k`, the largest power
at a time. -/
def scaleDown (b : Binary) (k : Nat) : Nat → Binary
  | 0 => ⟨0, 0⟩
  | fuel + 1 =>
    if k ≤ maxPower then divideByPower b k
    else if b.mantissa = 0 then b
    else scaleDown (divideByPower b maxPower) (k - maxPower) fuel

/-- The number `n · 10 ^ exponent` as a double, computed by one multiplication or
division of doubles where the exponent allows. Three divisions by the largest power
leave nothing of the largest whole number. -/
def fraction (isNegative : Bool) (n : Nat) (exponent : Int) : JsonReader JsonNumber :=
  let whole := double ⟨n, 1⟩
  match exponent with
  | .ofNat k =>
    if k ≤ maxPower then
      match multiplyByPower? whole k with
      | some b => pure (.fraction isNegative b)
      | none => fail .outOfRange
    else if n = 0 then pure (.fraction isNegative whole)
    else fail .outOfRange
  | .negSucc k => pure (.fraction isNegative (scaleDown whole (k + 1) 4))

/-- The digits of an exponent after the first, within bounds: its value, or nothing
right behind the digit that leaves the bounds. -/
def exponentDigits (n : Nat) (t : Text) (p : TextPlace) : Option Nat × Cursor :=
  match t with
  | [] => (some n, ⟨[], p⟩)
  | d :: rest =>
    if d.isDigit then
      let next := n * 10 + (d.toNat - '0'.toNat)
      if maxExponent < next then (none, ⟨rest, p.after d⟩)
      else exponentDigits next rest (p.after d)
    else (some n, ⟨d :: rest, p⟩)

/-- Reads the digits of an exponent. -/
def exponentValue (first : Nat) : JsonReader (Option Nat) := fun c =>
  let (value, c') := exponentDigits first c.rest c.place
  .ok value c'

/-- Reads an exponent after its mark, for the number `n · 10 ^ start`. -/
def exponentTail (isNegative : Bool) (n : Nat) (start : Int) : JsonReader JsonNumber := do
  let sign ← peek
  if sign = some '+' || sign = some '-' then skip
  match ← peek with
  | none => fail .endInValue
  | some d =>
    if d.isDigit then
      skip
      match ← exponentValue (d.toNat - '0'.toNat) with
      | some e => fraction isNegative n (if sign = some '-' then start - e else start + e)
      | none =>
        if n ≠ 0 ∧ sign ≠ some '-' then fail .outOfRange
        else
          let _ ← digits
          pure (.fraction isNegative ⟨0, 0⟩)
    else failAhead .badNumber

/-- Reads what may follow the digits of a fraction. -/
def afterFraction (isNegative : Bool) (n : Nat) (exponent : Int) : JsonReader JsonNumber := do
  match ← peek with
  | some 'e' | some 'E' => skip; exponentTail isNegative n exponent
  | _ => fraction isNegative n exponent

/-- Reads the digits after a point, for the number `n · 10 ^ start`. -/
def fractionTail (isNegative : Bool) (n : Nat) (start : Int) : JsonReader JsonNumber := do
  let ds ← digits
  if ds.isEmpty then
    match ← peek with
    | some _ => failAhead .badNumber
    | none => failAhead .endInValue
  else
    let (n, used) := extend maxNatural n 0 ds
    afterFraction isNegative n (start - used)

/-- A whole number of the given sign; zero and numbers beyond 64 bits have no negative
whole number. -/
def wholeNumber (isNegative : Bool) (n : Nat) : JsonNumber :=
  if !isNegative then .natural n
  else if n = 0 ∨ Nat.pow 2 63 < n then .fraction true (double ⟨n, 1⟩)
  else .negative n

/-- Reads what may follow the whole digits of a number; `dropped` of them did not fit. -/
def afterWhole (isNegative : Bool) (n dropped : Nat) : JsonReader JsonNumber := do
  match ← peek with
  | some '.' => skip; fractionTail isNegative n dropped
  | some 'e' | some 'E' => skip; exponentTail isNegative n dropped
  | _ => if dropped = 0 then pure (wholeNumber isNegative n) else fraction isNegative n dropped

/-- Reads a number after its sign. -/
def numberTail (isNegative : Bool) : JsonReader JsonNumber := do
  match ← peek with
  | none => fail .endInValue
  | some '0' =>
    skip
    match ← peek with
    | some d => if d.isDigit then failAhead .badNumber else afterWhole isNegative 0 0
    | none => afterWhole isNegative 0 0
  | some d =>
    if d.isDigit then
      let ds ← digits
      let (n, used) := extend maxNatural 0 0 ds
      afterWhole isNegative n (ds.length - used)
    else failAhead .badNumber

/-- Takes an exponent that nobody looks at, after its mark. -/
def ignoreExponent : JsonReader Unit := do
  let sign ← peek
  if sign = some '+' || sign = some '-' then skip
  match ← peek with
  | some d =>
    if d.isDigit then
      let _ ← digits
    else failAhead .badNumber
  | none => fail .badNumber

/-- Takes a number that nobody looks at, after its sign. -/
def ignoreNumber : JsonReader Unit := do
  match ← peek with
  | some '0' =>
    skip
    match ← peek with
    | some d => if d.isDigit then failAhead .badNumber
    | none => pure ()
  | some d =>
    if d.isDigit then
      let _ ← digits
    else failAhead .badNumber
  | none => fail .badNumber
  match ← peek with
  | some '.' =>
    skip
    let ds ← digits
    if ds.isEmpty then failAhead .badNumber
    match ← peek with
    | some 'e' | some 'E' => skip; ignoreExponent
    | _ => pure ()
  | some 'e' | some 'E' => skip; ignoreExponent
  | _ => pure ()

/-! ## Arrays and objects -/

/-- Moves to the next element of an array, if there is one. -/
def nextElement (first : Bool) : JsonReader Bool := do
  match ← peekToken with
  | none => failAhead .endInArray
  | some ']' => pure false
  | some c =>
    if first then pure true
    else if c = ',' then
      skip
      match ← peekToken with
      | some ']' => failAhead .trailingComma
      | some _ => pure true
      | none => failAhead .endInValue
    else failAhead .noArrayEnd

/-- Moves to the key of the next member of an object, if there is one. -/
def nextMember (first : Bool) : JsonReader Bool := do
  match ← peekToken with
  | none => failAhead .endInObject
  | some '\x7d' => pure false
  | some c =>
    if first then
      if c = '"' then pure true else failAhead .keyNotString
    else if c = ',' then
      skip
      match ← peekToken with
      | some '"' => pure true
      | some '\x7d' => failAhead .trailingComma
      | some _ => failAhead .keyNotString
      | none => failAhead .endInValue
    else failAhead .noObjectEnd

/-- Reads a key. -/
def key : JsonReader Text := do
  skip
  stringTail

/-- Takes the colon after a key. -/
def colon : JsonReader Unit := do
  match ← peekToken with
  | some ':' => skip
  | some _ => failAhead .noColon
  | none => failAhead .endInObject

/-- Takes the end of an array. -/
def endArray : JsonReader Unit := do
  match ← peekToken with
  | some ']' => skip
  | some ',' =>
    skip
    match ← peekToken with
    | some ']' => failAhead .trailingComma
    | _ => failAhead .trailingCharacters
  | some _ => failAhead .trailingCharacters
  | none => failAhead .endInArray

/-- Takes the end of an object. -/
def endObject : JsonReader Unit := do
  match ← peekToken with
  | some '\x7d' => skip
  | some ',' => failAhead .trailingComma
  | some _ => failAhead .trailingCharacters
  | none => failAhead .endInObject

/-- Checks that nothing but white space is left. -/
def finish : JsonReader Unit := do
  match ← peekToken with
  | some _ => failAhead .trailingCharacters
  | none => pure ()

/-! ## Values -/

/-- How deep arrays and objects may nest, plus one. -/
def depthLimit : Nat := 128

/-- Sets a member: a name that is there keeps its place and takes the new value. -/
def setMember (name : Text) (value : Json) : List (Text × Json) → List (Text × Json)
  | [] => [(name, value)]
  | (n, v) :: rest => if n = name then (n, value) :: rest else (n, v) :: setMember name value rest

mutual

/-- Reads a value; `depth` levels may be opened, less one. -/
def value (depth : Nat) : Nat → JsonReader Json
  | 0 => fail .tooDeep
  | fuel + 1 => do
    match ← peekToken with
    | none => failAhead .endInValue
    | some 'n' => skip; word "ull"; pure .null
    | some 't' => skip; word "rue"; pure (.bool true)
    | some 'f' => skip; word "alse"; pure (.bool false)
    | some '"' => skip; return .string (← stringTail)
    | some '-' => skip; return .number (← numberTail true)
    | some '[' =>
      if depth ≤ 1 then failAhead .tooDeep
      else
        skip
        return .array (← closing (elements (depth - 1) true fuel) endArray)
    | some '\x7b' =>
      if depth ≤ 1 then failAhead .tooDeep
      else
        skip
        return .object (← closing (members (depth - 1) true [] fuel) endObject)
    | some c => if c.isDigit then return .number (← numberTail false) else failAhead .noValue

/-- Reads the elements of an array. -/
def elements (depth : Nat) (first : Bool) : Nat → JsonReader (List Json)
  | 0 => fail .tooDeep
  | fuel + 1 => do
    if ← nextElement first then
      let element ← value depth fuel
      return element :: (← elements depth false fuel)
    else pure []

/-- Reads the members of an object after those read before. -/
def members (depth : Nat) (first : Bool) (before : List (Text × Json)) :
    Nat → JsonReader (List (Text × Json))
  | 0 => fail .tooDeep
  | fuel + 1 => do
    if ← nextMember first then
      let name ← key
      colon
      let v ← value depth fuel
      members depth false (setMember name v before) fuel
    else pure before

end

/-- A bound on the calls that one value takes: each call takes a character or leads to
one that does. -/
def fuelFor (t : Text) : Nat := 2 * t.length + 4

/-! ## Values of a given type -/

/-- Turns down a value of another type than `expected`. -/
def wrongType (expected : Text) : JsonReader α := do
  match ← peek with
  | some 'n' => skip; word "ull"; reject (.invalidType .null expected)
  | some 't' => skip; word "rue"; reject (.invalidType (.bool true) expected)
  | some 'f' => skip; word "alse"; reject (.invalidType (.bool false) expected)
  | some '-' => skip; reject (.invalidType (.number (← numberTail true)) expected)
  | some '"' => skip; reject (.invalidType (.string (← stringTail)) expected)
  | some '[' => reject (.invalidType .array expected)
  | some '\x7b' => reject (.invalidType .object expected)
  | some c =>
    if c.isDigit then reject (.invalidType (.number (← numberTail false)) expected)
    else failAhead .noValue
  | none => failAhead .noValue

/-- Reads a string whose meaning `interpret` finds; `expected` names the type. -/
def stringOf (expected : Text) (interpret : Text → Except JsonFault α) : JsonReader α :=
  located do
    match ← peekToken with
    | none => failAhead .endInValue
    | some '"' =>
      skip
      match interpret (← stringTail) with
      | .ok a => pure a
      | .error fault => reject fault
    | some _ => wrongType expected

/-- Reads a string. -/
def text : JsonReader Text := stringOf "a string" .ok

/-- Reads a truth value. -/
def bool : JsonReader Bool :=
  located do
    match ← peekToken with
    | none => failAhead .endInValue
    | some 't' => skip; word "rue"; pure true
    | some 'f' => skip; word "alse"; pure false
    | some _ => wrongType "a boolean"

/-- Reads a null. -/
def unit : JsonReader Unit :=
  located do
    match ← peekToken with
    | none => failAhead .endInValue
    | some 'n' => skip; word "ull"
    | some _ => wrongType "unit"

/-- A number as a whole number of 64 bits. -/
def asNatural (expected : Text) : JsonNumber → Except JsonFault UInt64
  | .natural n => .ok (UInt64.ofNat n)
  | .negative n => .error (.invalidValue (.number (.negative n)) expected)
  | .fraction isNegative b => .error (.invalidType (.number (.fraction isNegative b)) expected)

/-- Reads a whole number of 64 bits; `expected` names its type. -/
def natural (expected : Text) : JsonReader UInt64 :=
  located do
    let convert : JsonNumber → JsonReader UInt64 := fun n =>
      match asNatural expected n with
      | .ok w => pure w
      | .error fault => reject fault
    match ← peekToken with
    | none => failAhead .endInValue
    | some '-' => skip; convert (← numberTail true)
    | some c => if c.isDigit then convert (← numberTail false) else wrongType expected

/-- Reads a null or what `reader` reads. -/
def optional (reader : JsonReader α) : JsonReader (Option α) := do
  match ← peekToken with
  | some 'n' => skip; word "ull"; pure none
  | _ => return some (← reader)

/-- Reads elements of one type. -/
def elementsOf (reader : JsonReader α) (first : Bool) : Nat → JsonReader (List α)
  | 0 => fail .tooDeep
  | fuel + 1 => do
    if ← nextElement first then
      let element ← reader
      return element :: (← elementsOf reader false fuel)
    else pure []

/-- Reads an array whose elements `reader` reads. -/
def list (reader : JsonReader α) : JsonReader (List α) :=
  located do
    match ← peekToken with
    | none => failAhead .endInValue
    | some '[' =>
      skip
      let c ← get
      closing (elementsOf reader true (fuelFor c.rest)) endArray
    | some _ => wrongType "a sequence"

/-! ## Ignored values -/

/-- An array or an object that is open. -/
inductive Frame where
  | array
  | object
  deriving DecidableEq, Repr

/-- The fault of a text that ends inside a frame. -/
def Frame.ended : Frame → JsonFault
  | .array => .endInArray
  | .object => .endInObject

/-- The fault of an element that neither a comma nor the end follows. -/
def Frame.unended : Frame → JsonFault
  | .array => .noArrayEnd
  | .object => .noObjectEnd

/-- The character that ends a frame. -/
def Frame.close : Frame → Char
  | .array => ']'
  | .object => '\x7d'

/-- Takes a scalar, or opens a frame. -/
def ignoreStart : JsonReader (Option Frame) := do
  match ← peekToken with
  | none => failAhead .endInValue
  | some 'n' => skip; word "ull"; pure none
  | some 't' => skip; word "rue"; pure none
  | some 'f' => skip; word "alse"; pure none
  | some '-' => skip; ignoreNumber; pure none
  | some '"' => skip; ignoreString; pure none
  | some '[' => skip; pure (some .array)
  | some '\x7b' => skip; pure (some .object)
  | some c => if c.isDigit then ignoreNumber; pure none else failAhead .noValue

/-- After an element (`comma` set) or an opening: closes all frames that end here. The
result holds the frames that stay open, or nothing when the outermost one ended. -/
def ignoreEnds (comma : Bool) : Nat → List Frame → JsonReader (List Frame)
  | 0, _ => fail .tooDeep
  | _, [] => pure []
  | fuel + 1, frame :: outer => do
    match ← peekToken with
    | none => failAhead frame.ended
    | some c =>
      if comma && c == ',' then skip; pure (frame :: outer)
      else if c = frame.close then skip; ignoreEnds true fuel outer
      else if comma then failAhead frame.unended
      else pure (frame :: outer)

/-- Takes the key and the colon of a member. -/
def ignoreKey : JsonReader Unit := do
  match ← peekToken with
  | some '"' => skip
  | some _ => failAhead .keyNotString
  | none => failAhead .endInObject
  ignoreString
  colon

/-- Takes values until all open frames ended. -/
def ignoreFrom : Nat → List Frame → JsonReader Unit
  | 0, _ => fail .tooDeep
  | fuel + 1, frames => do
    let opened ← ignoreStart
    let frames ← match opened with
      | some frame => ignoreEnds false (fuel + 1) (frame :: frames)
      | none => ignoreEnds true (fuel + 1) frames
    match frames with
    | [] => pure ()
    | .object :: _ => ignoreKey; ignoreFrom fuel frames
    | .array :: _ => ignoreFrom fuel frames

/-- Takes a value that nobody looks at. Any depth is accepted. -/
def ignore : JsonReader Unit := do
  let c ← get
  ignoreFrom (fuelFor c.rest) []

/-- Runs a reader on a whole text. -/
def run (reader : JsonReader α) (t : Text) : Except JsonError α :=
  let whole : JsonReader α := do
    let a ← reader
    finish
    pure a
  match whole { rest := t } with
  | .ok a _ => .ok a
  | .error e _ => .error e

end JsonReader

/-- Reads a JSON text. -/
def Json.parse (t : Text) : Except JsonError Json :=
  JsonReader.run (JsonReader.value JsonReader.depthLimit (JsonReader.fuelFor t)) t

end KeyGloss
