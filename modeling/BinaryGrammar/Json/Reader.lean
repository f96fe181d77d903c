import BinaryGrammar.Json.Basic

/-!
# Reading JSON

Characters are first grouped into tokens, one character at a time, and the tokens then build the
tree with a stack of the arrays and objects that are still open. Neither step looks ahead, so both
are recursion on a list.
-/

set_option autoImplicit false

namespace BinaryGrammar.Json

/-- The smallest parts of a JSON text. -/
inductive Token where
  | openBrace
  | closeBrace
  | openBracket
  | closeBracket
  | colon
  | comma
  | null
  | bool (value : Bool)
  | number (text : String)
  | string (body : String)
  deriving DecidableEq, Repr

/-! ## Numbers -/

/-- Drop a sign of an exponent. -/
def dropSign : List Char → List Char
  | '+' :: rest => rest
  | '-' :: rest => rest
  | cs => cs

/-- Whether some characters are one or more digits. -/
def areDigits (cs : List Char) : Bool := !cs.isEmpty && cs.all Char.isDigit

/-- Whether some characters are an exponent, or nothing. -/
def isExponent : List Char → Bool
  | [] => true
  | c :: rest => (c == 'e' || c == 'E') && areDigits (dropSign rest)

/-- Whether some characters are the part of a number after its whole digits. -/
def isNumberTail : List Char → Bool
  | '.' :: rest =>
    !(rest.takeWhile Char.isDigit).isEmpty && isExponent (rest.dropWhile Char.isDigit)
  | cs => isExponent cs

/-- Whether some characters are a number without its sign. -/
def isUnsignedNumber : List Char → Bool
  | '0' :: rest => isNumberTail rest
  | c :: rest => c.isDigit && isNumberTail (rest.dropWhile Char.isDigit)
  | [] => false

/-- Whether some characters are a number. -/
def isNumber : List Char → Bool
  | '-' :: rest => isUnsignedNumber rest
  | cs => isUnsignedNumber cs

/-! ## Tokens -/

/-- The separators of tokens. -/
def isSpace (c : Char) : Bool := c == ' ' || c == '\t' || c == '\r' || c == '\n'

/-- The characters that numbers consist of. -/
def isNumberPart (c : Char) : Bool :=
  c.isDigit || c == '-' || c == '+' || c == '.' || c == 'e' || c == 'E'

/-- What has been read of a token that may still grow, newest character first. -/
inductive Mode where
  | idle
  | word (text : List Char)
  | number (text : List Char)
  | string (body : List Char)
  /-- In a string, after a backslash. -/
  | escape (body : List Char)
  /-- In a string, with so many digits of a code unit to come. -/
  | unit (left : Nat) (body : List Char)

namespace Mode

/-- The mode and the finished token after a character that begins a token. -/
def begin (c : Char) : Option (List Token × Mode) :=
  match c with
  | '{' => some ([.openBrace], idle)
  | '}' => some ([.closeBrace], idle)
  | '[' => some ([.openBracket], idle)
  | ']' => some ([.closeBracket], idle)
  | ':' => some ([.colon], idle)
  | ',' => some ([.comma], idle)
  | '"' => some ([], string [])
  | c =>
    if isSpace c then some ([], idle)
    else if c.isDigit || c == '-' then some ([], number [c])
    else if 'a' ≤ c && c ≤ 'z' then some ([], word [c])
    else none

/-- The token a mode stands for when nothing more belongs to it; none where more is needed. -/
def finish : Mode → Option (List Token)
  | idle => some []
  | word text =>
    match String.ofList text.reverse with
    | "null" => some [.null]
    | "true" => some [.bool true]
    | "false" => some [.bool false]
    | _ => none
  | number text =>
    if isNumber text.reverse then some [.number (String.ofList text.reverse)] else none
  | _ => none

/-- End the token read so far and begin the next one. -/
def turn (mode : Mode) (c : Char) : Option (List Token × Mode) :=
  match mode.finish, begin c with
  | some ended, some (begun, next) => some (ended ++ begun, next)
  | _, _ => none

/-- Whether a character may follow the backslash of a one-character escape. -/
def isShortEscape (c : Char) : Bool :=
  c == '"' || c == '\\' || c == '/' || c == 'b' || c == 'f' || c == 'n' || c == 'r' || c == 't'

/-- Read one character. -/
def step (mode : Mode) (c : Char) : Option (List Token × Mode) :=
  match mode with
  | idle => begin c
  | word text => if 'a' ≤ c && c ≤ 'z' then some ([], word (c :: text)) else turn mode c
  | number text => if isNumberPart c then some ([], number (c :: text)) else turn mode c
  | string body =>
    if c == '"' then some ([.string (String.ofList body.reverse)], idle)
    else if c == '\\' then some ([], escape (c :: body))
    else if c.toNat < 0x20 then none
    else some ([], string (c :: body))
  | escape body =>
    if c == 'u' then some ([], unit 4 (c :: body))
    else if isShortEscape c then some ([], string (c :: body))
    else none
  | unit left body =>
    match Digits.valueIn? 16 c with
    | none => none
    | some _ =>
      if left ≤ 1 then some ([], string (c :: body)) else some ([], unit (left - 1) (c :: body))

end Mode

/-- The tokens of some characters, after those in `acc` (newest first). -/
def tokensFrom? : List Token → Mode → List Char → Option (List Token)
  | acc, mode, [] =>
    match mode.finish with
    | some ended => some (acc.reverse ++ ended)
    | none => none
  | acc, mode, c :: cs =>
    match mode.step c with
    | none => none
    | some (ended, next) => tokensFrom? (ended.reverse ++ acc) next cs

/-- The tokens of a text. -/
def tokens? (text : String) : Option (List Token) := tokensFrom? [] .idle text.toList

/-! ## Trees -/

/-- An array or object that has been opened, newest entry first. -/
inductive Open where
  | array (items : List Json)
  | object (fields : List (String × Json))
  /-- An object after a key. -/
  | field (fields : List (String × Json)) (key : String)

/-- What may come next. -/
inductive Phase where
  | value
  | firstItem
  | firstKey
  | key
  | colon
  | next
  | done (result : Json)

/-- Put a finished value where it belongs. -/
def place (value : Json) : List Open → Option (List Open × Phase)
  | [] => some ([], .done value)
  | .array items :: stack => some (.array (value :: items) :: stack, .next)
  | .field fields key :: stack => some (.object ((key, value) :: fields) :: stack, .next)
  | .object _ :: _ => none

/-- The value of a token that is a whole value. -/
def Token.scalar? : Token → Option Json
  | .null => some .null
  | .bool b => some (.bool b)
  | .number text => some (.number text)
  | .string body => some (.string body)
  | _ => none

/-- Begin a value with a token. -/
def beginValue (token : Token) (stack : List Open) : Option (List Open × Phase) :=
  match token with
  | .openBracket => some (.array [] :: stack, .firstItem)
  | .openBrace => some (.object [] :: stack, .firstKey)
  | _ =>
    match token.scalar? with
    | some value => place value stack
    | none => none

/-- Read a key. -/
def readKey (token : Token) (stack : List Open) : Option (List Open × Phase) :=
  match token, stack with
  | .string body, .object fields :: stack' => some (.field fields body :: stack', .colon)
  | _, _ => none

/-- Close the innermost array or object, if the token does so. -/
def close (token : Token) (stack : List Open) : Option (List Open × Phase) :=
  match token, stack with
  | .closeBracket, .array items :: stack' => place (.array items.reverse) stack'
  | .closeBrace, .object fields :: stack' => place (.object fields.reverse) stack'
  | _, _ => none

/-- Read one token. -/
def readToken (token : Token) (stack : List Open) : Phase → Option (List Open × Phase)
  | .value => beginValue token stack
  | .firstItem => if token = .closeBracket then close token stack else beginValue token stack
  | .firstKey => if token = .closeBrace then close token stack else readKey token stack
  | .key => readKey token stack
  | .colon => if token = .colon then some (stack, .value) else none
  | .next =>
    if token = .comma then
      match stack with
      | .array _ :: _ => some (stack, .value)
      | .object _ :: _ => some (stack, .key)
      | _ => none
    else close token stack
  | .done _ => none

/-- Read tokens, given what is open and what may come next. -/
def build? : List Token → List Open → Phase → Option Json
  | [], [], .done value => some value
  | [], _, _ => none
  | token :: tokens, stack, phase =>
    match readToken token stack phase with
    | some (stack', phase') => build? tokens stack' phase'
    | none => none

/-- The tree of a JSON text. -/
def parse? (text : String) : Option Json :=
  match tokens? text with
  | some tokens => build? tokens [] .value
  | none => none

end BinaryGrammar.Json
