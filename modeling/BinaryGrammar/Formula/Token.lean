import BinaryGrammar.Formula.Basic

/-!
# Tokens of a formula

Characters are read one at a time. What has been read of a token that may still grow is the
`Mode`; a character that cannot continue it ends the token and begins the next one. Between tokens
there may be any number of spaces, tabs, carriage returns and line feeds.
-/

set_option autoImplicit false

namespace BinaryGrammar.Formula

/-- The smallest parts of a formula. A minus sign is an operator here, and the parser decides
whether it stands before an operand or between two. -/
inductive Token where
  | number (text : String)
  | path (names : List String)
  | op (op : BinaryOp)
  | tilde
  | openParen
  | closeParen
  deriving DecidableEq, Repr

/-- The separators of tokens. -/
def isSpace (c : Char) : Bool := c == ' ' || c == '\t' || c == '\r' || c == '\n'

/-- The characters that can begin a name. -/
def isNameStart (c : Char) : Bool := c.isAlpha || c == '_'

/-- The characters that can continue a name. -/
def isNamePart (c : Char) : Bool := c.isAlphanum || c == '_'

/-- The digits of each base. -/
def isDigitOf (base : Nat) (c : Char) : Bool :=
  match base with
  | 2 => c == '0' || c == '1'
  | 8 => '0' ≤ c && c ≤ '7'
  | 10 => c.isDigit
  | _ => c.isDigit || ('a' ≤ c && c ≤ 'f') || ('A' ≤ c && c ≤ 'F')

/-- What has been read of a token that may still grow. Characters and names are kept newest
first. -/
inductive Mode where
  /-- No token has begun. -/
  | idle
  /-- A single zero, which a base mark may follow. -/
  | zero
  /-- A zero and a base mark, which a digit must follow. -/
  | marked (base : Nat) (mark : Char)
  /-- A number that more digits may follow. -/
  | digits (base : Nat) (text : List Char)
  /-- A name, after the names before its dots. -/
  | name (before : List String) (text : List Char)
  /-- A dot, which a name must follow. -/
  | dot (before : List String)
  /-- Half of a shift operator. -/
  | half (op : BinaryOp)
  deriving DecidableEq, Repr

namespace Mode

/-- The mode and the finished token after a character that begins a token. -/
def begin (c : Char) : Option (List Token × Mode) :=
  if isSpace c then some ([], idle)
  else if c == '0' then some ([], zero)
  else if c.isDigit then some ([], digits 10 [c])
  else if isNameStart c then some ([], name [] [c])
  else match c with
    | '+' => some ([.op .add], idle)
    | '-' => some ([.op .subtract], idle)
    | '*' => some ([.op .multiply], idle)
    | '/' => some ([.op .divide], idle)
    | '%' => some ([.op .remainder], idle)
    | '&' => some ([.op .and], idle)
    | '|' => some ([.op .or], idle)
    | '^' => some ([.op .xor], idle)
    | '~' => some ([.tilde], idle)
    | '(' => some ([.openParen], idle)
    | ')' => some ([.closeParen], idle)
    | '<' => some ([], half .shiftLeft)
    | '>' => some ([], half .shiftRight)
    | _ => none

/-- The token a mode stands for when nothing more belongs to it; none where more is needed. -/
def finish : Mode → Option (List Token)
  | idle => some []
  | zero => some [.number "0"]
  | marked _ _ => none
  | digits _ text => some [.number (String.ofList text.reverse)]
  | name before text => some [.path (before.reverse ++ [String.ofList text.reverse])]
  | dot _ => none
  | half _ => none

/-- End the token read so far and begin the next one. -/
def turn (mode : Mode) (c : Char) : Option (List Token × Mode) :=
  match mode.finish, begin c with
  | some ended, some (begun, next) => some (ended ++ begun, next)
  | _, _ => none

/-- Read one character. -/
def step (mode : Mode) (c : Char) : Option (List Token × Mode) :=
  match mode with
  | idle => begin c
  | zero =>
    if c == 'x' || c == 'X' then some ([], marked 16 c)
    else if c == 'o' || c == 'O' then some ([], marked 8 c)
    else if c == 'b' || c == 'B' then some ([], marked 2 c)
    else if c.isDigit then some ([], digits 10 [c, '0'])
    else turn mode c
  | marked base mark => if isDigitOf base c then some ([], digits base [c, mark, '0']) else none
  | digits base text => if isDigitOf base c then some ([], digits base (c :: text)) else turn mode c
  | name before text =>
    if isNamePart c then some ([], name before (c :: text))
    else if c == '.' then some ([], dot (String.ofList text.reverse :: before))
    else turn mode c
  | dot before => if isNameStart c then some ([], name before [c]) else none
  | half .shiftLeft => if c == '<' then some ([.op .shiftLeft], idle) else none
  | half op => if c == '>' then some ([.op op], idle) else none

end Mode

/-- The tokens of some characters after what has been read so far. -/
def tokensFrom? : Mode → List Char → Option (List Token)
  | mode, [] => mode.finish
  | mode, c :: cs =>
    match mode.step c with
    | none => none
    | some (ended, next) =>
      match tokensFrom? next cs with
      | none => none
      | some rest => some (ended ++ rest)

/-- The tokens of a formula's text. -/
def tokens? (text : String) : Option (List Token) := tokensFrom? .idle text.toList

end BinaryGrammar.Formula
