/-!
# `withoutControls` — text with nothing left in it that steers a terminal

Text for a terminal may hold control characters and control sequences (ECMA-48). A sequence begins
at the escape character, and the character after that says how long it goes on:

* `[` begins a control sequence, which a character from `@` to `~` ends;
* `]` begins a system command, which the bell ends;
* `P`, `X`, `^` and `_` begin a string, which the string terminator ends;
* anything else is a sequence of its own, perhaps after intermediate characters.

An escape character inside a sequence begins a new one, and cancel or substitute ends any. A line
break, tab or form feed is text, and what was begun before it is given up; only commands and
strings swallow it.
-/

set_option autoImplicit false

namespace RowQuery
namespace ControlSequence

/-- Where in a sequence a text stands. -/
inductive Place where
  /-- In no sequence. -/
  | ground
  /-- After the escape character. -/
  | escape
  /-- After intermediate characters that follow the escape character. -/
  | intermediate
  | control
  | command
  | string
deriving DecidableEq, Repr

def isLayout (c : Char) : Bool := c == '\t' || c == '\n' || c == '\x0c' || c == '\r'

/-- Whether a character outside every sequence is text: all but the control characters of ASCII
that lay nothing out. -/
def isText (c : Char) : Bool := isLayout c || (' ' ≤ c && c != '\x7f')

/-- The string terminator is the octet `0x9C`, wherever it stands in the UTF-8 form. -/
def endsString (c : Char) : Bool := (String.utf8EncodeChar c).contains 0x9C

/-- The place after the character that follows the escape character. -/
def afterEscape (c : Char) : Place :=
  match c with
  | '[' => .control
  | ']' => .command
  | 'P' => .string
  | 'X' => .string
  | '^' => .string
  | '_' => .string
  | _ =>
    if ' ' ≤ c && c ≤ '/' then .intermediate
    else if '0' ≤ c && c ≤ '~' then .ground
    else .escape

/-- Whether a character is text, and the place after it. -/
def step (place : Place) (c : Char) : Bool × Place :=
  -- a layout character gives up what was begun before it
  let orLayout (after : Place) : Bool × Place :=
    if isLayout c then (true, .ground) else (false, after)
  match c, place with
  | '\x1b', _ => (false, .escape)
  | '\x18', _ => (false, .ground)
  | '\x1a', _ => (false, .ground)
  | _, .ground => (isText c, .ground)
  | _, .escape => orLayout (afterEscape c)
  | _, .intermediate => orLayout (if '0' ≤ c && c ≤ '~' then .ground else .intermediate)
  | _, .control => orLayout (if '@' ≤ c && c ≤ '~' then .ground else .control)
  | _, .command => (false, if c = '\x07' then .ground else .command)
  | _, .string => (false, if endsString c then .ground else .string)

def textFrom : Place → List Char → List Char
  | _, [] => []
  | place, c :: rest =>
    match step place c with
    | (true, after) => c :: textFrom after rest
    | (false, after) => textFrom after rest

end ControlSequence

/-- The text without control characters and control sequences. -/
def withoutControls (text : String) : String :=
  String.ofList (ControlSequence.textFrom .ground text.toList)

end RowQuery
