import TemplateMarkup.Text.Basic

/-!
# Filter chains

`value | trim | pad(3)` is compiled to nested calls, `_f("pad")(_f("trim")(value),3)`. A single
vertical bar separates the value from its filters where it stands in no literal and in no brackets;
two bars are an operator of the value.

* `Reader` is the state of the reading: the literal it is in, the depth of the brackets, and the
  parts read so far,
* `parts` are the value and its filters,
* `compile` is the expression with its filters applied.
-/

namespace TemplateMarkup
namespace FilterChain

/-- What the reading is in: plain code, or one of the four kinds of literals. -/
inductive Mode where
  | code
  | single
  | double
  | template
  | regex
  deriving DecidableEq, Repr

/-- The character that ends a literal, unless a backslash stands before it. -/
def Mode.delimiter? : Mode → Option Char
  | code => none
  | single => some '\''
  | double => some '"'
  | template => some '\x60'
  | regex => some '/'

structure Reader where
  mode : Mode := .code
  curly : Int := 0
  square : Int := 0
  paren : Int := 0
  /-- The character before. -/
  previous : Option Char := none
  /-- The last character that is no space. -/
  solid : Option Char := none
  /-- The parts that have ended, newest first. -/
  ended : List (List Char) := []
  /-- The part being read, newest character first. -/
  current : List Char := []
  deriving DecidableEq, Repr

namespace Reader

/-- Whether a slash after `c` is a division; after anything else it starts a regular expression. -/
def leavesOperand (c : Char) : Bool :=
  c.isAlphanum || c == ')' || c == '.' || c == '+' || c == '-' || c == '_' || c == '$' || c == ']'

/-- Whether `c`, before `next`, separates two parts. -/
def separates (r : Reader) (c : Char) (next : Option Char) : Bool :=
  c == '|' && next != some '|' && r.previous != some '|' &&
    r.curly == 0 && r.square == 0 && r.paren == 0

/-- Reads a character of plain code that separates nothing. -/
def readCode (r : Reader) (c : Char) : Reader :=
  match c with
  | '"' => { r with mode := .double }
  | '\'' => { r with mode := .single }
  | '\x60' => { r with mode := .template }
  | '(' => { r with paren := r.paren + 1 }
  | ')' => { r with paren := r.paren - 1 }
  | '[' => { r with square := r.square + 1 }
  | ']' => { r with square := r.square - 1 }
  | '\x7b' => { r with curly := r.curly + 1 }
  | '\x7d' => { r with curly := r.curly - 1 }
  | '/' => if r.solid.any leavesOperand then r else { r with mode := .regex }
  | _ => r

/-- Adds `c` to the part being read. -/
def keep (r : Reader) (c : Char) : Reader :=
  { r with
    previous := some c
    solid := if c = ' ' then r.solid else some c
    current := c :: r.current }

/-- Ends the part being read at the separator `c`. -/
def separate (r : Reader) (c : Char) : Reader :=
  { r with
    previous := some c
    solid := some c
    ended := r.current.reverse :: r.ended
    current := [] }

/-- Reads `c`, which `next` follows. -/
def step (r : Reader) (c : Char) (next : Option Char) : Reader :=
  match r.mode.delimiter? with
  | some mark =>
      if c = mark ∧ r.previous ≠ some '\\' then { r with mode := .code }.keep c else r.keep c
  | none => if r.separates c next then r.separate c else (r.readCode c).keep c

/-- Reads a text to its end. -/
def read (r : Reader) : List Char → Reader
  | [] => r
  | c :: cs => (r.step c cs.head?).read cs

/-- All parts, in order, and the last one as far as it is read. -/
def parts (r : Reader) : List (List Char) :=
  r.ended.reverse ++ [r.current.reverse]

end Reader

/-- The value and its filters, as written. -/
def parts (cs : List Char) : List (List Char) :=
  (({} : Reader).read cs).parts

/-- Applies one filter: `name` to the value alone, `name(args)` to the value and the arguments. -/
def apply (value filter : List Char) : List Char :=
  match Text.breakOn? [ '(' ] filter with
  | none => "_f(\"".toList ++ filter ++ "\")(".toList ++ value ++ ")".toList
  | some (name, args) =>
      let comma := if args = [ ')' ] then [] else [ ',' ]
      "_f(\"".toList ++ name ++ "\")(".toList ++ value ++ comma ++ args

def compileChars (cs : List Char) : List Char :=
  match (parts cs).map Text.trim with
  | [] => []
  | value :: filters => filters.foldl apply value

/-- The expression with its filters applied, the first one innermost. -/
def compile (expression : String) : String :=
  String.ofList (compileChars expression.toList)

end FilterChain
end TemplateMarkup
