import TemplateMarkup.Check.Glob.Basic

/-!
# Matching globs

`Glob.covers` tests a whole path, byte by byte: `Token.rests` is all that can be left of a path
after a token, and a pattern stands for a path after which nothing can be left.
-/

namespace TemplateMarkup
namespace Glob

def slash : UInt8 := 47

/-- All that can be left of `bs` after any number of bytes. -/
def suffixes : List UInt8 → List (List UInt8)
  | [] => [[]]
  | b :: bs => (b :: bs) :: suffixes bs

/-- All that can be left of `bs` after a slash in it. -/
def afterSlash : List UInt8 → List (List UInt8)
  | [] => []
  | b :: bs => if b = slash then bs :: afterSlash bs else afterSlash bs

/-- What is left of `bs` after the bytes `lead`. -/
def afterBytes? : List UInt8 → List UInt8 → Option (List UInt8)
  | [], bs => some bs
  | _ :: _, [] => none
  | l :: lead, b :: bs => if l = b then afterBytes? lead bs else none

/-- A range covers bytes: of a character of several bytes, the bytes next to the hyphen bound the
range and the others stand for themselves. -/
def inRange (b : UInt8) (range : Char × Char) : Bool :=
  let lo := String.utf8EncodeChar range.1
  let hi := String.utf8EncodeChar range.2
  if range.1 = range.2 then lo.contains b
  else
    lo.contains b || hi.contains b ||
      (match lo.getLast?, hi.head? with
        | some first, some last => first ≤ b && b ≤ last
        | _, _ => false)

mutual

/-- All that can be left of `bs` after a token. Empty branches of a choice do not count, unless
there are no others. -/
def Token.rests (bs : List UInt8) : Token → List (List UInt8)
  | .literal c => (afterBytes? (String.utf8EncodeChar c) bs).toList
  | .any => bs.tail?.toList
  | .star => suffixes bs
  | .leading => bs :: afterSlash bs
  | .trailing =>
      match bs with
      | b :: bs => if b = slash then suffixes bs else []
      | [] => []
  | .between =>
      match bs with
      | b :: bs => if b = slash then bs :: afterSlash bs else []
      | [] => []
  | .oneOf negated ranges =>
      match bs with
      | b :: bs => if ranges.any (inRange b) != negated then [bs] else []
      | [] => []
  | .choice branches => if branches.all isVoid then [bs] else branchRests bs branches

/-- All that can be left after a branch that is not empty. -/
def branchRests (bs : List UInt8) : List (List Token) → List (List UInt8)
  | [] => []
  | branch :: branches =>
      (if isVoid branch then [] else restsAll [bs] branch) ++ branchRests bs branches

/-- All that can be left of one of `rests` after the tokens. -/
def restsAll (rests : List (List UInt8)) : List Token → List (List UInt8)
  | [] => rests
  | t :: tokens => restsAll (rests.flatMap (fun bs => t.rests bs)).eraseDups tokens

end

/-- Whether the pattern stands for the whole path. Directories alone stand for every path. -/
def spans (tokens : List Token) (path : List UInt8) : Bool :=
  match tokens with
  | [.leading] => true
  | tokens => (restsAll [path] tokens).contains []

/-! ## File names

A path that ends in a point has no file name, and so no extension. Patterns that are settled by one
of them do not cover it. -/

def point : UInt8 := 46

/-- The characters of tokens that are all literal. -/
def literals? : List Token → Option (List Char)
  | [] => some []
  | .literal c :: tokens => (literals? tokens).map (c :: ·)
  | _ :: _ => none

/-- Whether a pattern is compared with the text of a path, or with the end of it: literal text
alone, literal text with directories in it behind any directories, or literal text other than an
extension behind a star. -/
def comparesText (tokens : List Token) : Bool :=
  let endsIn := fun tokens => (literals? tokens).any fun text => 1 < text.length
  match tokens with
  | .leading :: .star :: tokens => endsIn tokens
  | .leading :: tokens => (literals? tokens).any (·.contains '/')
  | .star :: tokens => endsIn tokens
  | tokens => (literals? tokens).isSome

/-- Whether a pattern that ends in a point needs a file name that does so. -/
def needsName (tokens : List Token) : Bool :=
  match tokens.getLast? with
  | some (.literal '.') => !comparesText tokens
  | _ => false

/-- Whether the pattern covers a path. -/
def covers (tokens : List Token) (path : String) : Bool :=
  let bytes := path.toUTF8.toList
  spans tokens bytes && !(bytes.getLast? == some point && needsName tokens)

end Glob
end TemplateMarkup
