import TemplateMarkup.Expression.Interpolation

/-!
# The cache of patterns

The pattern of a pair of delimiters is made when the pair is first used, and kept under a key for
all texts to come. What was kept first stays. The default delimiters have a pattern of their own
outside of the cache.
-/

namespace TemplateMarkup

/-- The patterns made so far, newest first, each with its key. A pattern is told by the delimiters
it looks for. -/
structure PatternCache where
  entries : List (String × Delimiters) := []
  deriving DecidableEq, Repr

namespace PatternCache

/-- Both delimiters, with a null character between them. -/
def key (d : Delimiters) : String :=
  d.opening ++ "\x00" ++ d.closing

/-- The pattern kept under the key of a pair. If there is none, that of the pair is made and
kept. -/
def fetch (cache : PatternCache) (d : Delimiters) : Delimiters × PatternCache :=
  match cache.entries.lookup (key d) with
  | some pattern => (pattern, cache)
  | none => (d, { entries := (key d, d) :: cache.entries })

end PatternCache

/-- Splits a text with the patterns of a cache, where `chosen` are the delimiters asked for. -/
def Interpolated.parseWith? (cache : PatternCache) (chosen : Option Delimiters) (text : String) :
    Option Interpolated × PatternCache :=
  match chosen with
  | none => (parse? .braces text, cache)
  | some d =>
      let (pattern, cache) := cache.fetch d
      (parse? pattern text, cache)

end TemplateMarkup
