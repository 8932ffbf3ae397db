/-!
Version tokens.

A guard compares tokens in place of the things they stand for: the key set of a namespace,
the layout of an instance, a function, a builtin. Each kind of thing has a source of its own,
and no source hands out a token twice.
-/

namespace AdaptiveVM

/-- A version token; `0` stands for "no version", and no guard trusts it. -/
abbrev Token := UInt32

/-- A source of tokens, given by the token it will hand out next. -/
structure TokenSource where
  upcoming : UInt32 := 1
  deriving DecidableEq

namespace TokenSource

/-- A source that has come this far is exhausted. -/
def limit : UInt32 := 0xffffffff

/-- The next token. An exhausted source stays where it is and hands out `0`. -/
def draw (s : TokenSource) : Token × TokenSource :=
  if s.upcoming = limit then (0, s) else (s.upcoming, ⟨s.upcoming + 1⟩)

end TokenSource

/-- The four sources: key sets, functions, builtins, shapes. -/
structure Tokens where
  keys : TokenSource := {}
  functions : TokenSource := {}
  builtins : TokenSource := {}
  shapes : TokenSource := {}
  deriving DecidableEq

end AdaptiveVM
