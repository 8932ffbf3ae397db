/-!
A strict reader of JSON texts.

It keeps what a configuration can ask for: a number's value if it is written as a natural
number, and a text's characters unless an escape leaves half of a pair standing alone. Such a
text, or a number of any other form, is still well-formed where nobody looks at it.
-/

namespace AdaptiveVM

inductive Json where
  | null
  | bool (b : Bool)
  /-- A number, with its value if it has no sign, fraction or exponent. -/
  | number (natural : Option Nat)
  /-- A text, unless it holds half of a pair. -/
  | text (s : Option String)
  | array (items : List Json)
  | object (members : List (Option String × Json))

namespace Json

def isBlank (c : Char) : Bool := c = ' ' || c = '\n' || c = '\t' || c = '\r'

def skipBlanks (cs : List Char) : List Char := cs.dropWhile isBlank

/-! ### Numbers -/

/-- The digits at the front, and what follows them. -/
def digits (cs : List Char) : List Char × List Char :=
  (cs.takeWhile Char.isDigit, cs.dropWhile Char.isDigit)

/-- At least one digit. -/
def digits1? (cs : List Char) : Option (List Char × List Char) :=
  match digits cs with
  | ([], _) => none
  | d => some d

/-- The part before the point: no zero stands in front of another digit. -/
def whole? (cs : List Char) : Option (List Char × List Char) :=
  match digits cs with
  | ([], _) => none
  | ('0' :: _ :: _, _) => none
  | d => some d

/-- The part after the point, if there is one; the answer says whether there was. -/
def fraction? : List Char → Option (Bool × List Char)
  | '.' :: rest => (digits1? rest).map fun d => (true, d.2)
  | cs => some (false, cs)

/-- The digits of an exponent, after an optional sign. -/
def exponentDigits? : List Char → Option (Bool × List Char)
  | '+' :: rest => (digits1? rest).map fun d => (true, d.2)
  | '-' :: rest => (digits1? rest).map fun d => (true, d.2)
  | cs => (digits1? cs).map fun d => (true, d.2)

/-- The exponent, if there is one; the answer says whether there was. -/
def exponent? : List Char → Option (Bool × List Char)
  | 'e' :: rest => exponentDigits? rest
  | 'E' :: rest => exponentDigits? rest
  | cs => some (false, cs)

def ofDigits (ds : List Char) : Nat := ds.foldl (fun n d => 10 * n + (d.toNat - '0'.toNat)) 0

/-- A number without a sign. -/
def unsigned? (cs : List Char) : Option (Option Nat × List Char) := do
  let (ds, rest) ← whole? cs
  let (fraction, rest) ← fraction? rest
  let (exponent, rest) ← exponent? rest
  return (if fraction || exponent then none else some (ofDigits ds), rest)

def number? : List Char → Option (Json × List Char)
  | '-' :: rest => (unsigned? rest).map fun r => (.number none, r.2)
  | cs => (unsigned? cs).map fun r => (.number r.1, r.2)

/-! ### Texts -/

def hexDigit? (c : Char) : Option Nat :=
  if c.isDigit then some (c.toNat - '0'.toNat)
  else if 'a' ≤ c && c ≤ 'f' then some (c.toNat - 'a'.toNat + 10)
  else if 'A' ≤ c && c ≤ 'F' then some (c.toNat - 'A'.toNat + 10)
  else none

def hex4? (a b c d : Char) : Option Nat := do
  let a ← hexDigit? a
  let b ← hexDigit? b
  let c ← hexDigit? c
  let d ← hexDigit? d
  return ((a * 16 + b) * 16 + c) * 16 + d

/-- What a backslash and a letter stand for. -/
def escaped? (c : Char) : Option Nat :=
  if c = '"' || c = '\\' || c = '/' then some c.toNat
  else if c = 'b' then some 8
  else if c = 'f' then some 12
  else if c = 'n' then some 10
  else if c = 'r' then some 13
  else if c = 't' then some 9
  else none

/-- The code points and halves of pairs up to the closing quote, and what follows it. -/
def units? : List Char → Option (List Nat × List Char)
  | [] => none
  | '"' :: rest => some ([], rest)
  | '\\' :: 'u' :: a :: b :: c :: d :: rest =>
    match hex4? a b c d with
    | none => none
    | some n => (units? rest).map fun r => (n :: r.1, r.2)
  | '\\' :: c :: rest =>
    match escaped? c with
    | none => none
    | some n => (units? rest).map fun r => (n :: r.1, r.2)
  | c :: rest => if c.toNat < 0x20 then none else (units? rest).map fun r => (c.toNat :: r.1, r.2)

def isHigh (n : Nat) : Bool := 0xd800 ≤ n && n < 0xdc00

def isLow (n : Nat) : Bool := 0xdc00 ≤ n && n < 0xe000

/-- Joins the halves of pairs; a half that stands alone makes no text. -/
def characters? : List Nat → Option (List Char)
  | [] => some []
  | [n] => if isHigh n || isLow n then none else some [Char.ofNat n]
  | n :: m :: rest =>
    if isHigh n then
      if isLow m then
        (characters? rest).map fun cs =>
          Char.ofNat (0x10000 + (n - 0xd800) * 0x400 + (m - 0xdc00)) :: cs
      else none
    else if isLow n then none
    else (characters? (m :: rest)).map fun cs => Char.ofNat n :: cs

/-- A text whose opening quote has been read. -/
def text? (cs : List Char) : Option (Option String × List Char) :=
  (units? cs).map fun r => ((characters? r.1).map String.ofList, r.2)

/-! ### Values -/

mutual

/-- A value at the front, and what follows it. -/
def value? : Nat → List Char → Option (Json × List Char)
  | 0, _ => none
  | fuel + 1, cs =>
    match skipBlanks cs with
    | 'n' :: 'u' :: 'l' :: 'l' :: rest => some (.null, rest)
    | 't' :: 'r' :: 'u' :: 'e' :: rest => some (.bool true, rest)
    | 'f' :: 'a' :: 'l' :: 's' :: 'e' :: rest => some (.bool false, rest)
    | '"' :: rest => (text? rest).map fun r => (.text r.1, r.2)
    | '[' :: rest =>
      match skipBlanks rest with
      | ']' :: rest => some (.array [], rest)
      | _ => (items? fuel rest).map fun r => (.array r.1, r.2)
    | '\x7b' :: rest =>
      match skipBlanks rest with
      | '\x7d' :: rest => some (.object [], rest)
      | _ => (members? fuel rest).map fun r => (.object r.1, r.2)
    | cs => number? cs

/-- The items of an array up to its end. -/
def items? : Nat → List Char → Option (List Json × List Char)
  | 0, _ => none
  | fuel + 1, cs => do
    let (v, rest) ← value? fuel cs
    match skipBlanks rest with
    | ',' :: rest =>
      let (vs, rest) ← items? fuel rest
      return (v :: vs, rest)
    | ']' :: rest => return ([v], rest)
    | _ => none

/-- The members of an object up to its end. -/
def members? : Nat → List Char → Option (List (Option String × Json) × List Char)
  | 0, _ => none
  | fuel + 1, cs =>
    match skipBlanks cs with
    | '"' :: rest => do
      let (key, rest) ← text? rest
      match skipBlanks rest with
      | ':' :: rest =>
        let (v, rest) ← value? fuel rest
        match skipBlanks rest with
        | ',' :: rest =>
          let (ms, rest) ← members? fuel rest
          return ((key, v) :: ms, rest)
        | '\x7d' :: rest => return ([(key, v)], rest)
        | _ => none
      | _ => none
    | _ => none

end

/-- A whole text as one value. Every bracket, item and member takes a character, so the length of
the text bounds the work. -/
def parse? (s : String) : Option Json :=
  match value? (2 * s.length + 4) s.toList with
  | some (v, rest) => if (skipBlanks rest).isEmpty then some v else none
  | none => none

end Json

end AdaptiveVM
