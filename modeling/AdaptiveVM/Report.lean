/-!
Reports: nested records that are written out as indented JSON, two blanks a level.
-/

namespace AdaptiveVM

inductive Report where
  | number (n : Nat)
  | text (s : String)
  | list (items : List Report)
  | record (fields : List (String × Report))

namespace Report

/-- How one character stands in a JSON text. -/
def escape (c : Char) : String :=
  if c = '"' then "\\\""
  else if c = '\\' then "\\\\"
  else if c = '\n' then "\\n"
  else if c = '\r' then "\\r"
  else if c = '\t' then "\\t"
  else if c = '\x08' then "\\b"
  else if c = '\x0c' then "\\f"
  else if c.toNat < 0x20 then
    let digits := Nat.toDigits 16 c.toNat
    "\\u" ++ String.ofList (List.replicate (4 - digits.length) '0' ++ digits)
  else String.singleton c

/-- A JSON text. -/
def quote (s : String) : String := "\"" ++ String.join (s.toList.map escape) ++ "\""

/-- The start of a line at a level. -/
def margin (level : Nat) : String := "\n" ++ String.ofList (List.replicate (2 * level) ' ')

/-- Parts between brackets, each on a line of its own one level further in. -/
def block (level : Nat) (opening closing : String) (parts : List String) : String :=
  if parts.isEmpty then opening ++ closing
  else
    opening ++ margin (level + 1) ++ ("," ++ margin (level + 1)).intercalate parts ++
      margin level ++ closing

mutual

/-- A report written at a level. -/
def render (level : Nat) : Report → String
  | .number n => toString n
  | .text s => quote s
  | .list items => block level "[" "]" (renderItems (level + 1) items)
  | .record fields => block level "\x7b" "\x7d" (renderFields (level + 1) fields)

def renderItems (level : Nat) : List Report → List String
  | [] => []
  | r :: rest => render level r :: renderItems level rest

def renderFields (level : Nat) : List (String × Report) → List String
  | [] => []
  | (key, r) :: rest => (quote key ++ ": " ++ render level r) :: renderFields level rest

end

/-- The whole text of a report. -/
def pretty (r : Report) : String := r.render 0

end Report

end AdaptiveVM
