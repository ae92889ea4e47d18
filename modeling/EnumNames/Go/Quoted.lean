/-! Interpreted string literals of Go. A quotation mark, a backslash and the control characters
are escaped; every other character stands for itself. -/
namespace EnumNames.Go

/-- The controls: U+0000 to U+001F and U+007F to U+009F. -/
def isControl (c : Char) : Bool := c.toNat < 0x20 || (0x7f ≤ c.toNat && c.toNat < 0xa0)

/-- Four hexadecimal digits in lower case. -/
def hex4 (n : Nat) : List Char :=
  [4096, 256, 16, 1].map fun place => Nat.digitChar (n / place % 16)

/-- A character as it stands in a literal. -/
def escape (c : Char) : List Char :=
  if c = '"' then ['\\', '"']
  else if c = '\\' then ['\\', '\\']
  else if c = '\n' then ['\\', 'n']
  else if c = '\r' then ['\\', 'r']
  else if c = '\t' then ['\\', 't']
  else if isControl c then '\\' :: 'u' :: hex4 c.toNat
  else [c]

/-- A text as a literal. -/
def quoted (text : String) : String :=
  "\"" ++ .ofList (text.toList.flatMap escape) ++ "\""

end EnumNames.Go
