import EnumNames.Text.Printable

/-! Texts between quotation marks for messages. Whatever would not show as itself is escaped: marks
and backslashes, characters that do not print, and characters that join the one before them. -/
namespace EnumNames.Text

/-- A character given by its number in hexadecimal digits. -/
def numbered (c : Char) : List Char :=
  ['\\', 'u', '\x7b'] ++ Nat.toDigits 16 c.toNat ++ ['\x7d']

/-- A character as it stands between the marks. -/
def escape (c : Char) : List Char :=
  if c = '\x00' then ['\\', '0']
  else if c = '\t' then ['\\', 't']
  else if c = '\r' then ['\\', 'r']
  else if c = '\n' then ['\\', 'n']
  else if c = '\\' then ['\\', '\\']
  else if c = '"' then ['\\', '"']
  else if isExtending c || !isPrintable c then numbered c
  else [c]

def quoted (text : String) : String :=
  "\"" ++ .ofList (text.toList.flatMap escape) ++ "\""

end EnumNames.Text
