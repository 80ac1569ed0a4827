/-!
# `TypedProps.Text.Quoted`: quoted strings

Text between double quotes, as JSON and scripts write it. The quote, the backslash and control
characters are escaped, every other character stands for itself.
-/

set_option autoImplicit false

namespace TypedProps.Text

/-- The lower-case hexadecimal digit of a number below sixteen. -/
def hexDigit (n : Nat) : Char := Nat.digitChar n

/-- A character inside quotes. -/
def quoteChar (c : Char) : List Char :=
  if c.toNat == 0x22 then ['\\', '\x22']
  else if c == '\\' then ['\\', '\\']
  else if c == '\n' then ['\\', 'n']
  else if c == '\r' then ['\\', 'r']
  else if c == '\t' then ['\\', 't']
  else if c.toNat == 0x8 then ['\\', 'b']
  else if c.toNat == 0xC then ['\\', 'f']
  else if c.toNat < 0x20 then
    ['\\', 'u', '0', '0', hexDigit (c.toNat / 16), hexDigit (c.toNat % 16)]
  else [c]

/-- Text inside quotes. -/
def quoteChars (cs : List Char) : List Char := '\x22' :: (cs.flatMap quoteChar ++ ['\x22'])

/-- Quotes text. -/
def quote (text : String) : String := String.ofList (quoteChars text.toList)

end TypedProps.Text
