/-
# Texts in double quotes

A quoted text stands between double quotes. A double quote and a backslash
follow a backslash, four controls have letters of their own (`\n`, `\r`, `\t`,
`\0`), and every other character without a mark of its own is written by number,
as in `\u` with the hexadecimal code point in braces. Single quotes stay as they
are.

Key definitions: `Quoted.ofChar`, `Quoted.quote`.
-/
import ContainerRegistry.Text.Hex
import ContainerRegistry.Text.Unmarked

namespace ContainerRegistry
namespace Quoted

/-- How one character stands in a quoted text. -/
def ofChar (c : Char) : List Char :=
  if c = '"' then ['\\', '"']
  else if c = '\\' then ['\\', '\\']
  else if c = '\n' then ['\\', 'n']
  else if c = '\r' then ['\\', 'r']
  else if c = '\t' then ['\\', 't']
  else if c.toNat = 0 then ['\\', '0']
  else if Unmarked.isUnmarked c then
    ['\\', 'u', '\x7b'] ++ Nat.toDigits 16 c.toNat ++ ['\x7d']
  else [c]

/-- A text in double quotes. -/
def quote (s : String) : String :=
  String.ofList ('"' :: s.toList.flatMap ofChar ++ ['"'])

end Quoted
end ContainerRegistry
