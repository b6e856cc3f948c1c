import GattHub.Octets
import GattHub.Text.Printable
import GattHub.Text.Combining
import GattHub.Text.Ignorable

/-! Texts written between quotation marks, with every character that would not show written as
an escape. -/

namespace GattHub.Text

/-- The digits of a number to base sixteen, without leading zeros. -/
def hexDigits (n : Nat) : List Char :=
  match (Hex.ofNat 8 n).dropWhile (· == '0') with
  | [] => ['0']
  | ds => ds

/-- Whether a character shows by itself: it is neither hidden nor a mark on the one before it. -/
def isShown (c : Char) : Bool := isPrintable c && !isCombining c && !isIgnorable c

/-- The written form of one character inside quotation marks. -/
def escape (c : Char) : List Char :=
  if c = '\x00' then ['\\', '0']
  else if c = '\t' then ['\\', 't']
  else if c = '\r' then ['\\', 'r']
  else if c = '\n' then ['\\', 'n']
  else if c = '"' ∨ c = '\\' then ['\\', c]
  else if isShown c then [c]
  else ['\\', 'u', '\x7b'] ++ hexDigits c.toNat ++ ['\x7d']

def quoted (s : String) : String :=
  String.ofList (['"'] ++ s.toList.flatMap escape ++ ['"'])

end GattHub.Text
