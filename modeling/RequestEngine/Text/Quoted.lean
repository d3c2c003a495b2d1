import RequestEngine.Text.Invisible

/-! Text in quotes as a diagnostic shows it: quotes, backslashes and invisible characters are
escaped, all else stands for itself. -/
namespace RequestEngine.Text

def shown (c : Char) : List Char :=
  if c = '"' then ['\\', '"']
  else if c = '\\' then ['\\', '\\']
  else if c = '\n' then ['\\', 'n']
  else if c = '\r' then ['\\', 'r']
  else if c = '\t' then ['\\', 't']
  else if c.toNat = 0 then ['\\', '0']
  else if isInvisible c then ['\\', 'u', '\x7b'] ++ Nat.toDigits 16 c.toNat ++ ['\x7d']
  else [c]

def quoted (s : String) : String := String.ofList ('"' :: (s.toList.flatMap shown ++ ['"']))

example : (shown '\x01') = ['\\', 'u', '\x7b', '1', '\x7d'] := by decide +kernel

end RequestEngine.Text
