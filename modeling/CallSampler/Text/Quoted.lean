import CallSampler.Text.Printable

/-!
# Quoted text

A text between double quotes, with an escape for every character that would end it, start an escape
or not be seen. File names escape the apostrophe as well.
-/

namespace CallSampler.Text

def escape (apostrophe : Bool) (c : Char) : List Char :=
  if c = '\x00' then ['\\', '0']
  else if c = '\t' then ['\\', 't']
  else if c = '\n' then ['\\', 'n']
  else if c = '\r' then ['\\', 'r']
  else if c = '"' || c = '\\' || (apostrophe && c = '\'') then ['\\', c]
  else if isPrintable c then [c]
  else ['\\', 'u', '\x7b'] ++ Nat.toDigits 16 c.toNat ++ ['\x7d']

def quoted (text : String) : String :=
  String.ofList ('"' :: text.toList.flatMap (escape false) ++ ['"'])

def quotedFileName (text : String) : String :=
  String.ofList ('"' :: text.toList.flatMap (escape true) ++ ['"'])

end CallSampler.Text
