import ScopeScript.Text.Ranges
import ScopeScript.Document

namespace ScopeScript.Text

-- The halfwidth sound marks follow a letter as marks do, but are letters with a place of their own.
def isSoundMark (c : Char) : Bool := c = '\uff9e' || c = '\uff9f'

-- Characters that a reader could not see as themselves.
def needsCode (c : Char) : Bool :=
  c.toNat < 32 || c.toNat == 127 || unseen.holds c || (marks.holds c && !isSoundMark c)

def escape (c : Char) : List Char :=
  if c = '\x22' then ['\\', '\x22']
  else if c = '\\' then ['\\', '\\']
  else if c = '\t' then ['\\', 't']
  else if c = '\r' then ['\\', 'r']
  else if c = '\n' then ['\\', 'n']
  else if c = '\x00' then ['\\', '0']
  else if needsCode c then '\\' :: 'u' :: '\x7b' :: Document.hexDigits c.toNat ++ ['\x7d']
  else [c]

-- Text between quotes, with every character visible.
def quoted (s : String) : String :=
  "\"" ++ String.ofList (s.toList.flatMap escape) ++ "\""

end ScopeScript.Text
