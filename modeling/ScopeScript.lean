import ScopeScript.Main
import ScopeScript.Proofs.Grammar.Phrase
import ScopeScript.Proofs.Grammar.Sound
import ScopeScript.Proofs.Grammar.Complete
import ScopeScript.Proofs.Grammar.Exact
import ScopeScript.Proofs.Grammar.Mention
import ScopeScript.Proofs.Grammar.Order
import ScopeScript.Proofs.Grammar.Formed
import ScopeScript.Proofs.Grammar.Unparse
import ScopeScript.Proofs.Scoping.Setting
import ScopeScript.Proofs.Lexis.Iterate
import ScopeScript.Proofs.Lexis.Sorted
import ScopeScript.Proofs.Lexis.Lexeme
import ScopeScript.Proofs.Lexis.Munch
import ScopeScript.Proofs.Lexis.Cut
import ScopeScript.Proofs.Lexis.Placed
import ScopeScript.Proofs.Grammar.Spelling
import ScopeScript.Proofs.Grammar.Numbered
import ScopeScript.Proofs.Scoping.Follow
import ScopeScript.Proofs.Scoping.Descend
import ScopeScript.Proofs.Scoping.Proper
import ScopeScript.Proofs.Scoping.Lawful
import ScopeScript.Proofs.Scoping.Await
import ScopeScript.Proofs.Scoping.Place
import ScopeScript.Proofs.Scoping.Everywhere
import ScopeScript.Proofs.Scoping.Breach
import ScopeScript.Proofs.Scoping.Look
import ScopeScript.Proofs.Running.Watch
import ScopeScript.Proofs.Running.Erase
import ScopeScript.Proofs.Running.Grow
import ScopeScript.Proofs.Running.Stand
import ScopeScript.Proofs.Running.Receive
import ScopeScript.Proofs.Running.Sound
import ScopeScript.Proofs.Running.Spare
import ScopeScript.Proofs.Running.Uphold
import ScopeScript.Proofs.Running.Step
import ScopeScript.Proofs.Running.Run
import ScopeScript.Proofs.Session.Chronicle
import ScopeScript.Proofs.Session.Read
import ScopeScript.Proofs.Session.Accept
import ScopeScript.Proofs.Session.Address
import ScopeScript.Proofs.Session.Unfinished
import ScopeScript.Proofs.Session.Contain
import ScopeScript.Proofs.Session.Receiver
import ScopeScript.Proofs.Scoping.Enclose
import ScopeScript.Proofs.Session.Constant
import ScopeScript.Proofs.Grammar.Rename
import ScopeScript.Proofs.Lexis.Seam
import ScopeScript.Proofs.Lexis.Spread
import ScopeScript.Proofs.Lexis.Printed
import ScopeScript.Proofs.Scoping.Rename
import ScopeScript.Proofs.Scoping.Locate
import ScopeScript.Proofs.Scoping.Nameless
import ScopeScript.Proofs.Grammar.Shift
import ScopeScript.Proofs.Running.Rename
import ScopeScript.Proofs.Running.Commute
import ScopeScript.Proofs.Running.Fuel
import ScopeScript.Proofs.Running.Alike
import ScopeScript.Proofs.Session.Tidy
import ScopeScript.Proofs.Session.Joined
import ScopeScript.Proofs.Session.Split
import ScopeScript.Proofs.Session.Answer
import ScopeScript.Proofs.Session.Traceless
import ScopeScript.Proofs.Session.Origin
import ScopeScript.Proofs.Session.Marks
import ScopeScript.Proofs.Session.Printed
import ScopeScript.Proofs.Session.Table
import ScopeScript.Proofs.Session.Framed
import ScopeScript.Proofs.Grammar.Revise
import ScopeScript.Proofs.Grammar.Single
import ScopeScript.Proofs.Scoping.Single
import ScopeScript.Proofs.Scoping.Binder
import ScopeScript.Proofs.Scoping.Revise
import ScopeScript.Proofs.Scoping.Remain
import ScopeScript.Proofs.Scoping.Use
import ScopeScript.Proofs.Scoping.Caution
import ScopeScript.Proofs.Scoping.Whole
import ScopeScript.Proofs.Scoping.Respell
import ScopeScript.Proofs.Scoping.Advice
import ScopeScript.Proofs.Running.Recast
import ScopeScript.Proofs.Running.Revise
import ScopeScript.Proofs.Running.Echo
import ScopeScript.Proofs.Running.Echoing
import ScopeScript.Proofs.Running.Serve
import ScopeScript.Proofs.Session.Revise
import ScopeScript.Proofs.Session.Respell
import ScopeScript.Proofs.Session.Advice
import ScopeScript.Proofs.Scoping.Due
import ScopeScript.Proofs.Session.Due
import ScopeScript.Proofs.Running.Return
import ScopeScript.Proofs.Session.Return
import ScopeScript.Proofs.Grammar.Cite
import ScopeScript.Proofs.Scoping.Cite
import ScopeScript.Proofs.Running.Cite
import ScopeScript.Proofs.Session.Cite
import ScopeScript.Proofs.Running.Cap
import ScopeScript.Proofs.Session.Cap
import ScopeScript.Proofs.Grammar.Verdict
import ScopeScript.Proofs.Grammar.Series
import ScopeScript.Proofs.Grammar.Behind
import ScopeScript.Proofs.Scoping.Apt
import ScopeScript.Proofs.Running.Manner
import ScopeScript.Proofs.Running.Bear
import ScopeScript.Proofs.Running.Copy
import ScopeScript.Proofs.Running.Enter
import ScopeScript.Proofs.Session.Sourced
import ScopeScript.Proofs.Session.Manner
import ScopeScript.Proofs.Session.Apt
import ScopeScript.Proofs.Excerpt.Offset
import ScopeScript.Proofs.Excerpt.Row
import ScopeScript.Proofs.Scoping.Gather
import ScopeScript.Proofs.Scoping.Turn
import ScopeScript.Proofs.Scoping.Sorted
import ScopeScript.Proofs.Session.Sorted
import ScopeScript.Proofs.Running.Forest
import ScopeScript.Proofs.Excerpt.Clamp
import ScopeScript.Proofs.Scoping.Balance
import ScopeScript.Proofs.Running.Root
import ScopeScript.Proofs.Session.Root
import ScopeScript.Proofs.Grammar.Form
import ScopeScript.Proofs.Grammar.Reread
import ScopeScript.Proofs.Decimal.Interval
import ScopeScript.Proofs.Decimal.Shortest
import ScopeScript.Proofs.Decimal.Layout
import ScopeScript.Proofs.Session.Outline
