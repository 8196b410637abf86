namespace ScopeScript

inductive SinkFailure where
  | full
  | flush
  deriving DecidableEq, Repr

def SinkFailure.message : SinkFailure → String
  | full => "sink full"
  | flush => "flush failed"

-- Where printed text goes: bytes so far, how many may come in all, and whether flushing fails.
structure Sink where
  written : ByteArray
  limit : Option Nat
  flushFails : Bool

namespace Sink

def unlimited : Sink := ⟨.empty, none, false⟩

-- Text that does not fit leaves as many of its bytes as do, and fails.
def write (s : Sink) (text : String) : Option SinkFailure × Sink :=
  let bytes := text.toUTF8
  match s.limit with
  | none => (none, { s with written := s.written ++ bytes })
  | some limit =>
    let room := limit - s.written.size
    if bytes.size ≤ room then (none, { s with written := s.written ++ bytes })
    else (some .full, { s with written := s.written ++ bytes.extract 0 room })

def flush (s : Sink) : Option SinkFailure :=
  if s.flushFails then some .flush else none

end Sink

end ScopeScript
