import Tumgrd.Attributes

/-! What the handlers make of the attributes of a message. An attribute is used
if every value with another meaning makes the handler do something else. -/
namespace Tumgrd

open Effect Semantics

section Meaning

end Meaning

/-- Statements and subprocesses; nobody notices the other requests. -/
def Req.acts : Req → Bool
  | .sql _ | .exec _ _ => true
  | .time | .randomKey | .detect _ _ | .timedOut | .log _ | .report _ => false

namespace Method

variable (method : Method)

end Method

variable {cfg : Config} {method : Method} {msg before after : Message} {tb : Tb}
  {policy other : Policy} {old new : Blob}

section Dropped

end Dropped

section Told

end Told

section Nodes

/-- Surroundings in which no row is stored and the clock is at zero. -/
def untouched : (q : Req) → Resp q
  | .time => (0 : Int)
  | .randomKey => none
  | .detect _ _ => ⟨false, .empty⟩
  | .exec _ _ => ⟨-1, false, [], [], []⟩
  | .timedOut => false
  | .sql _ => .ok [] 0
  | .log _ => ()
  | .report _ => ()

end Nodes

section Refreshing

/-- Surroundings in which one row is stored, and the tools fail. -/
def occupied : (q : Req) → Resp q
  | .sql _ => .ok [sampleRow] 0
  | .detect _ _ => (sample 0).found
  | q => untouched q

end Refreshing

section Registering

variable {args : RegisterArgs} {reg : Registration} {n : Node}

/-- The node that a registration makes where none is stored. -/
def Tb.drafted (tb : Tb) (reg : Registration) : Node :=
  (tb.registerArgs.complete reg (reg.fill (.fresh keyless 0))).withDefaults 0 0

end Registering

section Samples

end Samples

end Tumgrd
