import Stencil.Json.Basic
import Stencil.Log

namespace Stencil

inductive Event
  | line (l : LogLine)
  | chapter (name : String)
  | snapshot (file : String) (contents : Json)
  | endRound

abbrev Trace := List Event

namespace Trace

def lines (t : Trace) : List LogLine :=
  t.reverse.filterMap fun
    | .line l => some l
    | _ => none

end Trace

end Stencil
