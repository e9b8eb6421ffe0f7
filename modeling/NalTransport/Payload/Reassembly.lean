import NalTransport.Bytes

/-! Putting the units of received payloads together again. A unit in fragments is
open from its first fragment to its last. -/

namespace NalTransport

/-- What one payload carries: whole units, or a fragment with the header of the
unit that it belongs to. -/
inductive Carried where
  | whole (units : List Bytes)
  | fragment (first last : Bool) (header data : Bytes)
  deriving DecidableEq

structure Reassembly where
  finished : List Bytes := []
  unfinished : Option Bytes := none
  deriving DecidableEq

namespace Reassembly

/-- Fails at a fragment that continues no unit. -/
def take? (r : Reassembly) : Carried → Option Reassembly
  | .whole units => some { r with finished := r.finished ++ units }
  | .fragment first last header data =>
    match if first then some header else r.unfinished with
    | none => none
    | some unit =>
      if last then some { finished := r.finished ++ [unit ++ data] }
      else some { r with unfinished := some (unit ++ data) }

/-- The units of payloads in order, if every payload can be read and no unit is
left unfinished. -/
def units? (read? : Bytes → Option Carried) (payloads : List Bytes) : Option (List Bytes) := do
  let carried ← payloads.mapM read?
  let r ← carried.foldlM take? {}
  if r.unfinished = none then some r.finished else none

end Reassembly

end NalTransport
