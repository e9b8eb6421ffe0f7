import NalTransport.AnnexB.StartCode

/-! Byte streams written from units. Any number of zeros from two on makes a
start code, so one list of units has many streams. -/

namespace NalTransport.AnnexB

def codeBytes (zeros : Nat) : Bytes := List.replicate zeros 0 ++ [1]

/-- Units in order, each behind a start code with the given number of zeros. -/
def stream (units : List (Nat × Bytes)) : Bytes :=
  units.flatMap fun (zeros, unit) => codeBytes zeros ++ unit

def HasCode (data : Bytes) : Prop := codeBytes 2 <:+: data

theorem stream_nil : stream [] = [] := rfl

theorem stream_cons (zeros : Nat) (unit : Bytes) (units : List (Nat × Bytes)) :
    stream ((zeros, unit) :: units) = codeBytes zeros ++ unit ++ stream units := by
  simp [stream]

end NalTransport.AnnexB
