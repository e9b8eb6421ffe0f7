/-! The names of the H.264 NAL unit types. -/

namespace NalTransport.Avc.UnitType

def accessUnitDelimiter : UInt8 := 9

def fillerData : UInt8 := 12

def names : List (UInt8 × String) :=
  [(0, "unspecified"), (1, "slice"), (2, "dpa"), (3, "dpb"), (4, "dpc"), (5, "idr slice"),
    (6, "sei"), (7, "sps"), (8, "pps"), (accessUnitDelimiter, "aud"), (10, "end sequence"),
    (11, "end stream"), (fillerData, "filler data"), (13, "sps ext"), (14, "prefix"),
    (15, "sub sps"), (16, "dps"), (19, "auxiliary slice"), (20, "exten slice"),
    (21, "depth exten slice")]

def name (t : UInt8) : String :=
  match names.lookup t with
  | some name => name
  | none =>
    if t < 24 then "reserved " ++ toString t.toNat
    else if t < 32 then "unspecified " ++ toString t.toNat
    else "unknown nalu type " ++ toString t.toNat

end NalTransport.Avc.UnitType
