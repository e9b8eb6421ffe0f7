/-! The names of the H.265 NAL unit types. -/

namespace NalTransport.Hevc.UnitType

def accessUnitDelimiter : UInt8 := 35

def fillerData : UInt8 := 38

def names : List (UInt8 × String) :=
  [(0, "TRAIL_N"), (1, "TRAIL_R"), (2, "TSA_N"), (3, "TSA_R"), (4, "STSA_N"), (5, "STSA_R"),
    (6, "RADL_N"), (7, "RADL_R"), (8, "RASL_N"), (9, "RASL_R"), (16, "BLA_W_LP"),
    (17, "BLA_W_RADL"), (18, "BLA_N_LP"), (19, "IDR_W_RADL"), (20, "IDR_N_LP"), (21, "CRA_NUT"),
    (32, "VPS_NUT"), (33, "SPS_NUT"), (34, "PPS_NUT"), (accessUnitDelimiter, "AUD_NUT"),
    (36, "EOS_NUT"), (37, "EOB_NUT"), (fillerData, "FD_NUT"), (39, "PREFIX_SEI_NUT"),
    (40, "SUFFIX_SEI_NUT")]

def isSlice (t : UInt8) : Bool := t < 32

def name (t : UInt8) : String :=
  match names.lookup t with
  | some name => name
  | none =>
    if isSlice t then "RSV_VCL" ++ toString t.toNat
    else if t < 48 then "RSV_NVCL" ++ toString t.toNat
    else if t < 64 then "UNSPEC" ++ toString t.toNat
    else "unknown nalu type " ++ toString t.toNat

end NalTransport.Hevc.UnitType
