import HikeyHal.Uper.RoundTrip

/-!
# The messages of the user plane

The descriptors that `asn_DEF_ULP_PDU` reaches (`supl/asn1c_header`), each under its name:
the specifics of a type, its constraints for the packed encoding, and its members in the
order of the source. Names, tags and the codecs for other encodings are left out.

The bits of every range are enough for it (`ULP_PDU_ok`), but two members have ranges of 28
bits, which an encoder that finds room in four octets does not put in every place:
`refUC` of a cell of the third generation, and `cellIdentity` of a measured one.
-/

namespace HikeyHal.Uper.Ulp

/-- Constraints of a value -/
def onValue (value : PerConstraint) : Option PerConstraints :=
  some ⟨value, ⟨APC_UNCONSTRAINED, -1, -1, 0, 0⟩, none⟩

/-- Constraints of a size -/
def onSize (size : PerConstraint) : Option PerConstraints :=
  some ⟨⟨APC_UNCONSTRAINED, -1, -1, 0, 0⟩, size, none⟩

/-- `asn_MBR`: whether a member is optional, its type, and the constraints given to it -/
def members : List (Bool × Ty × Option PerConstraints) → Members
  | [] => .nil
  | (optional, type, constraints) :: more => .cons optional type constraints (members more)

/-- `permitted_alphabet_table_1` and `permitted_alphabet_code2value_1` -/
def permitted_alphabet : CharMap where
  value2code := List.replicate 45 0 ++ [1, 2, 0, 3, 4, 5, 6, 7, 8, 9, 10, 11, 12] ++
    List.replicate 7 0 ++ (List.range 26).map (13 + ·) ++ List.replicate 6 0 ++
    (List.range 26).map (39 + ·) ++ List.replicate 133 0
  code2value := [45, 46] ++ (List.range 10).map (48 + ·) ++ (List.range 26).map (65 + ·) ++
    (List.range 26).map (97 + ·)

def NativeInteger : Ty := .nativeInteger none false

def Version : Ty :=
  .sequence ⟨[], 0, -1, -1⟩ <| members [
    (false, NativeInteger, onValue ⟨APC_CONSTRAINED, 8, 8, 0, 255⟩),
    (false, NativeInteger, onValue ⟨APC_CONSTRAINED, 8, 8, 0, 255⟩),
    (false, NativeInteger, onValue ⟨APC_CONSTRAINED, 8, 8, 0, 255⟩)]

def OCTET_STRING : Ty := .octetString none

def BIT_STRING : Ty := .bitString none

def IA5String : Ty :=
  .octetString (some ⟨⟨APC_CONSTRAINED, 7, 7, 0, 127⟩, ⟨APC_SEMI_CONSTRAINED, -1, -1, 0, 0⟩, none⟩)

def IPAddress : Ty :=
  .choice (onValue ⟨APC_CONSTRAINED, 1, 1, 0, 1⟩) (-1) <| members [
    (false, OCTET_STRING, onSize ⟨APC_CONSTRAINED, 0, 0, 4, 4⟩),
    (false, OCTET_STRING, onSize ⟨APC_CONSTRAINED, 0, 0, 16, 16⟩)]

def SETId : Ty :=
  .choice (onValue ⟨APC_CONSTRAINED ||| APC_EXTENSIBLE, 3, 3, 0, 5⟩) 6 <| members [
    (false, OCTET_STRING, onSize ⟨APC_CONSTRAINED, 0, 0, 8, 8⟩),
    (false, OCTET_STRING, onSize ⟨APC_CONSTRAINED, 0, 0, 8, 8⟩),
    (false, BIT_STRING, onSize ⟨APC_CONSTRAINED, 0, 0, 34, 34⟩),
    (false, OCTET_STRING, onSize ⟨APC_CONSTRAINED, 0, 0, 8, 8⟩),
    (false, IA5String,
      some ⟨⟨APC_CONSTRAINED, 7, 7, 0, 127⟩, ⟨APC_CONSTRAINED, 10, 10, 1, 1000⟩, none⟩),
    (false, IPAddress, none)]

def SetSessionID : Ty :=
  .sequence ⟨[], 0, -1, -1⟩ <| members [
    (false, NativeInteger, onValue ⟨APC_CONSTRAINED, 16, 16, 0, 65535⟩),
    (false, SETId, none)]

def FQDN : Ty :=
  .octetString (some
    ⟨⟨APC_CONSTRAINED, 6, 6, 45, 122⟩, ⟨APC_CONSTRAINED, 8, 8, 1, 255⟩, some permitted_alphabet⟩)

def SLPAddress : Ty :=
  .choice (onValue ⟨APC_CONSTRAINED ||| APC_EXTENSIBLE, 1, 1, 0, 1⟩) 2 <| members [
    (false, IPAddress, none),
    (false, FQDN, none)]

def SlpSessionID : Ty :=
  .sequence ⟨[], 0, -1, -1⟩ <| members [
    (false, OCTET_STRING, onSize ⟨APC_CONSTRAINED, 0, 0, 4, 4⟩),
    (false, SLPAddress, none)]

def SessionID : Ty :=
  .sequence ⟨[0, 1], 2, -1, -1⟩ <| members [
    (true, SetSessionID, none),
    (true, SlpSessionID, none)]

def PosMethod : Ty :=
  .nativeEnumerated (onValue ⟨APC_CONSTRAINED ||| APC_EXTENSIBLE, 4, 4, 0, 9⟩)
    ⟨[0, 1, 2, 3, 4, 5, 6, 7, 8, 9], 11⟩

def NotificationType : Ty :=
  .nativeEnumerated (onValue ⟨APC_CONSTRAINED ||| APC_EXTENSIBLE, 3, 3, 0, 4⟩) ⟨[0, 1, 2, 3, 4], 6⟩

def EncodingType : Ty :=
  .nativeEnumerated (onValue ⟨APC_CONSTRAINED ||| APC_EXTENSIBLE, 2, 2, 0, 2⟩) ⟨[0, 1, 2], 4⟩

def FormatIndicator : Ty :=
  .nativeEnumerated (onValue ⟨APC_CONSTRAINED ||| APC_EXTENSIBLE, 3, 3, 0, 7⟩)
    ⟨[0, 1, 2, 3, 4, 5, 6, 7], 9⟩

def Notification : Ty :=
  .sequence ⟨[1, 2, 3, 4, 5], 5, 5, 7⟩ <| members [
    (false, NotificationType, none),
    (true, EncodingType, none),
    (true, OCTET_STRING, onSize ⟨APC_CONSTRAINED, 6, 6, 1, 50⟩),
    (true, FormatIndicator, none),
    (true, OCTET_STRING, onSize ⟨APC_CONSTRAINED, 6, 6, 1, 50⟩),
    (true, FormatIndicator, none)]

def QoP : Ty :=
  .sequence ⟨[1, 2, 3], 3, 3, 5⟩ <| members [
    (false, NativeInteger, onValue ⟨APC_CONSTRAINED, 7, 7, 0, 127⟩),
    (true, NativeInteger, onValue ⟨APC_CONSTRAINED, 7, 7, 0, 127⟩),
    (true, NativeInteger, onValue ⟨APC_CONSTRAINED, 16, 16, 0, 65535⟩),
    (true, NativeInteger, onValue ⟨APC_CONSTRAINED, 3, 3, 0, 7⟩)]

def SLPMode : Ty :=
  .nativeEnumerated (onValue ⟨APC_CONSTRAINED, 1, 1, 0, 1⟩) ⟨[0, 1], 0⟩

def MAC : Ty := .bitString (onSize ⟨APC_CONSTRAINED, 0, 0, 64, 64⟩)

def KeyIdentity : Ty := .bitString (onSize ⟨APC_CONSTRAINED, 0, 0, 128, 128⟩)

def SUPLINIT : Ty :=
  .sequence ⟨[1, 2, 3, 5, 6], 5, 6, 8⟩ <| members [
    (false, PosMethod, none),
    (true, Notification, none),
    (true, SLPAddress, none),
    (true, QoP, none),
    (false, SLPMode, none),
    (true, MAC, none),
    (true, KeyIdentity, none)]

def BOOLEAN : Ty := .boolean

def PosTechnology : Ty :=
  .sequence ⟨[], 0, 6, 8⟩ <| members [
    (false, BOOLEAN, none),
    (false, BOOLEAN, none),
    (false, BOOLEAN, none),
    (false, BOOLEAN, none),
    (false, BOOLEAN, none),
    (false, BOOLEAN, none),
    (false, BOOLEAN, none)]

def PrefMethod : Ty :=
  .nativeEnumerated (onValue ⟨APC_CONSTRAINED, 2, 2, 0, 2⟩) ⟨[0, 1, 2], 0⟩

def PosProtocol : Ty :=
  .sequence ⟨[], 0, 2, 4⟩ <| members [
    (false, BOOLEAN, none),
    (false, BOOLEAN, none),
    (false, BOOLEAN, none)]

def SETCapabilities : Ty :=
  .sequence ⟨[], 0, 2, 4⟩ <| members [
    (false, PosTechnology, none),
    (false, PrefMethod, none),
    (false, PosProtocol, none)]

def NMRelement : Ty :=
  .sequence ⟨[], 0, 2, 4⟩ <| members [
    (false, NativeInteger, onValue ⟨APC_CONSTRAINED, 10, 10, 0, 1023⟩),
    (false, NativeInteger, onValue ⟨APC_CONSTRAINED, 6, 6, 0, 63⟩),
    (false, NativeInteger, onValue ⟨APC_CONSTRAINED, 6, 6, 0, 63⟩)]

def NMR : Ty := .sequenceOf (onSize ⟨APC_CONSTRAINED, 4, 4, 1, 15⟩) NMRelement none

def GsmCellInformation : Ty :=
  .sequence ⟨[4, 5], 2, 5, 7⟩ <| members [
    (false, NativeInteger, onValue ⟨APC_CONSTRAINED, 10, 10, 0, 999⟩),
    (false, NativeInteger, onValue ⟨APC_CONSTRAINED, 10, 10, 0, 999⟩),
    (false, NativeInteger, onValue ⟨APC_CONSTRAINED, 16, 16, 0, 65535⟩),
    (false, NativeInteger, onValue ⟨APC_CONSTRAINED, 16, 16, 0, 65535⟩),
    (true, NMR, none),
    (true, NativeInteger, onValue ⟨APC_CONSTRAINED, 8, 8, 0, 255⟩)]

def UARFCN : Ty := .nativeInteger (onValue ⟨APC_CONSTRAINED, 14, 14, 0, 16383⟩) false

def FrequencyInfoFDD : Ty :=
  .sequence ⟨[0], 1, 1, 3⟩ <| members [
    (true, UARFCN, none),
    (false, UARFCN, none)]

def FrequencyInfoTDD : Ty :=
  .sequence ⟨[], 0, 0, 2⟩ <| members [
    (false, UARFCN, none)]

def modeSpecificFreqInfo_2 : Ty :=
  .choice (onValue ⟨APC_CONSTRAINED ||| APC_EXTENSIBLE, 1, 1, 0, 1⟩) 2 <| members [
    (false, FrequencyInfoFDD, none),
    (false, FrequencyInfoTDD, none)]

def FrequencyInfo : Ty :=
  .sequence ⟨[], 0, 0, 2⟩ <| members [
    (false, modeSpecificFreqInfo_2, none)]

def UTRA_CarrierRSSI : Ty := .nativeInteger (onValue ⟨APC_CONSTRAINED, 7, 7, 0, 127⟩) false

def PrimaryCPICH_Info : Ty :=
  .sequence ⟨[], 0, -1, -1⟩ <| members [
    (false, NativeInteger, onValue ⟨APC_CONSTRAINED, 9, 9, 0, 511⟩)]

def CPICH_Ec_N0 : Ty := .nativeInteger (onValue ⟨APC_CONSTRAINED, 6, 6, 0, 63⟩) false

def CPICH_RSCP : Ty := .nativeInteger (onValue ⟨APC_CONSTRAINED, 7, 7, 0, 127⟩) false

def Pathloss : Ty := .nativeInteger (onValue ⟨APC_CONSTRAINED, 7, 7, 46, 173⟩) false

def fdd_4 : Ty :=
  .sequence ⟨[1, 2, 3], 3, -1, -1⟩ <| members [
    (false, PrimaryCPICH_Info, none),
    (true, CPICH_Ec_N0, none),
    (true, CPICH_RSCP, none),
    (true, Pathloss, none)]

def CellParametersID : Ty := .nativeInteger (onValue ⟨APC_CONSTRAINED, 7, 7, 0, 127⟩) false

def TGSN : Ty := .nativeInteger (onValue ⟨APC_CONSTRAINED, 4, 4, 0, 14⟩) false

def PrimaryCCPCH_RSCP : Ty := .nativeInteger (onValue ⟨APC_CONSTRAINED, 7, 7, 0, 127⟩) false

def TimeslotISCP : Ty := .nativeInteger (onValue ⟨APC_CONSTRAINED, 7, 7, 0, 127⟩) false

def TimeslotISCP_List : Ty := .sequenceOf (onSize ⟨APC_CONSTRAINED, 4, 4, 1, 14⟩) TimeslotISCP none

def tdd_9 : Ty :=
  .sequence ⟨[1, 2, 3, 4], 4, -1, -1⟩ <| members [
    (false, CellParametersID, none),
    (true, TGSN, none),
    (true, PrimaryCCPCH_RSCP, none),
    (true, Pathloss, none),
    (true, TimeslotISCP_List, none)]

def modeSpecificInfo_3 : Ty :=
  .choice (onValue ⟨APC_CONSTRAINED, 1, 1, 0, 1⟩) (-1) <| members [
    (false, fdd_4, none),
    (false, tdd_9, none)]

def CellMeasuredResults : Ty :=
  .sequence ⟨[0], 1, -1, -1⟩ <| members [
    (true, NativeInteger, onValue ⟨APC_CONSTRAINED, 28, -1, 0, 268435455⟩),
    (false, modeSpecificInfo_3, none)]

def CellMeasuredResultsList : Ty :=
  .sequenceOf (onSize ⟨APC_CONSTRAINED, 5, 5, 1, 32⟩) CellMeasuredResults none

def MeasuredResults : Ty :=
  .sequence ⟨[0, 1, 2], 3, -1, -1⟩ <| members [
    (true, FrequencyInfo, none),
    (true, UTRA_CarrierRSSI, none),
    (true, CellMeasuredResultsList, none)]

def MeasuredResultsList : Ty :=
  .sequenceOf (onSize ⟨APC_CONSTRAINED, 3, 3, 1, 8⟩) MeasuredResults none

def WcdmaCellInformation : Ty :=
  .sequence ⟨[3, 4, 5], 3, 5, 7⟩ <| members [
    (false, NativeInteger, onValue ⟨APC_CONSTRAINED, 10, 10, 0, 999⟩),
    (false, NativeInteger, onValue ⟨APC_CONSTRAINED, 10, 10, 0, 999⟩),
    (false, NativeInteger, onValue ⟨APC_CONSTRAINED, 28, -1, 0, 268435455⟩),
    (true, FrequencyInfo, none),
    (true, NativeInteger, onValue ⟨APC_CONSTRAINED, 9, 9, 0, 511⟩),
    (true, MeasuredResultsList, none)]

def CdmaCellInformation : Ty :=
  .sequence ⟨[], 0, 7, 9⟩ <| members [
    (false, NativeInteger, onValue ⟨APC_CONSTRAINED, 16, 16, 0, 65535⟩),
    (false, NativeInteger, onValue ⟨APC_CONSTRAINED, 15, 15, 0, 32767⟩),
    (false, NativeInteger, onValue ⟨APC_CONSTRAINED, 16, 16, 0, 65535⟩),
    (false, NativeInteger, onValue ⟨APC_CONSTRAINED, 22, -1, 0, 4194303⟩),
    (false, NativeInteger, onValue ⟨APC_CONSTRAINED, 23, -1, 0, 8388607⟩),
    (false, NativeInteger, onValue ⟨APC_CONSTRAINED, 9, 9, 0, 511⟩),
    (false, NativeInteger, onValue ⟨APC_CONSTRAINED, 16, 16, 0, 65535⟩),
    (false, NativeInteger, onValue ⟨APC_CONSTRAINED, 22, -1, 0, 4194303⟩)]

def CellInfo : Ty :=
  .choice (onValue ⟨APC_CONSTRAINED ||| APC_EXTENSIBLE, 2, 2, 0, 2⟩) 3 <| members [
    (false, GsmCellInformation, none),
    (false, WcdmaCellInformation, none),
    (false, CdmaCellInformation, none)]

def Status : Ty :=
  .nativeEnumerated (onValue ⟨APC_CONSTRAINED ||| APC_EXTENSIBLE, 2, 2, 0, 2⟩) ⟨[0, 1, 2], 4⟩

def LocationId : Ty :=
  .sequence ⟨[], 0, 1, 3⟩ <| members [
    (false, CellInfo, none),
    (false, Status, none)]

def SUPLSTART : Ty :=
  .sequence ⟨[2], 1, 2, 4⟩ <| members [
    (false, SETCapabilities, none),
    (false, LocationId, none),
    (true, QoP, none)]

def SETAuthKey : Ty :=
  .choice (onValue ⟨APC_CONSTRAINED ||| APC_EXTENSIBLE, 1, 1, 0, 1⟩) 2 <| members [
    (false, BIT_STRING, onSize ⟨APC_CONSTRAINED, 0, 0, 128, 128⟩),
    (false, BIT_STRING, onSize ⟨APC_CONSTRAINED, 0, 0, 256, 256⟩)]

def KeyIdentity4 : Ty := .bitString (onSize ⟨APC_CONSTRAINED, 0, 0, 128, 128⟩)

def SUPLRESPONSE : Ty :=
  .sequence ⟨[1, 2, 3], 3, 3, 5⟩ <| members [
    (false, PosMethod, none),
    (true, SLPAddress, none),
    (true, SETAuthKey, none),
    (true, KeyIdentity4, none)]

def SatelliteInfoElement : Ty :=
  .sequence ⟨[], 0, 1, 3⟩ <| members [
    (false, NativeInteger, onValue ⟨APC_CONSTRAINED, 6, 6, 0, 63⟩),
    (false, NativeInteger, onValue ⟨APC_CONSTRAINED, 8, 8, 0, 255⟩)]

def SatelliteInfo : Ty :=
  .sequenceOf (onSize ⟨APC_CONSTRAINED, 5, 5, 1, 31⟩) SatelliteInfoElement none

def NavigationModel_1 : Ty :=
  .sequence ⟨[4], 1, 4, 6⟩ <| members [
    (false, NativeInteger, onValue ⟨APC_CONSTRAINED, 10, 10, 0, 1023⟩),
    (false, NativeInteger, onValue ⟨APC_CONSTRAINED, 8, 8, 0, 167⟩),
    (false, NativeInteger, onValue ⟨APC_CONSTRAINED, 5, 5, 0, 31⟩),
    (false, NativeInteger, onValue ⟨APC_CONSTRAINED, 4, 4, 0, 10⟩),
    (true, SatelliteInfo, none)]

def RequestedAssistData : Ty :=
  .sequence ⟨[9], 1, 9, 11⟩ <| members [
    (false, BOOLEAN, none),
    (false, BOOLEAN, none),
    (false, BOOLEAN, none),
    (false, BOOLEAN, none),
    (false, BOOLEAN, none),
    (false, BOOLEAN, none),
    (false, BOOLEAN, none),
    (false, BOOLEAN, none),
    (false, BOOLEAN, none),
    (true, NavigationModel_1, none)]

def UTCTime : Ty :=
  .octetString (some
    ⟨⟨APC_CONSTRAINED, 7, 7, 0x20, 0x7e⟩, ⟨APC_SEMI_CONSTRAINED, -1, -1, 0, 0⟩, none⟩)

def latitudeSign_2 : Ty :=
  .nativeEnumerated (onValue ⟨APC_CONSTRAINED, 1, 1, 0, 1⟩) ⟨[0, 1], 0⟩

def uncertainty_7 : Ty :=
  .sequence ⟨[], 0, -1, -1⟩ <| members [
    (false, NativeInteger, onValue ⟨APC_CONSTRAINED, 7, 7, 0, 127⟩),
    (false, NativeInteger, onValue ⟨APC_CONSTRAINED, 7, 7, 0, 127⟩),
    (false, NativeInteger, onValue ⟨APC_CONSTRAINED, 8, 8, 0, 180⟩)]

def altitudeDirection_2 : Ty :=
  .nativeEnumerated (onValue ⟨APC_CONSTRAINED, 1, 1, 0, 1⟩) ⟨[0, 1], 0⟩

def AltitudeInfo : Ty :=
  .sequence ⟨[], 0, 2, 4⟩ <| members [
    (false, altitudeDirection_2, none),
    (false, NativeInteger, onValue ⟨APC_CONSTRAINED, 15, 15, 0, 32767⟩),
    (false, NativeInteger, onValue ⟨APC_CONSTRAINED, 7, 7, 0, 127⟩)]

def PositionEstimate : Ty :=
  .sequence ⟨[3, 4, 5], 3, 5, 7⟩ <| members [
    (false, latitudeSign_2, none),
    (false, NativeInteger, onValue ⟨APC_CONSTRAINED, 23, -1, 0, 8388607⟩),
    (false, NativeInteger, onValue ⟨APC_CONSTRAINED, 24, -1, -8388608, 8388607⟩),
    (true, uncertainty_7, none),
    (true, NativeInteger, onValue ⟨APC_CONSTRAINED, 7, 7, 0, 100⟩),
    (true, AltitudeInfo, none)]

def Horvel : Ty :=
  .sequence ⟨[], 0, 1, 3⟩ <| members [
    (false, BIT_STRING, onSize ⟨APC_CONSTRAINED, 0, 0, 9, 9⟩),
    (false, BIT_STRING, onSize ⟨APC_CONSTRAINED, 0, 0, 16, 16⟩)]

def Horandvervel : Ty :=
  .sequence ⟨[], 0, 3, 5⟩ <| members [
    (false, BIT_STRING, onSize ⟨APC_CONSTRAINED, 0, 0, 1, 1⟩),
    (false, BIT_STRING, onSize ⟨APC_CONSTRAINED, 0, 0, 9, 9⟩),
    (false, BIT_STRING, onSize ⟨APC_CONSTRAINED, 0, 0, 16, 16⟩),
    (false, BIT_STRING, onSize ⟨APC_CONSTRAINED, 0, 0, 8, 8⟩)]

def Horveluncert : Ty :=
  .sequence ⟨[], 0, 2, 4⟩ <| members [
    (false, BIT_STRING, onSize ⟨APC_CONSTRAINED, 0, 0, 9, 9⟩),
    (false, BIT_STRING, onSize ⟨APC_CONSTRAINED, 0, 0, 16, 16⟩),
    (false, BIT_STRING, onSize ⟨APC_CONSTRAINED, 0, 0, 8, 8⟩)]

def Horandveruncert : Ty :=
  .sequence ⟨[], 0, 5, 7⟩ <| members [
    (false, BIT_STRING, onSize ⟨APC_CONSTRAINED, 0, 0, 1, 1⟩),
    (false, BIT_STRING, onSize ⟨APC_CONSTRAINED, 0, 0, 9, 9⟩),
    (false, BIT_STRING, onSize ⟨APC_CONSTRAINED, 0, 0, 16, 16⟩),
    (false, BIT_STRING, onSize ⟨APC_CONSTRAINED, 0, 0, 8, 8⟩),
    (false, BIT_STRING, onSize ⟨APC_CONSTRAINED, 0, 0, 8, 8⟩),
    (false, BIT_STRING, onSize ⟨APC_CONSTRAINED, 0, 0, 8, 8⟩)]

def Velocity : Ty :=
  .choice (onValue ⟨APC_CONSTRAINED ||| APC_EXTENSIBLE, 2, 2, 0, 3⟩) 4 <| members [
    (false, Horvel, none),
    (false, Horandvervel, none),
    (false, Horveluncert, none),
    (false, Horandveruncert, none)]

def Position : Ty :=
  .sequence ⟨[2], 1, 2, 4⟩ <| members [
    (false, UTCTime, none),
    (false, PositionEstimate, none),
    (true, Velocity, none)]

def PosPayLoad : Ty :=
  .choice (onValue ⟨APC_CONSTRAINED ||| APC_EXTENSIBLE, 2, 2, 0, 2⟩) 3 <| members [
    (false, OCTET_STRING, onSize ⟨APC_CONSTRAINED, 13, 13, 1, 8192⟩),
    (false, OCTET_STRING, onSize ⟨APC_CONSTRAINED, 13, 13, 1, 8192⟩),
    (false, OCTET_STRING, onSize ⟨APC_CONSTRAINED, 13, 13, 1, 8192⟩)]

def SUPLPOS : Ty :=
  .sequence ⟨[1], 1, 1, 3⟩ <| members [
    (false, PosPayLoad, none),
    (true, Velocity, none)]

def Ver : Ty := .bitString (onSize ⟨APC_CONSTRAINED, 0, 0, 64, 64⟩)

def SUPLPOSINIT : Ty :=
  .sequence ⟨[1, 3, 4, 5], 4, 5, 7⟩ <| members [
    (false, SETCapabilities, none),
    (true, RequestedAssistData, none),
    (false, LocationId, none),
    (true, Position, none),
    (true, SUPLPOS, none),
    (true, Ver, none)]

def StatusCode : Ty :=
  .nativeEnumerated (onValue ⟨APC_CONSTRAINED ||| APC_EXTENSIBLE, 5, 5, 0, 19⟩)
    ⟨[0, 1, 2, 3, 4, 5, 6, 7, 8, 9, 10, 11, 12, 13, 14, 15, 16, 17, 100, 101], 21⟩

def SUPLEND : Ty :=
  .sequence ⟨[0, 1, 2], 3, 2, 4⟩ <| members [
    (true, Position, none),
    (true, StatusCode, none),
    (true, Ver, none)]

def SETNonce : Ty := .bitString (onSize ⟨APC_CONSTRAINED, 0, 0, 128, 128⟩)

def KeyIdentity2 : Ty := .bitString (onSize ⟨APC_CONSTRAINED, 0, 0, 128, 128⟩)

def SUPLAUTHREQ : Ty :=
  .sequence ⟨[], 0, 1, 3⟩ <| members [
    (false, SETNonce, none),
    (false, KeyIdentity2, none)]

def SPCAuthKey : Ty :=
  .choice (onValue ⟨APC_CONSTRAINED ||| APC_EXTENSIBLE, 1, 1, 0, 1⟩) 2 <| members [
    (false, BIT_STRING, onSize ⟨APC_CONSTRAINED, 0, 0, 128, 128⟩),
    (false, BIT_STRING, onSize ⟨APC_CONSTRAINED, 0, 0, 256, 256⟩)]

def KeyIdentity3 : Ty := .bitString (onSize ⟨APC_CONSTRAINED, 0, 0, 128, 128⟩)

def SUPLAUTHRESP : Ty :=
  .sequence ⟨[0, 1, 2], 3, 2, 4⟩ <| members [
    (true, SPCAuthKey, none),
    (true, KeyIdentity3, none),
    (true, StatusCode, none)]

def UlpMessage : Ty :=
  .choice (onValue ⟨APC_CONSTRAINED ||| APC_EXTENSIBLE, 3, 3, 0, 7⟩) 8 <| members [
    (false, SUPLINIT, none),
    (false, SUPLSTART, none),
    (false, SUPLRESPONSE, none),
    (false, SUPLPOSINIT, none),
    (false, SUPLPOS, none),
    (false, SUPLEND, none),
    (false, SUPLAUTHREQ, none),
    (false, SUPLAUTHRESP, none)]

def ULP_PDU : Ty :=
  .sequence ⟨[], 0, -1, -1⟩ <| members [
    (false, NativeInteger, onValue ⟨APC_CONSTRAINED, 16, 16, 0, 65535⟩),
    (false, Version, none),
    (false, SessionID, none),
    (false, UlpMessage, none)]

/-- The descriptors are as they should be. -/
theorem ULP_PDU_ok : ULP_PDU.ok none = true := by decide +kernel

end HikeyHal.Uper.Ulp
