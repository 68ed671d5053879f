import HikeyHal.Supl.SubscriberIdentity
import HikeyHal.Supl.UplPosition
import HikeyHal.Uper.Spots
import HikeyHal.Uper.UlpMessages

/-!
# Messages of a SET

`supl/uplsend.cpp`: how a SUPL START, a SUPL POS INIT, a SUPL POS and a SUPL END are filled
in, with the session, the capabilities and the cell that the other parts of the driver know.
What `sendAndFree` makes of them depends on the encoder, which does not find room for a cell
of the third generation in every place.

`copySetId` and `copySlpId` copy what is copied octet for octet. Allocations succeed.
-/

namespace HikeyHal.Supl.UplSend

open HikeyHal.Lib HikeyHal.Uper HikeyHal.Uper.Ulp

/-! ## What the messages are filled in with -/

inductive AGpsRefLocationType where
  | gsmCellid | umtsCellid | other
deriving DecidableEq, Repr

structure AGpsRefLocation where
  type : AGpsRefLocationType
  mcc : UInt16
  mnc : UInt16
  lac : UInt16
  cid : UInt32
deriving DecidableEq, Repr

inductive PosMethod where
  | agpsSETassisted | agpsSETbased | agpsSETassistedpref | agpsSETbasedpref | autonomousGPS
  | aFLT | eCID | eOTD | oTDOA | noPosition
deriving DecidableEq, Repr

/-- The flags of `CUbxGpsState` -/
structure AssistRequests where
  almanac : Bool
  utcModel : Bool
  ionosphericModel : Bool
  dgpsCorrections : Bool
  refLoc : Bool
  refTime : Bool
  acquisitionAssist : Bool
  realTimeIntegrity : Bool
  navigationModel : Bool
deriving DecidableEq, Repr

/-- `CRilIf`, `CGpsIf`, `CUbxGpsState` and `CMyDatabase`, as far as they are asked; `heap` is
what freshly allocated memory and the memory behind it hold. -/
structure Driver where
  heap : ℕ → UInt8
  ids : RilIds
  clientIP : UInt32
  refLocation : AGpsRefLocation
  msBased : Bool
  capabilityMsa : Bool
  capabilityMsb : Bool
  requests : AssistRequests
  position : Upl.PositionData

/-! ## Filling in -/

def fillVersion : Val := .sequence [some (.integer 1), some (.integer 0), some (.integer 0)]

/-- The number of a subscriber goes before the address. -/
def setId (d : Driver) : Val :=
  if d.ids.setidImsi ≠ [] then .choice 4 (.octets (fillSubscriberIdentity d.heap d.ids.setidImsi))
  else if d.ids.setidMsisdn ≠ [] then
    .choice 1 (.octets (fillSubscriberIdentity d.heap d.ids.setidMsisdn))
  else .choice 6 (.choice 1 (.octets (leBytes 4 d.clientIP.toNat)))

def fillDefaultSetId (d : Driver) (sessionId : ℤ) : Option Val :=
  if sessionId < 0 then none
  else some (.sequence [some (.integer (Int64.ofInt sessionId)), some (setId d)])

inductive SlpAddress where
  | ipv4Address (buf : Fin 4 → UInt8)
  | ipv6Address (buf : Fin 16 → UInt8)
  | fQDN (buf : List UInt8)

structure SlpSession where
  sessionID : Fin 4 → UInt8
  slpId : SlpAddress

def SlpAddress.val : SlpAddress → Val
  | ipv4Address buf => .choice 1 (.choice 1 (.octets (List.ofFn buf)))
  | ipv6Address buf => .choice 1 (.choice 2 (.octets (List.ofFn buf)))
  | fQDN buf => .choice 2 (.octets buf)

def SlpSession.val (slp : SlpSession) : Val :=
  .sequence [some (.octets (List.ofFn slp.sessionID)), some slp.slpId.val]

def fillSessionId (pSetId : Option Val) (pSlpId : Option SlpSession) : Val :=
  .sequence [pSetId, pSlpId.map SlpSession.val]

/-- `prefMethod`, which is 0 where nothing is written to it -/
def setupPosMethod (d : Driver) : PosMethod → Int64
  | .agpsSETbased => if d.capabilityMsb then 1 else 0
  | .agpsSETassistedpref => if d.capabilityMsa then 0 else if d.capabilityMsb then 1 else 0
  | .agpsSETbasedpref => if d.capabilityMsb then 1 else 0
  | .eCID => if d.capabilityMsb then 1 else 0
  | _ => 0

def prefMethod (d : Driver) (requestedPosMethod : PosMethod) : Int64 :=
  if requestedPosMethod = .noPosition then if d.msBased then 1 else 0
  else setupPosMethod d requestedPosMethod

def flags (bs : List Bool) : Val := .sequence (bs.map fun b => some (.boolean b))

def setCapability (d : Driver) (requestedPosMethod : PosMethod) : Val :=
  .sequence [some (flags [true, true, false, false, false, false, false]),
    some (.integer (prefMethod d requestedPosMethod)), some (flags [false, true, false])]

/-- A number of a cell -/
def cellNumber (n : ℕ) : Option Val := some (.integer (Int64.ofNat n))

def fillLocation (d : Driver) : Val :=
  let refloc := d.refLocation
  match refloc.type with
  | .gsmCellid =>
      .sequence [some (.choice 1 (.sequence [cellNumber refloc.mcc.toNat,
        cellNumber refloc.mnc.toNat, cellNumber refloc.lac.toNat, cellNumber refloc.cid.toNat,
        none, none])), some (.integer 1)]
  | .umtsCellid =>
      .sequence [some (.choice 2 (.sequence [cellNumber refloc.mcc.toNat,
        cellNumber refloc.mnc.toNat, cellNumber refloc.cid.toNat, none, none, none])),
        some (.integer 1)]
  | .other =>
      .sequence [some (.choice 1 (.sequence [cellNumber 0, cellNumber 0, cellNumber 0,
        cellNumber 0, none, none])), some (.integer 2)]

/-- With a navigation model that names no satellites, where one is requested -/
def fillAssistRequestFlags (r : AssistRequests) : Val :=
  .sequence [some (.boolean r.almanac), some (.boolean r.utcModel),
    some (.boolean r.ionosphericModel), some (.boolean r.dgpsCorrections),
    some (.boolean r.refLoc), some (.boolean r.refTime), some (.boolean r.acquisitionAssist),
    some (.boolean r.realTimeIntegrity), some (.boolean r.navigationModel),
    if r.navigationModel then
      some (.sequence [some (.integer 0), some (.integer 0), some (.integer 0),
        some (.integer 0), none])
    else none]

def allocateVer (hash : BitVec 64) : Val := .bits (allocateAndWriteBitString hash 64).bits

def velocityVal (v : Upl.Velocity) : Val :=
  .choice 1 (.sequence [some (.bits v.bearing.bits), some (.bits v.horspeed.bits)])

/-- A time that cannot be written leaves the string empty. -/
def positionVal (p : Upl.Position) : Val :=
  let est := p.positionEstimate
  .sequence [
    some (.octets ((p.timestamp.getD []).map fun c => UInt8.ofNat c.toNat)),
    some (.sequence [
      some (.integer (if est.latitudeSign = .south then 1 else 0)),
      some (.integer (Int64.ofInt est.latitude)), some (.integer (Int64.ofInt est.longitude)),
      none, none,
      est.altitudeInfo.map fun alt =>
        .sequence [some (.integer (if alt.altitudeDirection = .depth then 1 else 0)),
          some (.integer (Int64.ofInt alt.altitude)),
          some (.integer (Int64.ofInt alt.altUncertainty))]]),
    p.velocity.map velocityVal]

/-! ## Messages -/

/-- "Length magic number... will be replaced after with the correct one!" -/
def ulpPdu (pSetId : Option Val) (pSlpId : Option SlpSession) (present : ℕ) (message : Val) :
    Val :=
  .sequence [some (.integer 0x1311), some fillVersion, some (fillSessionId pSetId pSlpId),
    some (.choice present message)]

def suplStart (d : Driver) (pSetId : Option Val) : Val :=
  ulpPdu pSetId none 2
    (.sequence [some (setCapability d .noPosition), some (fillLocation d), none])

/-- `position` is what `posEn` and the coordinates stand for. -/
structure SuplPosInitParam where
  pSlpId : Option SlpSession
  position : Option (ℚ × ℚ)
  assEn : Bool
  hash : Option (BitVec 64)
  requestedPosMethod : PosMethod

def suplPosInit (d : Driver) (pSetId : Option Val) (pParam : SuplPosInitParam) : Val :=
  ulpPdu pSetId pParam.pSlpId 4
    (.sequence [some (setCapability d pParam.requestedPosMethod),
      if pParam.assEn then some (fillAssistRequestFlags d.requests) else none,
      some (fillLocation d),
      pParam.position.map fun p => positionVal (Upl.allocatePosition d.position p.1 p.2),
      none, pParam.hash.map allocateVer])

def suplPos (d : Driver) (pSetId : Option Val) (pSlpId : Option SlpSession)
    (buffer : List UInt8) : Val :=
  ulpPdu pSetId pSlpId 5
    (.sequence [some (.choice 3 (.octets buffer)),
      d.position.speedKnots.map fun speed =>
        velocityVal (Upl.allocateVelocity speed d.position.trueHeadingDegrees)])

structure SuplEndParam where
  pSlpId : Option SlpSession
  status : Int64
  position : Option (ℚ × ℚ)
  hash : Option (BitVec 64)

def suplEnd (d : Driver) (pSetId : Option Val) (pParam : SuplEndParam) : Val :=
  ulpPdu pSetId pParam.pSlpId 6
    (.sequence [
      pParam.position.map fun p => positionVal (Upl.allocatePosition d.position p.1 p.2),
      if 0 < pParam.status then some (.integer pParam.status) else none,
      pParam.hash.map allocateVer])

/-! ## Where the number of a cell falls -/

section Spots

variable (d : Driver)

/-- A subscriber number is there. -/
def HasNumber : Prop := d.ids.setidImsi ≠ [] ∨ d.ids.setidMsisdn ≠ []

instance : Decidable (HasNumber d) := inferInstanceAs (Decidable (_ ∨ _))

theorem setId_spots : SETId.spots none (setId d) = .few (if HasNumber d then 68 else 37) := by
  unfold setId
  by_cases himsi : d.ids.setidImsi ≠ []
  · have hnumber : HasNumber d := Or.inl himsi
    rw [if_pos himsi, if_pos hnumber]
    rfl
  · rw [if_neg himsi]
    by_cases hmsisdn : d.ids.setidMsisdn ≠ []
    · have hnumber : HasNumber d := Or.inr hmsisdn
      rw [if_pos hmsisdn, if_pos hnumber]
      rfl
    · have hnumber : ¬ HasNumber d := not_or.mpr ⟨himsi, hmsisdn⟩
      rw [if_neg hmsisdn, if_neg hnumber]
      rfl

/-- How many bits the session takes that the SPL has named -/
def SlpSession.bits (slp : SlpSession) : ℕ :=
  match slp.slpId with
  | .ipv4Address _ => 67
  | .ipv6Address _ => 163
  | .fQDN buf => 42 + 6 * buf.length

theorem slpSession_spots (slp : SlpSession) :
    SlpSessionID.spots none slp.val = .few slp.bits := by
  obtain ⟨sessionID, buf | buf | buf⟩ := slp
  · rfl
  · rfl
  · have hname : FQDN.spots none (.octets buf) = .few (8 + 6 * buf.length) := rfl
    have haddress : SLPAddress.spots none (.choice 2 (.octets buf)) =
        .few 2 ++ FQDN.spots none (.octets buf) := rfl
    have hall : SlpSessionID.spots none (SlpSession.val ⟨sessionID, .fQDN buf⟩) =
        .few 0 ++ (.few 0 ++ (.few 32 ++
          (SLPAddress.spots none (.choice 2 (.octets buf)) ++ .few 0))) := rfl
    rw [hall, haddress, hname]
    simp only [Spots.few_append]
    exact congrArg Spots.few (by simp only [SlpSession.bits]; omega)

/-- A session that the SET has named, as `fillDefaultSetId` fills it in -/
def ownSession (sessionId : ℤ) : Val :=
  .sequence [some (.integer (Int64.ofInt sessionId)), some (setId d)]

/-- How many bits the sessions take -/
def sessionBits (pSlpId : Option SlpSession) : ℕ :=
  18 + (if HasNumber d then 68 else 37) + pSlpId.elim 0 SlpSession.bits

theorem session_spots (sessionId : ℤ) (pSlpId : Option SlpSession) :
    SessionID.spots none (fillSessionId (some (ownSession d sessionId)) pSlpId) =
      .few (sessionBits d pSlpId) := by
  have hown : SetSessionID.spots none (ownSession d sessionId) =
      .few 0 ++ (.few 0 ++ (.few 16 ++ (SETId.spots none (setId d) ++ .few 0))) := rfl
  unfold fillSessionId sessionBits
  cases pSlpId with
  | none =>
      change .few 0 ++ (.few 2 ++ (SetSessionID.spots none _ ++ .few 0)) = _
      rw [hown, setId_spots]
      simp only [Spots.few_append]
      exact congrArg Spots.few (by simp only [Option.elim_none]; omega)
  | some slp =>
      change .few 0 ++ (.few 2 ++ (SetSessionID.spots none _ ++
        (SlpSessionID.spots none slp.val ++ .few 0))) = _
      rw [hown, setId_spots, slpSession_spots]
      simp only [Spots.few_append]
      exact congrArg Spots.few (by simp only [Option.elim_some]; omega)

theorem capability_spots (requestedPosMethod : PosMethod) :
    SETCapabilities.spots none (setCapability d requestedPosMethod) = .few 15 := by
  have hpref : prefMethod d requestedPosMethod = 0 ∨ prefMethod d requestedPosMethod = 1 := by
    unfold prefMethod setupPosMethod
    cases d.msBased <;> cases d.capabilityMsa <;> cases d.capabilityMsb <;>
      cases requestedPosMethod <;> decide
  unfold setCapability
  rcases hpref with h | h <;> rw [h] <;> rfl

/-- The number of a cell of the third generation has 28 bits. -/
theorem location_spots : LocationId.spots none (fillLocation d) =
    if d.refLocation.type = .umtsCellid then ⟨some 59, some [(28, 28)]⟩ else .few 62 := by
  unfold fillLocation
  rcases d.refLocation with ⟨_ | _ | _, mcc, mnc, lac, cid⟩ <;> rfl

theorem assistance_spots (r : AssistRequests) :
    RequestedAssistData.spots none (fillAssistRequestFlags r) =
      .few (if r.navigationModel then 40 else 11) := by
  unfold fillAssistRequestFlags
  rcases r.navigationModel with _ | _ <;> rfl

theorem velocity_spots (v : Upl.Velocity) :
    (Ulp.Velocity.spots none (velocityVal v)).wide = some [] := rfl

theorem position_spots (p : Upl.Position) :
    (Ulp.Position.spots none (positionVal p)).wide = some [] := by
  obtain ⟨timestamp, ⟨_ | _, lat, lon, _ | ⟨_ | _, alt, unc⟩⟩, _ | v⟩ := p <;> rfl

/-! ## Whole messages -/

theorem ulpPdu_spots (pSetId : Option Val) (pSlpId : Option SlpSession) (present : ℕ)
    (message : Val) : ULP_PDU.spots none (ulpPdu pSetId pSlpId present message) =
      .few 0 ++ (.few 0 ++ (.few 16 ++ (.few 24 ++ (SessionID.spots none
        (fillSessionId pSetId pSlpId) ++
          (Ulp.UlpMessage.spots none (.choice present message) ++ .few 0))))) := rfl

/-- The places of wide calls behind so many bits -/
def behind (n : ℕ) (ws : List (ℕ × ℕ)) : List (ℕ × ℕ) := ws.map fun p => (n + p.1, p.2)

variable {d}

theorem nothing_wide : (Spots.few 0).wide = some [] := rfl

theorem wide_behind {s : Spots} {ws : List (ℕ × ℕ)} (hs : s.wide = some ws) (n : ℕ) :
    (.few n ++ s).wide = some (behind n ws) := by
  rw [Spots.wide_few_append, hs]
  rfl

theorem behind_behind (m n : ℕ) (ws : List (ℕ × ℕ)) :
    behind m (behind n ws) = behind (m + n) ws := by
  unfold behind
  rw [List.map_map]
  exact List.map_congr_left fun p _ => congrArg (·, p.2) (Nat.add_assoc m n p.1).symm

/-- The session goes before the message, and 40 bits before it. -/
theorem ulpPdu_wide {pSlpId : Option SlpSession} {present : ℕ} {message : Val}
    {ws : List (ℕ × ℕ)}
    (hmessage : (Ulp.UlpMessage.spots none (.choice present message)).wide = some ws)
    (sessionId : ℤ) :
    (ULP_PDU.spots none (ulpPdu (some (ownSession d sessionId)) pSlpId present message)).wide =
      some (behind (40 + sessionBits d pSlpId) ws) := by
  have hlast := (Spots.wide_append_narrow _ nothing_wide).trans hmessage
  have hfirst := wide_behind (wide_behind (wide_behind (wide_behind (wide_behind hlast
    (sessionBits d pSlpId)) 24) 16) 0) 0
  rw [ulpPdu_spots, session_spots, hfirst]
  simp only [behind_behind]
  exact congrArg (fun n => some (behind n ws)) (by omega)

/-- The number of the cell, if it is a wide one, behind so many bits -/
def cellSpots (d : Driver) (place : ℕ) : List (ℕ × ℕ) :=
  if d.refLocation.type = .umtsCellid then [(place, 28)] else []

theorem behind_cell (n place : ℕ) : behind n (cellSpots d place) = cellSpots d (n + place) := by
  unfold cellSpots
  split_ifs <;> rfl

theorem location_wide (d : Driver) :
    (LocationId.spots none (fillLocation d)).wide = some (cellSpots d 28) := by
  rw [location_spots, cellSpots]
  split_ifs <;> rfl

theorem suplStart_wide (d : Driver) (sessionId : ℤ) :
    (ULP_PDU.spots none (suplStart d (some (ownSession d sessionId)))).wide =
      some (cellSpots d (if HasNumber d then 175 else 144)) := by
  have hmessage : Ulp.UlpMessage.spots none (.choice 2 (.sequence
      [some (setCapability d .noPosition), some (fillLocation d), none])) =
        .few 4 ++ (.few 1 ++ (.few 1 ++ (SETCapabilities.spots none (setCapability d .noPosition) ++
          (LocationId.spots none (fillLocation d) ++ .few 0)))) := rfl
  have hlocation := (Spots.wide_append_narrow _ nothing_wide).trans (location_wide d)
  have hplace := wide_behind (wide_behind (wide_behind (wide_behind hlocation 15) 1) 1) 4
  rw [capability_spots] at hmessage
  rw [suplStart, ulpPdu_wide (hmessage ▸ hplace), sessionBits]
  simp only [behind_cell]
  refine congrArg (fun place => some (cellSpots d place)) ?_
  split_ifs <;> rfl

/-- A member that may be there, and what is behind it -/
def optionalSpots (td : Ty) (field : Option Val) (more : Spots) : Spots :=
  field.elim more fun value => td.spots none value ++ more

theorem optional_narrow {td : Ty} {field : Option Val} {more : Spots}
    (hfield : ∀ value ∈ field, (td.spots none value).wide = some [])
    (hmore : more.wide = some []) : (optionalSpots td field more).wide = some [] := by
  cases field with
  | none => exact hmore
  | some value => exact (Spots.wide_append_narrow _ hmore).trans (hfield value rfl)

/-- How many bits a request for assistance takes -/
def assistanceBits (r : AssistRequests) (assEn : Bool) : ℕ :=
  if assEn then if r.navigationModel then 40 else 11 else 0

theorem assistance_wide {more : Spots} {place : ℕ} (hmore : more.wide = some (cellSpots d place))
    (r : AssistRequests) (assEn : Bool) :
    (optionalSpots RequestedAssistData (if assEn then some (fillAssistRequestFlags r) else none)
      more).wide = some (cellSpots d (assistanceBits r assEn + place)) := by
  cases assEn with
  | false => exact hmore.trans (congrArg (fun n => some (cellSpots d n)) (Nat.zero_add place).symm)
  | true =>
      change (RequestedAssistData.spots none (fillAssistRequestFlags r) ++ more).wide = _
      rw [assistance_spots, wide_behind hmore, behind_cell]
      rfl

/-- How many bits are put before the number of the cell -/
def posInitPlace (d : Driver) (pParam : SuplPosInitParam) : ℕ :=
  92 + sessionBits d pParam.pSlpId + assistanceBits d.requests pParam.assEn

theorem position_narrow (d : Driver) (position : Option (ℚ × ℚ)) :
    ∀ value ∈ position.map fun p => positionVal (Upl.allocatePosition d.position p.1 p.2),
      (Ulp.Position.spots none value).wide = some [] := by
  intro value hvalue
  obtain ⟨p, -, rfl⟩ := Option.mem_map.mp hvalue
  exact position_spots _

theorem ver_narrow (hash : Option (BitVec 64)) :
    ∀ value ∈ hash.map allocateVer, (Ver.spots none value).wide = some [] := by
  intro value hvalue
  obtain ⟨hash, -, rfl⟩ := Option.mem_map.mp hvalue
  rfl

theorem suplPosInit_wide (d : Driver) (sessionId : ℤ) (pParam : SuplPosInitParam) :
    (ULP_PDU.spots none (suplPosInit d (some (ownSession d sessionId)) pParam)).wide =
      some (cellSpots d (posInitPlace d pParam)) := by
  have hmessage : ∀ caps assistance location position ver, Ulp.UlpMessage.spots none (.choice 4
      (.sequence [some caps, assistance, some location, position, none, ver])) =
        .few 4 ++ (.few 1 ++ (.few 4 ++ (SETCapabilities.spots none caps ++
          optionalSpots RequestedAssistData assistance (LocationId.spots none location ++
            optionalSpots Ulp.Position position (optionalSpots Ver ver (.few 0)))))) := by
    rintro caps (_ | assistance) location (_ | position) (_ | ver) <;> rfl
  have htail := optional_narrow (position_narrow d pParam.position)
    (optional_narrow (ver_narrow pParam.hash) nothing_wide)
  have hlocation := (Spots.wide_append_narrow _ htail).trans (location_wide d)
  have hplace := wide_behind (wide_behind (wide_behind (wide_behind
    (assistance_wide hlocation d.requests pParam.assEn) 15) 4) 1) 4
  have hall := hmessage (setCapability d pParam.requestedPosMethod)
    (if pParam.assEn then some (fillAssistRequestFlags d.requests) else none) (fillLocation d)
    (pParam.position.map fun p => positionVal (Upl.allocatePosition d.position p.1 p.2))
    (pParam.hash.map allocateVer)
  rw [capability_spots] at hall
  rw [suplPosInit, ulpPdu_wide (hall ▸ hplace), posInitPlace]
  simp only [behind_cell]
  exact congrArg (fun place => some (cellSpots d place)) (by omega)

theorem suplPos_wide (d : Driver) (sessionId : ℤ) (pSlpId : Option SlpSession)
    (buffer : List UInt8) :
    (ULP_PDU.spots none (suplPos d (some (ownSession d sessionId)) pSlpId buffer)).wide =
      some [] := by
  have hmessage : ∀ velocity, Ulp.UlpMessage.spots none (.choice 5
      (.sequence [some (.choice 3 (.octets buffer)), velocity])) =
        .few 4 ++ (.few 1 ++ (.few 1 ++ (PosPayLoad.spots none (.choice 3 (.octets buffer)) ++
          optionalSpots Ulp.Velocity velocity (.few 0)))) := by
    rintro (_ | velocity) <;> rfl
  have hvelocity : ∀ value ∈ d.position.speedKnots.map fun speed =>
      velocityVal (Upl.allocateVelocity speed d.position.trueHeadingDegrees),
        (Ulp.Velocity.spots none value).wide = some [] := by
    intro value hvalue
    obtain ⟨speed, -, rfl⟩ := Option.mem_map.mp hvalue
    exact velocity_spots _
  have hpayload : (PosPayLoad.spots none (.choice 3 (.octets buffer))).wide = some [] := rfl
  have htail := (Spots.wide_append_narrow _
    (optional_narrow hvelocity nothing_wide)).trans hpayload
  have hplace := wide_behind (wide_behind (wide_behind htail 1) 1) 4
  rw [suplPos, ulpPdu_wide (hmessage _ ▸ hplace)]
  rfl

theorem status_narrow (status : Int64) :
    (Ulp.StatusCode.spots none (.integer status)).wide = some [] := by
  change (if _ then rootSpots _ else Spots.unknown true).wide = some []
  split_ifs <;> rfl

theorem suplEnd_wide (d : Driver) (sessionId : ℤ) (pParam : SuplEndParam) :
    (ULP_PDU.spots none (suplEnd d (some (ownSession d sessionId)) pParam)).wide = some [] := by
  have hmessage : ∀ position status ver, Ulp.UlpMessage.spots none (.choice 6
      (.sequence [position, status, ver])) =
        .few 4 ++ (.few 1 ++ (.few 3 ++ optionalSpots Ulp.Position position
          (optionalSpots Ulp.StatusCode status (optionalSpots Ver ver (.few 0))))) := by
    rintro (_ | position) (_ | status) (_ | ver) <;> rfl
  have hstatus : ∀ value ∈ (if 0 < pParam.status then some (Val.integer pParam.status) else none),
      (Ulp.StatusCode.spots none value).wide = some [] := by
    intro value hvalue
    split_ifs at hvalue
    · cases hvalue
      exact status_narrow _
    · cases hvalue
  have htail := optional_narrow (position_narrow d pParam.position)
    (optional_narrow hstatus (optional_narrow (ver_narrow pParam.hash) nothing_wide))
  have hplace := wide_behind (wide_behind (wide_behind htail 3) 1) 4
  rw [suplEnd, ulpPdu_wide (hmessage _ _ _ ▸ hplace)]
  rfl

end Spots

/-! ## What is sent -/

/-- What is sent is the encoding of the message with the length of what is sent. -/
def SentWhole (stack : ℕ → UInt8) (pMsg : Val) (buf : List UInt8) : Prop :=
  ∃ cs, (ULP_PDU.codec none).uper_encoder stack (withLength (buf.length % 65536) pMsg) = some cs ∧
    buf = complete (chunkBits cs)

/-- That is so if and only if the wide calls find room; everywhere else it is too long. -/
theorem sentWhole_iff {stack : ℕ → UInt8} {pMsg : Val} {buf : List UInt8} {ws : List (ℕ × ℕ)}
    (hwide : (ULP_PDU.spots none pMsg).wide = some ws) (h : sendAndFree stack pMsg = some buf) :
    SentWhole stack pMsg buf ↔ Roomy 0 ws := by
  obtain ⟨cs, hcs⟩ : ∃ cs, (ULP_PDU.codec none).uper_encoder stack pMsg = some cs := by
    rcases hcalls : (ULP_PDU.codec none).uper_encoder stack pMsg with _ | cs
    · rw [sendAndFree, encodeToNewBuffer, hcalls] at h
      cases h
    · exact ⟨cs, rfl⟩
  rw [← Ty.fits_iff hwide hcs]
  constructor
  · rintro ⟨ds, hds, hbuf⟩
    by_contra hno
    obtain ⟨octets, hoctets, -, hlonger⟩ := encode_fits_or_longer stack cs
    rw [sendAndFree, encodeToNewBuffer, hcs, hoctets] at h
    have hlen := congrArg List.length (Option.some.inj h)
    -- another length does not change the number of bits
    obtain ⟨length, es, rfl, hothers⟩ := calls_of_message hcs
    rw [hothers _ (Nat.mod_lt _ (by decide))] at hds
    cases hds
    have hbits := congrArg List.length hbuf
    have := hlonger hno
    simp only [List.length_set, length_complete, chunkBits_cons, List.length_append,
      Chunk.length_string] at hlen hbits this
    omega
  · intro hfits
    obtain ⟨ds, hsend, -, hds⟩ := sendAndFree_eq hcs hfits
    rw [h] at hsend
    cases hsend
    exact ⟨ds, hds, rfl⟩

theorem roomy_cell (d : Driver) (place : ℕ) : Roomy 0 (cellSpots d place) ↔
    (d.refLocation.type = .umtsCellid → place % 8 ≤ 3) := by
  unfold cellSpots
  split_ifs with hcell
  · rw [Roomy, List.forall_mem_singleton, Nat.zero_add]
    exact ⟨fun h _ => by omega, fun h => by have := h hcell; omega⟩
  · exact iff_of_true (fun p hp => absurd hp List.not_mem_nil) fun h => absurd h hcell

theorem roomy_nil : Roomy 0 [] := fun _ hp => absurd hp List.not_mem_nil

section Sent

variable {stack : ℕ → UInt8} {d : Driver} {sessionId : ℤ} {buf : List UInt8}

/-- **A SUPL START is sent whole if and only if it does not name both a cell of the third
generation and a subscriber.** -/
theorem sendSuplStart_whole_iff
    (h : sendAndFree stack (suplStart d (some (ownSession d sessionId))) = some buf) :
    SentWhole stack (suplStart d (some (ownSession d sessionId))) buf ↔
      ¬ (d.refLocation.type = .umtsCellid ∧ HasNumber d) := by
  rw [sentWhole_iff (suplStart_wide d sessionId) h, roomy_cell, not_and]
  refine imp_congr_right fun _ => ?_
  split_ifs with hnumber
  · exact iff_of_false (by decide) (not_not.mpr hnumber)
  · exact iff_of_true (by decide) hnumber

/-- A phone with a subscriber in a network of the third generation -/
def umtsDriver : Driver where
  heap _ := 0
  ids := { setidImsi := [0x34, 0x36, 0x30, 0x30, 0x30, 0x31] }
  clientIP := 0
  refLocation := ⟨.umtsCellid, 460, 1, 0, 17⟩
  msBased := true
  capabilityMsa := true
  capabilityMsb := true
  requests := ⟨true, true, true, true, true, true, true, true, true⟩
  position := ⟨none, none, none, none⟩

theorem umts_start_not_whole : ∃ buf,
    sendAndFree (fun _ => 0) (suplStart umtsDriver (some (ownSession umtsDriver 1))) = some buf ∧
      ¬ SentWhole (fun _ => 0) (suplStart umtsDriver (some (ownSession umtsDriver 1))) buf := by
  obtain ⟨buf, hbuf⟩ := Option.isSome_iff_exists.mp (by decide +kernel : (sendAndFree
    (fun _ => 0) (suplStart umtsDriver (some (ownSession umtsDriver 1)))).isSome = true)
  exact ⟨buf, hbuf, fun h => (sendSuplStart_whole_iff hbuf).mp h ⟨rfl, Or.inl (by decide)⟩⟩

/-- **A SUPL POS INIT is if and only if the number of such a cell does not begin in the second
half of an octet.** -/
theorem sendSuplPosInit_whole_iff (pParam : SuplPosInitParam)
    (h : sendAndFree stack (suplPosInit d (some (ownSession d sessionId)) pParam) = some buf) :
    SentWhole stack (suplPosInit d (some (ownSession d sessionId)) pParam) buf ↔
      (d.refLocation.type = .umtsCellid → posInitPlace d pParam % 8 ≤ 3) := by
  rw [sentWhole_iff (suplPosInit_wide d sessionId pParam) h, roomy_cell]

theorem umts_posInit_whole : ∃ buf,
    sendAndFree (fun _ => 0) (suplPosInit umtsDriver (some (ownSession umtsDriver 1))
      ⟨none, none, false, none, .agpsSETbased⟩) = some buf ∧
    SentWhole (fun _ => 0) (suplPosInit umtsDriver (some (ownSession umtsDriver 1))
      ⟨none, none, false, none, .agpsSETbased⟩) buf := by
  obtain ⟨buf, hbuf⟩ := Option.isSome_iff_exists.mp (by decide +kernel : (sendAndFree
    (fun _ => 0) (suplPosInit umtsDriver (some (ownSession umtsDriver 1))
      ⟨none, none, false, none, .agpsSETbased⟩)).isSome = true)
  exact ⟨buf, hbuf, (sendSuplPosInit_whole_iff _ hbuf).mpr fun _ => by decide⟩

theorem location_sendable : LocationId.sendable stack none (fillLocation d) = true := by
  unfold fillLocation
  rcases d.refLocation with ⟨_ | _ | _, mcc, mnc, lac, cid⟩ <;> rfl

theorem ownSession_sendable :
    SetSessionID.sendable stack none (ownSession d sessionId) = true := by
  have hid : SETId.sendable stack none (setId d) = true := by
    unfold setId
    split_ifs <;> rfl
  change ((true && (SETId.sendable stack none (setId d) && true)) && true) = true
  rw [hid]
  rfl

theorem suplStart_sendable :
    ULP_PDU.sendable stack none (suplStart d (some (ownSession d sessionId))) = true := by
  change ((true && (true && (((SetSessionID.sendable stack none (ownSession d sessionId) &&
    (true && true)) && true) && ((((SETCapabilities.sendable stack none
      (setCapability d .noPosition) && (LocationId.sendable stack none (fillLocation d) &&
        (true && true))) && true) && true) && true)))) && true) = true
  rw [ownSession_sendable, location_sendable]
  rfl

/-- **A SUPL START that is sent whole arrives if and only if all of it lies in the read**,
whatever follows it. -/
theorem sendSuplStart_arrives (hcell : ¬ (d.refLocation.type = .umtsCellid ∧ HasNumber d))
    (h : sendAndFree stack (suplStart d (some (ownSession d sessionId))) = some buf)
    (more : List UInt8) (k : ℕ) :
    uplDecode ((buf ++ more).take k) = if buf.length ≤ k then
      some (withLength (buf.length % 65536) (suplStart d (some (ownSession d sessionId))))
    else none := by
  rcases hcs : (ULP_PDU.codec none).uper_encoder stack
    (suplStart d (some (ownSession d sessionId))) with _ | cs
  · rw [sendAndFree, encodeToNewBuffer, hcs] at h
    cases h
  · have hroom : Roomy 0 (cellSpots d (if HasNumber d then 175 else 144)) := by
      rw [roomy_cell]
      intro humts
      rw [if_neg fun hnumber => hcell ⟨humts, hnumber⟩]
      decide
    let m : Message stack := ⟨_, cs, hcs, suplStart_sendable,
      (Ty.fits_iff (suplStart_wide d sessionId) hcs).mpr hroom⟩
    have hwire : m.wire = buf := by
      rw [Message.wire, h]
      rfl
    have hread := m.read more k
    rwa [Message.received, hwire] at hread

/-- A phone without a subscriber number, in the same network -/
def unnamedDriver : Driver := { umtsDriver with ids := {} }

theorem unnamed_start_arrives : ∃ buf v,
    sendAndFree (fun _ => 0) (suplStart unnamedDriver (some (ownSession unnamedDriver 1))) =
      some buf ∧ uplDecode ((buf ++ [0]).take buf.length) = some v := by
  obtain ⟨buf, hbuf⟩ := Option.isSome_iff_exists.mp (by decide +kernel : (sendAndFree
    (fun _ => 0) (suplStart unnamedDriver (some (ownSession unnamedDriver 1)))).isSome = true)
  have harrives := sendSuplStart_arrives (by decide) hbuf [0] buf.length
  rw [if_pos le_rfl] at harrives
  exact ⟨buf, _, hbuf, harrives⟩

end Sent

end HikeyHal.Supl.UplSend
