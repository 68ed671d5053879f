import Mathlib.Data.List.Nodup
import Mathlib.Data.List.Perm.Subperm
import Mathlib.Tactic.SplitIfs
import HikeyHal.Supl.Rrlp

/-!
# SUPL messages and the list of session handlers

The decoded messages and `suplHandler_t` (`supl/suplSMmanager.cpp`), and the
functions that work on the list of handlers: `suplInsertHandler`,
`searchSMInst`, `getNewSid` and the unlinking in `freeSuplHandler`.

The list that starts at `s_pQueueTail` and goes on by `pNext` is a Lean list; a
handler is known by its address. Texts for the user, the log and the TLS context
are left out.
-/

namespace HikeyHal.Supl

/-! ## Session ids -/

/-- `SETId_t`, by its kind; `verifySetSessionId` does not look further. -/
inductive SetIdKind where
  | nothing | msisdn | mdn | min | imsi | nai | iPAddress
deriving DecidableEq, Repr

/-- `SetSessionID_t` -/
structure SetSessionId where
  sessionId : ℕ
  setId : SetIdKind
deriving DecidableEq, Repr

/-- `IPAddress_t` -/
inductive IpAddress where
  | nothing
  | ipv4Address (octets : List UInt8)
  | ipv6Address (octets : List UInt8)
deriving DecidableEq, Repr

/-- `SLPAddress_t` -/
inductive SlpAddress where
  | nothing
  | iPAddress (address : IpAddress)
  | fQDN (name : List UInt8)
deriving DecidableEq, Repr

/-- `SlpSessionID_t` -/
structure SlpSessionId where
  sessionID : List UInt8
  slpId : SlpAddress
deriving DecidableEq, Repr

/-- `compareOctets` -/
def compareOctets (oct1 oct2 : List UInt8) : Bool := oct1 == oct2

/-- The comparison of the addresses in `verifySlpSessionId`. -/
def verifySlpAddress : SlpAddress → SlpAddress → Bool
  | .nothing, .nothing => true
  | .iPAddress .nothing, .iPAddress .nothing => true
  | .iPAddress (.ipv4Address a), .iPAddress (.ipv4Address b) => compareOctets a b
  | .iPAddress (.ipv6Address a), .iPAddress (.ipv6Address b) => compareOctets a b
  | .fQDN a, .fQDN b => compareOctets a b
  | _, _ => false

/-- `verifySlpSessionId` -/
def verifySlpSessionId : Option SlpSessionId → Option SlpSessionId → Bool
  | none, none => true
  | some a, some b => compareOctets a.sessionID b.sessionID && verifySlpAddress a.slpId b.slpId
  | _, _ => false

/-- `verifySetSessionId` -/
def verifySetSessionId : Option SetSessionId → Option SetSessionId → Bool
  | none, none => true
  | some a, some b => a.sessionId == b.sessionId && a.setId == b.setId
  | _, _ => false

/-! ## Messages -/

/-- `PosMethod_t` -/
inductive PosMethod where
  | agpsSETassisted | agpsSETbased | agpsSETassistedpref | agpsSETbasedpref | autonomousGPS
  | aFLT | eCID | eOTD | oTDOA | noPosition
deriving DecidableEq, Repr

/-- `NotificationType_t` -/
inductive NotificationType where
  | noNotificationNoVerification | notificationOnly | notificationAndVerficationAllowedNA
  | notificationAndVerficationDeniedNA | privacyOverride
deriving DecidableEq, Repr

/-- `QoP_t` -/
structure QoP where
  horacc : ℤ
  veracc : Option ℤ
  delay : Option ℕ
deriving DecidableEq, Repr

/-- `SUPLINIT_t` -/
structure SuplInit where
  posMethod : PosMethod
  nonProxy : Bool
  notification : Option NotificationType
  qoP : Option QoP
deriving DecidableEq, Repr

/-- `Position_t` in a SUPL END, as the server has encoded it. -/
structure PositionEstimate where
  latitudeSign : Bool
  latitude : ℤ
  longitude : ℤ
deriving DecidableEq, Repr

/-- `UlpMessage_t`. The payload of a SUPL POS is `none` if it is no RRLP
payload, and otherwise what `rrlpDecode` makes of it. -/
inductive UlpMessage where
  | msSUPLINIT (init : SuplInit)
  | msSUPLRESPONSE (posMethod : PosMethod) (sLPAddress : Bool)
  | msSUPLPOS (rrlpPayload : Option (Option Pdu))
  | msSUPLEND (position : Option PositionEstimate)
  | other
deriving DecidableEq, Repr

/-- `ULP_PDU_t` -/
structure UlpPdu where
  setSessionID : Option SetSessionId
  slpSessionID : Option SlpSessionId
  message : UlpMessage
deriving DecidableEq, Repr

/-- `extractSid` -/
def extractSid (pMsg : UlpPdu) : ℕ :=
  match pMsg.setSessionID with
  | none => 0
  | some id => id.sessionId

/-! ## Handlers -/

/-- `SMState_t` -/
inductive SMState where
  | start | noNetwork | auth | waitRes | rrlp | rrlpResp | finish
deriving DecidableEq, Repr

/-- A decoded SUPL INIT that a handler holds, with its allocation. -/
structure NiMsg where
  alloc : ℕ
  pdu : UlpPdu
deriving DecidableEq, Repr

/-- `suplHandler_t`. `bio` says whether a connection is there. -/
structure SuplHandler where
  addr : ℕ
  sid : ℕ
  pSlpId : Option SlpSessionId
  pSetId : Option SetSessionId
  state : SMState
  bio : Bool
  hash : ℤ
  notificationType : NotificationType
  timeout : ℤ
  rrlpRefNum : ℤ
  nonProxy : Bool
  reqHorAccuracy : ℤ
  reqVerAccuracy : ℤ
  responseType : RrlpRespData
  msaPosResponseTime : ℤ
  qopDelay : ℤ
  requestedPosMethod : PosMethod
  networkInitiated : Bool
  assistanceRequested : Bool
  pNiMsg : Option NiMsg
deriving DecidableEq, Repr

/-- `allocateSM` -/
def allocateSM (addr : ℕ) (ni : Bool) : SuplHandler :=
  { addr := addr, sid := 0, pSlpId := none, pSetId := none, state := .start, bio := false,
    hash := 0, notificationType := .noNotificationNoVerification, timeout := -1,
    rrlpRefNum := 0, nonProxy := false, reqHorAccuracy := 0, reqVerAccuracy := 0,
    responseType := .none, msaPosResponseTime := 0, qopDelay := 0,
    requestedPosMethod := .noPosition, networkInitiated := ni, assistanceRequested := false,
    pNiMsg := none }

/-! ## The list of handlers -/

def maxSmInstances : ℕ := 5
def startSidNumber : ℕ := 1001
def maxSidNumber : ℕ := startSidNumber + 200

/-- `searchSMInst` -/
def searchSMInst (list : List SuplHandler) (sid : ℕ) : Option SuplHandler :=
  list.find? fun h => h.sid = sid

/-- The next number `getNewSid` tries. -/
def nextSid (ret : ℕ) : ℕ := if maxSidNumber < ret + 1 then startSidNumber else ret + 1

/-- The `do` loop of `getNewSid`, at most `fuel` rounds from `ret` on. -/
def getNewSidLoop (list : List SuplHandler) : ℕ → ℕ → Option ℕ
  | 0, _ => none
  | fuel + 1, ret =>
      if (searchSMInst list (nextSid ret)).isSome then getNewSidLoop list fuel (nextSid ret)
      else some (nextSid ret)

/-- `getNewSid`, `none` if it goes once through all numbers. -/
def getNewSid (list : List SuplHandler) (ret : ℕ) : Option ℕ :=
  getNewSidLoop list (maxSidNumber - startSidNumber + 1) ret

/-- `suplCountSessions` -/
def suplCountSessions (list : List SuplHandler) (ni : Bool) : ℕ :=
  list.countP fun h => h.networkInitiated = ni

/-- The walk of `suplInsertHandler` to the last handler: `cnt` is counted at
every step, and the walk is given up when it is above `maxSmInstances`. -/
def walkToLast : List SuplHandler → ℕ → Bool
  | [], _ => true
  | [_], _ => true
  | _ :: h :: list, cnt =>
      if maxSmInstances < cnt + 1 then false else walkToLast (h :: list) (cnt + 1)

/-- `suplInsertHandler`: the list and the last number of `getNewSid` afterwards,
`none` if the handler is not inserted. The handler is linked before it gets its
id. `setIdKind` is the kind of id the modem has. -/
def suplInsertHandler (list : List SuplHandler) (ret : ℕ) (setIdKind : SetIdKind)
    (handler : SuplHandler) (pSetId : Option SetSessionId) : Option (List SuplHandler × ℕ) :=
  if walkToLast list 0 then
    match pSetId with
    | some id =>
        some (list ++ [{ handler with pSetId := some id, sid := id.sessionId }], ret)
    | none =>
        (getNewSid (list ++ [handler]) ret).map fun sid =>
          (list ++ [{ handler with sid := sid, pSetId := some ⟨sid, setIdKind⟩ }], sid)
  else none

/-- The unlinking in `freeSuplHandler`. -/
def unlink (list : List SuplHandler) (addr : ℕ) : List SuplHandler :=
  list.filter fun h => h.addr ≠ addr

/-! ## How many handlers there can be -/

theorem walkToLast_iff (list : List SuplHandler) (cnt : ℕ) (h : list ≠ []) :
    walkToLast list cnt = true ↔ list.length + cnt ≤ maxSmInstances + 1 ∨ list.length = 1 := by
  induction list generalizing cnt with
  | nil => exact absurd rfl h
  | cons a list ih =>
      cases list with
      | nil => simp [walkToLast]
      | cons b list =>
          rw [walkToLast]
          split_ifs with hc
          · simp only [List.length_cons, false_iff]
            omega
          · rw [ih (cnt + 1) (by simp)]
            simp only [List.length_cons]
            omega

/-- The walk succeeds for up to `maxSmInstances + 1` handlers in the list. -/
theorem walkToLast_zero (list : List SuplHandler) :
    walkToLast list 0 = true ↔ list.length ≤ maxSmInstances + 1 := by
  rcases List.eq_nil_or_concat list with rfl | ⟨front, last, rfl⟩
  · simp [walkToLast]
  · rw [walkToLast_iff _ _ (by simp)]
    simp only [maxSmInstances]
    omega

/-! ## Numbers that are not in use -/

theorem searchSMInst_isSome {list : List SuplHandler} {sid : ℕ} :
    (searchSMInst list sid).isSome ↔ sid ∈ list.map SuplHandler.sid := by
  rw [searchSMInst, List.find?_isSome, List.mem_map]
  simp

/-- What `getNewSid` returns is in use by no handler. -/
theorem getNewSidLoop_not_mem {list : List SuplHandler} {sid : ℕ} : ∀ {fuel ret : ℕ},
    getNewSidLoop list fuel ret = some sid → sid ∉ list.map SuplHandler.sid
  | 0, ret, h => by cases h
  | fuel + 1, ret, h => by
      unfold getNewSidLoop at h
      split_ifs at h with hs
      · exact getNewSidLoop_not_mem h
      · cases h
        rwa [searchSMInst_isSome] at hs

/-- The number after `k` rounds. -/
def sidAfter (ret k : ℕ) : ℕ := startSidNumber + (ret - startSidNumber + k) % 201

theorem nextSid_eq {ret : ℕ} (h : startSidNumber ≤ ret) (h' : ret ≤ maxSidNumber) :
    nextSid ret = sidAfter ret 1 := by
  have hlo : 1001 ≤ ret := h
  have hhi : ret ≤ 1201 := h'
  by_cases hlast : maxSidNumber < ret + 1
  · have heq : ret = 1201 := by
      have : maxSidNumber = 1201 := rfl
      omega
    rw [nextSid, if_pos hlast, heq]
    rfl
  · have hlt : ¬1201 < ret + 1 := hlast
    rw [nextSid, if_neg hlast, sidAfter, startSidNumber, Nat.mod_eq_of_lt (by omega)]
    omega

theorem sidAfter_range (ret k : ℕ) :
    startSidNumber ≤ sidAfter ret k ∧ sidAfter ret k ≤ maxSidNumber := by
  have h := Nat.mod_lt (ret - startSidNumber + k) (show 0 < 201 by decide)
  simp only [sidAfter, maxSidNumber, startSidNumber] at *
  omega

theorem sidAfter_sidAfter {ret : ℕ} (k l : ℕ) :
    sidAfter (sidAfter ret k) l = sidAfter ret (k + l) := by
  simp only [sidAfter, startSidNumber]
  omega

/-- A search without result has seen all its numbers in use. -/
theorem mem_of_getNewSidLoop_none {list : List SuplHandler} : ∀ {fuel ret : ℕ},
    startSidNumber ≤ ret → ret ≤ maxSidNumber → getNewSidLoop list fuel ret = none →
    ∀ k, 1 ≤ k → k ≤ fuel → sidAfter ret k ∈ list.map SuplHandler.sid
  | 0, ret, _, _, _, k, hk, hk' => by omega
  | fuel + 1, ret, hlo, hhi, h, k, hk, hk' => by
      unfold getNewSidLoop at h
      split_ifs at h with hs
      rw [nextSid_eq hlo hhi] at h hs
      obtain rfl | hlt : k = 1 ∨ 2 ≤ k := by omega
      · exact searchSMInst_isSome.mp hs
      · have hrange := sidAfter_range ret 1
        have hrec := mem_of_getNewSidLoop_none hrange.1 hrange.2 h (k - 1) (by omega) (by omega)
        rwa [sidAfter_sidAfter, show 1 + (k - 1) = k by omega] at hrec

/-- `getNewSid` finds a number unless every number is in use. -/
theorem getNewSid_isSome {list : List SuplHandler} {ret : ℕ} (hlo : startSidNumber ≤ ret)
    (hhi : ret ≤ maxSidNumber) (hlen : list.length ≤ 200) : (getNewSid list ret).isSome := by
  rw [Option.isSome_iff_ne_none]
  intro hnone
  have hmem := mem_of_getNewSidLoop_none hlo hhi hnone
  have hsub : (List.range 201).map (fun k => sidAfter ret (k + 1)) ⊆
      list.map SuplHandler.sid := by
    intro sid hsid
    obtain ⟨k, hk, rfl⟩ := List.mem_map.mp hsid
    rw [List.mem_range] at hk
    exact hmem (k + 1) (by omega) (by simp only [maxSidNumber, startSidNumber]; omega)
  have hnodup : ((List.range 201).map (fun k => sidAfter ret (k + 1))).Nodup := by
    refine List.Nodup.map_on ?_ List.nodup_range
    intro k hk l hl heq
    rw [List.mem_range] at hk hl
    simp only [sidAfter] at heq
    omega
  have hle := (List.subperm_of_subset hnodup hsub).length_le
  simp only [List.length_map, List.length_range] at hle
  omega

theorem getNewSidLoop_range {list : List SuplHandler} {sid : ℕ} : ∀ {fuel ret : ℕ},
    startSidNumber ≤ ret → ret ≤ maxSidNumber → getNewSidLoop list fuel ret = some sid →
    startSidNumber ≤ sid ∧ sid ≤ maxSidNumber
  | 0, ret, _, _, h => by cases h
  | fuel + 1, ret, hlo, hhi, h => by
      have hrange := sidAfter_range ret 1
      unfold getNewSidLoop at h
      rw [nextSid_eq hlo hhi] at h
      split_ifs at h with hs
      · exact getNewSidLoop_range hrange.1 hrange.2 h
      · rw [Option.some.injEq] at h
        rw [← h]
        exact hrange

end HikeyHal.Supl
