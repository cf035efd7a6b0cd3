import Mathlib.Data.UInt

/-! RTT and BDP estimates of a circuit (`congestion_control_common.c`, `congestion_control_vegas.c`).

All times are in microseconds, and every field wraps as its type in the source does. -/
namespace TorDaemon.Congestion

/-- The consensus parameters that the estimates read, as they are cached between two consensuses. -/
structure Params where
  nEwmaCwndPct : UInt8
  nEwmaMax : UInt8
  nEwmaSs : UInt8
  rttResetPct : UInt8
  rttResetPct_le : rttResetPct ≤ 100

/-- The parameters that a circuit keeps from its setup. -/
structure CircuitParams where
  cwndInit : UInt64
  cwndMin : UInt16
  cwndIncRate : UInt8
  sendmeInc : UInt8
  cwndIncRate_pos : 0 < cwndIncRate
  sendmeInc_pos : 0 < sendmeInc

structure CongestionControl extends CircuitParams where
  sendmePendingTimestamps : List UInt64
  ewmaRttUsec : UInt64
  minRttUsec : UInt64
  maxRttUsec : UInt64
  bdp : UInt64
  cwnd : UInt64
  inflight : UInt64
  nextCcEvent : UInt16
  nextCwndEvent : UInt16
  inSlowStart : Bool
  blockedChan : Bool

/-- `congestion_control_new`. -/
def new (params : CircuitParams) : CongestionControl where
  toCircuitParams := params
  sendmePendingTimestamps := []
  ewmaRttUsec := 0
  minRttUsec := 0
  maxRttUsec := 0
  bdp := 0
  cwnd := params.cwndInit
  inflight := 0
  nextCcEvent := 1
  nextCwndEvent := 0
  inSlowStart := true
  blockedChan := false

/-! ### Averages -/

def cwndUpdateRate (cc : CongestionControl) : UInt64 :=
  if cc.inSlowStart then 1
  else (cc.cwnd + cc.cwndIncRate.toUInt64 * cc.sendmeInc.toUInt64 / 2) /
    (cc.cwndIncRate.toUInt64 * cc.sendmeInc.toUInt64)

def nEwmaCount (p : Params) (cc : CongestionControl) : UInt64 :=
  max (if cc.inSlowStart then p.nEwmaSs.toUInt64
    else min (cwndUpdateRate cc * p.nEwmaCwndPct.toUInt64 / 100) p.nEwmaMax.toUInt64) 2

def nCountEwma (curr prev n : UInt64) : UInt64 :=
  if prev = 0 then curr else (2 * curr + (n - 1) * prev) / (n + 1)

def percentMaxMix (a b : UInt64) (pctMax : UInt8) : UInt64 :=
  if 100 < pctMax then max a b
  else pctMax.toUInt64 * max a b / 100 + (100 - pctMax).toUInt64 * min a b / 100

/-! ### Round trip times -/

def timeDeltaShouldUseHeuristics (cc : CongestionControl) : Bool :=
  !cc.inSlowStart && cc.ewmaRttUsec != 0

/-- `time_delta_stalled_or_jumped`: its answer, and `is_monotime_clock_broken` after it. -/
def timeDeltaStalledOrJumped (cc : CongestionControl) (clockBroken : Bool)
    (oldDelta newDelta : UInt64) : Bool × Bool :=
  if newDelta = 0 then (true, true)
  else if !timeDeltaShouldUseHeuristics cc then (false, clockBroken)
  else if oldDelta > newDelta * 5000 then (clockBroken, clockBroken)
  else if newDelta > oldDelta * 5000 then (true, clockBroken)
  else (false, false)

/-- The minimum kept after a sample that moved the average to `ewma`. -/
def nextMinRtt (p : Params) (cc : CongestionControl) (ewma : UInt64) : UInt64 :=
  if cc.minRttUsec = 0 then ewma
  else if cc.cwnd = cc.cwndMin.toUInt64 ∧ !cc.inSlowStart then
    percentMaxMix ewma cc.minRttUsec p.rttResetPct
  else if ewma < cc.minRttUsec then ewma
  else cc.minRttUsec

/-- The estimates after an accepted sample. -/
def takeSample (p : Params) (cc : CongestionControl) (rtt : UInt64) : CongestionControl :=
  let ewma := nCountEwma rtt cc.ewmaRttUsec (nEwmaCount p cc)
  { cc with
    ewmaRttUsec := ewma
    maxRttUsec := if rtt > cc.maxRttUsec then rtt else cc.maxRttUsec
    minRttUsec := nextMinRtt p cc ewma }

/-- `congestion_control_update_circuit_rtt`: the sample, which is 0 where none could be measured,
and the clock's cached state. There is no result where no timestamp is pending. -/
def updateCircuitRtt (p : Params) (cc : CongestionControl) (clockBroken : Bool)
    (nowUsec : UInt64) : Option (UInt64 × CongestionControl × Bool) :=
  match cc.sendmePendingTimestamps with
  | [] => none
  | sentAt :: pending =>
    let rtt := nowUsec - sentAt
    let cc := { cc with sendmePendingTimestamps := pending }
    let (stalled, clockBroken) := timeDeltaStalledOrJumped cc clockBroken cc.ewmaRttUsec rtt
    if stalled then some (0, cc, clockBroken)
    else some (rtt, takeSample p cc rtt, clockBroken)

/-! ### Bandwidth-delay products -/

/-- What the estimates read of the circuit. -/
structure Circuit where
  isOrigin : Bool
  nChanCells : ℕ
  pChanCells : ℕ
  circuitBlockedOnNChan : Bool
  circuitBlockedOnPChan : Bool

def Circuit.chanQ (circ : Circuit) : ℕ := if circ.isOrigin then circ.nChanCells else circ.pChanCells

def Circuit.blockedOnChan (circ : Circuit) : Bool :=
  if circ.isOrigin then circ.circuitBlockedOnNChan else circ.circuitBlockedOnPChan

/-- The estimate of a circuit whose clock gave no sample yet. -/
def bdpWithoutRtt (cc : CongestionControl) (circ : Circuit) : UInt64 :=
  if circ.blockedOnChan then
    if cc.cwnd.toInt64.toInt ≤ circ.chanQ then cc.cwndMin.toUInt64
    else max (cc.cwnd - UInt64.ofNat circ.chanQ) cc.cwndMin.toUInt64
  else cc.cwnd

/-- `congestion_control_update_circuit_bdp`, and whether it updated the estimate. -/
def updateCircuitBdp (cc : CongestionControl) (circ : Circuit) (currRttUsec : UInt64) :
    CongestionControl × Bool :=
  if cc.ewmaRttUsec = 0 then
    ({ cc with blockedChan := circ.blockedOnChan, bdp := bdpWithoutRtt cc circ }, circ.blockedOnChan)
  else
    ({ cc with
        bdp := cc.cwnd * cc.minRttUsec / cc.ewmaRttUsec
        blockedChan := circ.blockedOnChan
        -- A channel that blocks, or is no longer blocked, is a congestion signal at once.
        nextCcEvent := if circ.blockedOnChan = cc.blockedChan then cc.nextCcEvent else 0 },
      circ.blockedOnChan || currRttUsec != 0)

/-- `congestion_control_update_circuit_estimates`, with the sample that it took. -/
def updateCircuitEstimates (p : Params) (cc : CongestionControl) (circ : Circuit)
    (clockBroken : Bool) (nowUsec : UInt64) : Option (UInt64 × CongestionControl × Bool × Bool) :=
  (updateCircuitRtt p cc clockBroken nowUsec).map fun (rtt, cc, clockBroken) =>
    let (cc, updated) := updateCircuitBdp cc circ rtt
    (rtt, cc, clockBroken, updated)

/-! ### The queue estimate of Vegas -/

/-- How `congestion_control_vegas_process_sendme` goes on after the estimates. -/
inductive QueueUse
  | notUpdated
  /-- "This should not happen anymore..": the estimate is above the window. -/
  | aboveCwnd
  | cells (n : UInt64)
  deriving DecidableEq

def vegasBdp (cc : CongestionControl) : UInt64 := cc.bdp

def vegasQueueUse (cc : CongestionControl) (updated : Bool) : QueueUse :=
  if !updated then .notUpdated
  else if vegasBdp cc > cc.cwnd then .aboveCwnd
  else .cells (cc.cwnd - vegasBdp cc)

structure Processed where
  rtt : UInt64
  cc : CongestionControl
  clockBroken : Bool
  queueUse : QueueUse

/-- The counters of SENDMEs until the next congestion event and until a full window. -/
def countDown (cc : CongestionControl) : CongestionControl :=
  { cc with
    nextCcEvent := if cc.nextCcEvent = 0 then 0 else cc.nextCcEvent - 1
    nextCwndEvent := if cc.nextCwndEvent = 0 then 0 else cc.nextCwndEvent - 1 }

/-- `congestion_control_vegas_process_sendme`, up to the queue estimate. -/
def vegasProcessSendme (p : Params) (cc : CongestionControl) (circ : Circuit) (clockBroken : Bool)
    (nowUsec : UInt64) : Option Processed :=
  (updateCircuitEstimates p (countDown cc) circ clockBroken nowUsec).map
      fun (rtt, cc, clockBroken, updated) =>
    { rtt
      cc := if updated then cc else { cc with inflight := cc.inflight - cc.sendmeInc.toUInt64 }
      clockBroken
      queueUse := vegasQueueUse cc updated }

/-! ### Runs of a circuit -/

/-- What a SENDME finds: the window as the algorithm left it, and the rest of the world. -/
structure Sendme where
  params : Params
  circ : Circuit
  /-- `is_monotime_clock_broken`, which every circuit writes. -/
  clockBroken : Bool
  nowUsec : UInt64
  cwnd : UInt64
  inSlowStart : Bool
  inflight : UInt64
  nextCcEvent : UInt16
  nextCwndEvent : UInt16

inductive Event
  /-- A cell that a SENDME will acknowledge is sent: `enqueue_timestamp`. -/
  | sent (nowUsec : UInt64)
  | sendme (s : Sendme)

/-- The circuit that the SENDME finds. -/
def CongestionControl.met (cc : CongestionControl) (s : Sendme) : CongestionControl :=
  { cc with
    cwnd := s.cwnd
    inSlowStart := s.inSlowStart
    inflight := s.inflight
    nextCcEvent := s.nextCcEvent
    nextCwndEvent := s.nextCwndEvent }

def processSendme (cc : CongestionControl) (s : Sendme) : Option Processed :=
  vegasProcessSendme s.params (cc.met s) s.circ s.clockBroken s.nowUsec

def step (cc : CongestionControl) : Event → Option CongestionControl
  | .sent now =>
    some { cc with sendmePendingTimestamps := cc.sendmePendingTimestamps ++ [now] }
  | .sendme s => (processSendme cc s).map Processed.cc

end TorDaemon.Congestion
