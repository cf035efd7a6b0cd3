import Mathlib.Tactic.Linarith
import TorDaemon.Library.Reachability

/-! XOFF accounting on a stream (`congestion_control_flow.c`).

Both the bytes sent and the XOFFs received are halved now and then, and an XOFF is taken as valid
where the halved counts allow it. -/
namespace TorDaemon.FlowControl
open Library.Reachability

/-- The cached consensus parameters, in bytes. -/
structure Params where
  xoffClient : UInt32
  xoffExit : UInt32
  xonRateBytes : UInt32
  xoffClient_le : xoffClient.toNat ≤ 10000 * 488
  xoffExit_le : xoffExit.toNat ≤ 10000 * 488

/-- What the accounting keeps of an `edge_connection_t`. -/
structure EdgeConnection where
  isAp : Bool
  hasHsIdent : Bool
  usesFlowControl : Bool
  totalBytesXmit : UInt32
  numXoffRecv : UInt8
  numXonRecv : UInt8
  xoffReceived : Bool

/-- The connection keeps clients' limits: it is an entry connection or an onion service's. -/
def EdgeConnection.checked (conn : EdgeConnection) : Bool := conn.isAp || conn.hasHsIdent

def xoffLimit (p : Params) (conn : EdgeConnection) : UInt32 :=
  if conn.hasHsIdent then p.xoffClient else p.xoffExit

def scaleDown (conn : EdgeConnection) : EdgeConnection :=
  { conn with
    totalBytesXmit := conn.totalBytesXmit / 2
    numXoffRecv := conn.numXoffRecv / 2
    numXonRecv := conn.numXonRecv / 2 }

/-- `circuit_process_stream_xoff`; `rightHop` is `edge_uses_cpath`. -/
def processStreamXoff (p : Params) (conn : EdgeConnection) (rightHop : Bool) :
    EdgeConnection × Bool :=
  if !rightHop then (conn, false)
  else if !conn.usesFlowControl then (conn, false)
  else if conn.xoffReceived then (conn, false)
  else
    let conn := if conn.numXoffRecv = 200 then scaleDown conn else conn
    let conn := { conn with numXoffRecv := conn.numXoffRecv + 1 }
    let extra := conn.checked && conn.totalBytesXmit < xoffLimit p conn * conn.numXoffRecv.toUInt32
    ({ conn with xoffReceived := true }, !extra)

/-- `circuit_process_stream_xon`, where `parsed` says that the cell is well formed. -/
def processStreamXon (p : Params) (conn : EdgeConnection) (rightHop parsed : Bool) :
    EdgeConnection × Bool :=
  if !rightHop then (conn, false)
  else if !conn.usesFlowControl then (conn, false)
  else if !parsed then (conn, false)
  else
    let conn := if conn.numXonRecv = 200 then scaleDown conn else conn
    let conn := { conn with numXonRecv := conn.numXonRecv + 1 }
    let limit := min (xoffLimit p conn) p.xonRateBytes
    let extra := conn.checked && conn.totalBytesXmit < limit * conn.numXonRecv.toUInt32
    ({ conn with xoffReceived := false }, !extra)

def totalXmitScaleAt : UInt64 := 10 * 1048576

def noteSentData (conn : EdgeConnection) (len : UInt64) : EdgeConnection :=
  let conn := if conn.totalBytesXmit.toUInt64 ≥ totalXmitScaleAt - len then scaleDown conn else conn
  { conn with totalBytesXmit := conn.totalBytesXmit + len.toUInt32 }

/-! ### Runs of a stream -/

inductive Event
  /-- A DATA message is packaged; it fits in a cell. -/
  | sent (len : UInt64) (fits : len.toNat ≤ 498)
  | xoff (rightHop : Bool)
  | xon (rightHop parsed : Bool)

/-- A stream, and what its run sent and received, never scaled. -/
structure Stream where
  conn : EdgeConnection
  bytesSent : ℕ
  xoffsReceived : ℕ

def newStream (isAp hasHsIdent usesFlowControl : Bool) : Stream where
  conn := ⟨isAp, hasHsIdent, usesFlowControl, 0, 0, 0, false⟩
  bytesSent := 0
  xoffsReceived := 0

section
variable (p : Params)

section
variable (s : Stream)

def step : Event → Option Stream
  | .sent len _ =>
    some { s with conn := noteSentData s.conn len, bytesSent := s.bytesSent + len.toNat }
  | .xoff rightHop => some
      { s with conn := (processStreamXoff p s.conn rightHop).1
               xoffsReceived := s.xoffsReceived + 1 }
  | .xon rightHop parsed => some { s with conn := (processStreamXon p s.conn rightHop parsed).1 }

/-- The peer is honest: the k-th XOFF comes after k times its limit of bytes. -/
def Honest : Event → Prop
  | .xoff _ => (s.xoffsReceived + 1) * (xoffLimit p s.conn).toNat ≤ s.bytesSent
  | _ => True

def Accepts : Event → Prop
  | .xoff rightHop => (processStreamXoff p s.conn rightHop).2 = true
  | _ => True

/-- The XOFF comes from the stream's hop, on a circuit with flow control, and not twice. -/
def Orderly : Event → Prop
  | .xoff rightHop => rightHop = true ∧ s.conn.usesFlowControl = true ∧ s.conn.xoffReceived = false
  | _ => True

/-- The event scales the counts down. -/
def Scales : Event → Prop
  | .sent len _ => s.conn.totalBytesXmit.toUInt64 ≥ totalXmitScaleAt - len
  | .xoff _ => s.conn.numXoffRecv = 200
  | .xon rightHop parsed =>
    (rightHop && s.conn.usesFlowControl && parsed) = true ∧ s.conn.numXonRecv = 200

/-- The halved count of bytes covers the halved count of XOFFs, and the bytes that the peer has not
used up. -/
def Covered : Prop :=
  s.bytesSent - s.xoffsReceived * (xoffLimit p s.conn).toNat +
    s.conn.numXoffRecv.toNat / 2 * (xoffLimit p s.conn).toNat ≤ s.conn.totalBytesXmit.toNat / 2

/-- Where the counts are halved, the peer loses nothing. -/
def Fair (e : Event) : Prop :=
  Orderly s e ∧ (s.conn.checked = true → Scales s e → Covered p s)

end

end

instance {p : Params} {s : Stream} : ∀ e, Decidable (Honest p s e)
  | .xoff _ => inferInstanceAs (Decidable (_ ≤ _))
  | .sent _ _ => .isTrue trivial
  | .xon _ _ => .isTrue trivial

instance {p : Params} {s : Stream} : ∀ e, Decidable (Accepts p s e)
  | .xoff _ => inferInstanceAs (Decidable (_ = true))
  | .sent _ _ => .isTrue trivial
  | .xon _ _ => .isTrue trivial

instance {s : Stream} : ∀ e, Decidable (Orderly s e)
  | .xoff _ => inferInstanceAs (Decidable (_ ∧ _ ∧ _))
  | .sent _ _ => .isTrue trivial
  | .xon _ _ => .isTrue trivial

instance {s : Stream} : ∀ e, Decidable (Scales s e)
  | .sent _ _ => inferInstanceAs (Decidable (_ ≥ _))
  | .xoff _ => inferInstanceAs (Decidable (_ = _))
  | .xon _ _ => inferInstanceAs (Decidable (_ ∧ _))

instance {p : Params} {s : Stream} : Decidable (Covered p s) := inferInstanceAs (Decidable (_ ≤ _))

instance {p : Params} {s : Stream} (e : Event) : Decidable (Fair p s e) :=
  inferInstanceAs (Decidable (_ ∧ _))

/-! ### The counts of an honest peer -/

variable {p : Params} {s s' : Stream} {conn : EdgeConnection} {e : Event} {len : UInt64}

/-- The counts cover what the peer has used, and the bytes that it has not used up. -/
structure Counted (p : Params) (s : Stream) : Prop where
  total_le : s.conn.totalBytesXmit.toNat ≤ 10 * 1048576
  num_le : s.conn.numXoffRecv.toNat ≤ 200
  used : s.conn.checked = true → s.xoffsReceived * (xoffLimit p s.conn).toNat ≤ s.bytesSent
  covers : s.conn.checked = true →
    s.bytesSent - s.xoffsReceived * (xoffLimit p s.conn).toNat +
      s.conn.numXoffRecv.toNat * (xoffLimit p s.conn).toNat ≤ s.conn.totalBytesXmit.toNat

theorem xoffLimit_le : (xoffLimit p conn).toNat ≤ 10000 * 488 := by
  unfold xoffLimit
  split
  · exact p.xoffClient_le
  · exact p.xoffExit_le

theorem totalXmitScaleAt_sub (h : len.toNat ≤ 498) :
    (totalXmitScaleAt - len).toNat = 10 * 1048576 - len.toNat := by
  apply UInt64.toNat_sub_of_le
  apply UInt64.le_iff_toNat_le.mpr
  have : totalXmitScaleAt.toNat = 10 * 1048576 := rfl
  omega

theorem Counted.scaled (h : Counted p s) (hcover : s.conn.checked = true → Covered p s) :
    Counted p { s with conn := scaleDown s.conn } := by
  have htotal : (scaleDown s.conn).totalBytesXmit.toNat = s.conn.totalBytesXmit.toNat / 2 :=
    UInt32.toNat_div _ _
  have hnum : (scaleDown s.conn).numXoffRecv.toNat = s.conn.numXoffRecv.toNat / 2 :=
    UInt8.toNat_div _ _
  constructor
  · rw [htotal]
    exact (Nat.div_le_self _ _).trans h.total_le
  · rw [hnum]
    exact (Nat.div_le_self _ _).trans h.num_le
  · exact h.used
  · intro hchecked
    exact hcover hchecked

theorem Counted.of_counts {conn' : EdgeConnection} (h : Counted p s)
    (htotal : conn'.totalBytesXmit = s.conn.totalBytesXmit)
    (hnum : conn'.numXoffRecv = s.conn.numXoffRecv) (hap : conn'.isAp = s.conn.isAp)
    (hident : conn'.hasHsIdent = s.conn.hasHsIdent) : Counted p { s with conn := conn' } := by
  have hlimit : xoffLimit p conn' = xoffLimit p s.conn := by
    rw [xoffLimit, xoffLimit, hident]
  have hchecked : conn'.checked = s.conn.checked := by
    rw [EdgeConnection.checked, EdgeConnection.checked, hap, hident]
  constructor
  · exact htotal ▸ h.total_le
  · exact hnum ▸ h.num_le
  · intro hc
    exact hlimit ▸ h.used (hchecked ▸ hc)
  · intro hc
    have hcovers := h.covers (hchecked ▸ hc)
    rw [← hlimit, ← htotal, ← hnum] at hcovers
    exact hcovers

theorem addSent_counted (hlen : len.toNat ≤ 498) (h : Counted p s)
    (hroom : s.conn.totalBytesXmit.toNat + len.toNat ≤ 10 * 1048576) : Counted p { s with
      conn := { s.conn with totalBytesXmit := s.conn.totalBytesXmit + len.toUInt32 }
      bytesSent := s.bytesSent + len.toNat } := by
  have hadd : (s.conn.totalBytesXmit + len.toUInt32).toNat =
      s.conn.totalBytesXmit.toNat + len.toNat := by
    have hword : len.toUInt32.toNat = len.toNat := by
      rw [UInt64.toNat_toUInt32, Nat.mod_eq_of_lt (by omega)]
    rw [UInt32.toNat_add, hword, Nat.mod_eq_of_lt (by omega)]
  constructor
  · rw [hadd]
    exact hroom
  · exact h.num_le
  · exact fun hc => (h.used hc).trans (Nat.le_add_right _ _)
  · intro hc
    have hcovers := h.covers hc
    rw [hadd]
    change s.bytesSent + len.toNat - s.xoffsReceived * (xoffLimit p s.conn).toNat +
      s.conn.numXoffRecv.toNat * (xoffLimit p s.conn).toNat ≤ _
    omega

theorem noteSentData_counted (hlen : len.toNat ≤ 498) (h : Counted p s)
    (hfair : Fair p s (.sent len hlen)) : Counted p
      { s with conn := noteSentData s.conn len, bytesSent := s.bytesSent + len.toNat } := by
  have hat := totalXmitScaleAt_sub hlen
  by_cases hscale : s.conn.totalBytesXmit.toUInt64 ≥ totalXmitScaleAt - len
  · have hscaled := h.scaled fun hc => hfair.2 hc hscale
    rw [noteSentData, if_pos hscale]
    apply addSent_counted hlen hscaled
    have htotal : (scaleDown s.conn).totalBytesXmit.toNat = s.conn.totalBytesXmit.toNat / 2 :=
      UInt32.toNat_div _ _
    have := h.total_le
    change (scaleDown s.conn).totalBytesXmit.toNat + len.toNat ≤ _
    omega
  · rw [noteSentData, if_neg hscale]
    apply addSent_counted hlen h
    have hlt := UInt64.lt_iff_toNat_lt.mp (UInt64.not_le.mp hscale)
    rw [hat, UInt32.toNat_toUInt64] at hlt
    omega

section
variable (h : Counted p s)
include h

theorem processStreamXon_counted {rightHop parsed : Bool}
    (hfair : Fair p s (.xon rightHop parsed)) :
    Counted p { s with conn := (processStreamXon p s.conn rightHop parsed).1 } := by
  unfold processStreamXon
  cases hhop : rightHop with
  | false => exact h
  | true =>
    cases huses : s.conn.usesFlowControl with
    | false => exact h
    | true =>
      cases hparsed : parsed with
      | false => exact h
      | true =>
        by_cases hscale : s.conn.numXonRecv = 200
        · have hscales : Scales s (.xon rightHop parsed) :=
            ⟨by rw [hhop, huses, hparsed]; rfl, hscale⟩
          have hscaled := h.scaled fun hc => hfair.2 hc hscales
          simp only [if_pos hscale]
          exact hscaled.of_counts rfl rfl rfl rfl
        · simp only [if_neg hscale]
          exact h.of_counts rfl rfl rfl rfl

theorem countXoff_counted (hnum : s.conn.numXoffRecv.toNat < 200)
    (hhonest : (s.xoffsReceived + 1) * (xoffLimit p s.conn).toNat ≤ s.bytesSent) :
    Counted p { s with
        conn := { s.conn with numXoffRecv := s.conn.numXoffRecv + 1, xoffReceived := true }
        xoffsReceived := s.xoffsReceived + 1 } ∧
      (s.conn.checked && s.conn.totalBytesXmit <
        xoffLimit p s.conn * (s.conn.numXoffRecv + 1).toUInt32) = false := by
  have hadd : (s.conn.numXoffRecv + 1).toNat = s.conn.numXoffRecv.toNat + 1 := by
    rw [UInt8.toNat_add, UInt8.toNat_one, Nat.mod_eq_of_lt (by omega)]
  have hcovers : s.conn.checked = true →
      s.bytesSent - (s.xoffsReceived + 1) * (xoffLimit p s.conn).toNat +
        (s.conn.numXoffRecv.toNat + 1) * (xoffLimit p s.conn).toNat ≤
          s.conn.totalBytesXmit.toNat := by
    intro hc
    have := h.covers hc
    rw [Nat.add_mul] at hhonest ⊢
    rw [Nat.add_mul]
    omega
  constructor
  · constructor
    · exact h.total_le
    · change (s.conn.numXoffRecv + 1).toNat ≤ 200
      omega
    · exact fun _ => hhonest
    · intro hc
      rw [hadd]
      exact hcovers hc
  · cases hc : s.conn.checked with
    | false => rfl
    | true =>
      have hmul : (xoffLimit p s.conn * (s.conn.numXoffRecv + 1).toUInt32).toNat =
          (xoffLimit p s.conn).toNat * (s.conn.numXoffRecv.toNat + 1) := by
        rw [UInt32.toNat_mul, UInt8.toNat_toUInt32, hadd, Nat.mod_eq_of_lt]
        calc (xoffLimit p s.conn).toNat * (s.conn.numXoffRecv.toNat + 1)
            ≤ (10000 * 488) * 200 := Nat.mul_le_mul xoffLimit_le hnum
          _ < 2 ^ 32 := by decide
      rw [Bool.true_and, decide_eq_false_iff_not, UInt32.not_lt, UInt32.le_iff_toNat_le, hmul,
        Nat.mul_comm]
      exact (Nat.le_add_left _ _).trans (hcovers hc)

theorem processStreamXoff_counted {rightHop : Bool}
    (hhonest : Honest p s (.xoff rightHop)) (hfair : Fair p s (.xoff rightHop)) : Counted p { s with
        conn := (processStreamXoff p s.conn rightHop).1
        xoffsReceived := s.xoffsReceived + 1 } ∧
      (processStreamXoff p s.conn rightHop).2 = true := by
  obtain ⟨⟨hhop, huses, hfirst⟩, hcover⟩ := hfair
  simp only [processStreamXoff, hhop, huses, hfirst, Bool.not_true, Bool.false_eq_true, if_false]
  by_cases hscale : s.conn.numXoffRecv = 200
  · have hscaled := h.scaled fun hc => hcover hc hscale
    have hnum : (scaleDown s.conn).numXoffRecv.toNat < 200 := by
      change (s.conn.numXoffRecv / 2).toNat < 200
      rw [hscale]
      decide
    have hcount := countXoff_counted hscaled hnum hhonest
    simp only [if_pos hscale]
    exact ⟨hcount.1, by rw [Bool.not_eq_true']; exact hcount.2⟩
  · have hnum : s.conn.numXoffRecv.toNat < 200 := by
      have hne : s.conn.numXoffRecv.toNat ≠ 200 := fun h200 => hscale (UInt8.toNat_inj.mp h200)
      exact lt_of_le_of_ne h.num_le hne
    have hcount := countXoff_counted h hnum hhonest
    simp only [if_neg hscale]
    exact ⟨hcount.1, by rw [Bool.not_eq_true']; exact hcount.2⟩

theorem step_counted (hhonest : Honest p s e) (hfair : Fair p s e)
    (hs : step p s e = some s') : Counted p s' ∧ Accepts p s e := by
  cases e with
  | sent len fits =>
    rw [← Option.some.inj hs]
    exact ⟨noteSentData_counted fits h hfair, trivial⟩
  | xoff rightHop =>
    cases hs
    exact processStreamXoff_counted h hhonest hfair
  | xon rightHop parsed =>
    cases hs
    exact ⟨processStreamXon_counted h hfair, trivial⟩

end

theorem newStream_counted {isAp hasHsIdent uses : Bool} :
    Counted p (newStream isAp hasHsIdent uses) := by
  constructor
  · exact Nat.zero_le _
  · exact Nat.zero_le _
  · intro _
    simp [newStream]
  · intro _
    simp [newStream]

theorem Counted.accepts {es : List Event} (h : Counted p s)
    (hrun : Guarded (step p) (fun s e => Honest p s e ∧ Fair p s e) s es) :
    Guarded (step p) (Accepts p) s es := by
  induction es generalizing s with
  | nil => trivial
  | cons e es ih =>
    have hsome : ∃ s', step p s e = some s' := by
      cases e <;> exact ⟨_, rfl⟩
    obtain ⟨s', hs⟩ := hsome
    have hstep := step_counted h hrun.1.1 hrun.1.2 hs
    refine ⟨hstep.2, fun s₁ hs₁ => ?_⟩
    exact ih (step_counted h hrun.1.1 hrun.1.2 hs₁).1 (hrun.2 s₁ hs₁)

/-- Every XOFF of an honest peer is accepted, in a run whose scalings take nothing from it. -/
theorem honest_xoffs_accepted (p : Params) (isAp hasHsIdent usesFlowControl : Bool)
    (es : List Event) (hrun : Guarded (step p) (fun s e => Honest p s e ∧ Fair p s e)
      (newStream isAp hasHsIdent usesFlowControl) es) :
    Guarded (step p) (Accepts p) (newStream isAp hasHsIdent usesFlowControl) es :=
  newStream_counted.accepts hrun

/-- The peer sends an XOFF for each cell that it gets, and asks for the next one. -/
def eachCell (n : ℕ) : List Event :=
  (List.replicate n [.sent 488 (by decide), .xoff true, .xon true true]).flatten

def oneCell : Params where
  xoffClient := 488
  xoffExit := 488
  xonRateBytes := 498
  xoffClient_le := by decide
  xoffExit_le := by decide

/-- With a limit of one cell, the 201st XOFF of an honest peer is flagged: the scaling leaves 100.5
cells against 100 XOFFs and the one that came. -/
theorem honest_xoff_flagged :
    ¬ (Guarded (step oneCell) (fun s e => Honest oneCell s e ∧ Orderly s e)
        (newStream true false true) (eachCell 201) →
      Guarded (step oneCell) (Accepts oneCell) (newStream true false true) (eachCell 201)) := by
  decide +kernel

/-- Two XONs with new rates go ahead, so that the counts are halved after the 199th XOFF: half a
cell is gained, and the next XOFF is accepted. -/
theorem honest_xoffs_accepted_scaled :
    Guarded (step oneCell) (Accepts oneCell) (newStream true false true)
      ([.xon true true, .xon true true] ++ eachCell 199 ++
        [.sent 488 (by decide), .xoff true]) := by
  apply honest_xoffs_accepted
  decide +kernel

end TorDaemon.FlowControl
