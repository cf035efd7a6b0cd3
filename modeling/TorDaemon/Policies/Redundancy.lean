import Mathlib.Data.List.InsertIdx
import TorDaemon.Policies.Addresses

/-! The removal of entries that decide nothing (`exit_policy_remove_redundancies` in
`policies.c`). -/
namespace TorDaemon.Policies
open Library Library.DecisionList

def addrPolicyCovers (a b : AddrPolicy) : Bool :=
  if a.addr.family ≠ b.addr.family then false
  else if a.maskbits > b.maskbits then false
  else if torAddrCompareMasked a.addr b.addr a.maskbits ≠ 0 then false
  else a.prtMin ≤ b.prtMin ∧ a.prtMax ≥ b.prtMax

def addrPolicyIntersects (a b : AddrPolicy) : Bool :=
  let minbits := if a.maskbits < b.maskbits then a.maskbits else b.maskbits
  if torAddrCompareMasked a.addr b.addr minbits ≠ 0 then false
  else if a.prtMax < b.prtMin ∨ b.prtMax < a.prtMin then false
  else true

/-- A catch-all line. -/
def AddrPolicy.isCatchAll (ap : AddrPolicy) : Bool :=
  ap.maskbits = 0 ∧ ap.prtMin ≤ 1 ∧ ap.prtMax ≥ 65535

/-! ### The loops

A loop goes on at the same index after it has deleted the entry there. -/

/-- Step one: "kill every ipv4 thing after *4:*, every IPv6 thing after *6:*". -/
def killUnreachable (dest : List AddrPolicy) (i : ℕ) (killV4 killV6 : Bool) : List AddrPolicy :=
  if h : i < dest.length then
    let ap := dest[i]
    let family := ap.addr.family
    if (family = .inet ∧ killV4) ∨ (family = .inet6 ∧ killV6) then
      killUnreachable (dest.eraseIdx i) i killV4 killV6
    else
      killUnreachable dest (i + 1) (killV4 || ap.isCatchAll && family = .inet)
        (killV6 || ap.isCatchAll && family = .inet6)
  else dest
termination_by dest.length - i
decreasing_by
  · rw [List.length_eraseIdx_of_lt h]
    omega
  · omega

/-- The inner loop of step two. -/
def removeCovered (ap : AddrPolicy) (dest : List AddrPolicy) (j : ℕ) : List AddrPolicy :=
  if h : j < dest.length then
    if addrPolicyCovers ap dest[j] then removeCovered ap (dest.eraseIdx j) j
    else removeCovered ap dest (j + 1)
  else dest
termination_by dest.length - j
decreasing_by
  · rw [List.length_eraseIdx_of_lt h]
    omega
  · omega

theorem removeCovered_length (ap : AddrPolicy) (dest : List AddrPolicy) (j : ℕ) :
    (removeCovered ap dest j).length ≤ dest.length := by
  induction dest, j using removeCovered.induct ap with
  | case1 dest j h hcovers ih =>
    rw [removeCovered, dif_pos h, if_pos hcovers]
    exact ih.trans (List.length_eraseIdx_le dest j)
  | case2 dest j h hcovers ih =>
    rw [removeCovered, dif_pos h, if_neg hcovers]
    exact ih
  | case3 dest j h => rw [removeCovered, dif_neg h]

/-- Step two: "for every entry, see if there's a redundant entry later on, and remove it". -/
def removeShadowed (dest : List AddrPolicy) (i : ℕ) : List AddrPolicy :=
  if h : i + 1 < dest.length then removeShadowed (removeCovered dest[i] dest (i + 1)) (i + 1)
  else dest
termination_by dest.length - i
decreasing_by
  have hlength := removeCovered_length dest[i] dest (i + 1)
  omega

/-- The inner loop of step three, over the entries behind the one it is about. -/
def madeRedundant (ap : AddrPolicy) : List AddrPolicy → Bool
  | [] => false
  | tmp :: rest =>
    if ap.policyType ≠ tmp.policyType then
      if addrPolicyIntersects ap tmp then false else madeRedundant ap rest
    else if addrPolicyCovers tmp ap then true
    else madeRedundant ap rest

/-- Step three: "for every entry A, see if there's an entry B making this one redundant later
on". -/
def removeRepeated (dest : List AddrPolicy) (i : ℕ) : List AddrPolicy :=
  if h : i + 1 < dest.length then
    if madeRedundant dest[i] (dest.drop (i + 1)) then removeRepeated (dest.eraseIdx i) i
    else removeRepeated dest (i + 1)
  else dest
termination_by dest.length - i
decreasing_by
  · rw [List.length_eraseIdx_of_lt (by omega)]
    omega
  · omega

def exitPolicyRemoveRedundancies (dest : List AddrPolicy) : List AddrPolicy :=
  removeRepeated (removeShadowed (killUnreachable dest 0 false false) 0) 0

/-! ### What the tests on two entries mean -/

variable {a b ap : AddrPolicy} {addr : TorAddr} {port : ℕ} {dest : List AddrPolicy} {i j : ℕ}

theorem covers_of_addrPolicyCovers (h : addrPolicyCovers a b = true) (hb : b.Covers (addr, port)) :
    a.Covers (addr, port) := by
  unfold addrPolicyCovers at h
  split_ifs at h with hfamily hmask hnetwork
  simp only [ne_eq, not_not, torAddrCompareMasked_eq_zero] at hnetwork
  simp only [ge_iff_le, decide_eq_true_eq] at h
  obtain ⟨haddr, hport⟩ := hb
  constructor
  · exact (network_mono (by omega) haddr).trans hnetwork.symm
  · exact ⟨h.1.trans hport.1, hport.2.trans h.2⟩

theorem intersects_of_covers (ha : a.Covers (addr, port)) (hb : b.Covers (addr, port)) :
    addrPolicyIntersects a b = true := by
  have hminbits : (if a.maskbits < b.maskbits then a.maskbits else b.maskbits) ≤ a.maskbits ∧
      (if a.maskbits < b.maskbits then a.maskbits else b.maskbits) ≤ b.maskbits := by
    split_ifs <;> omega
  have hnetwork := (network_mono hminbits.1 ha.1).symm.trans (network_mono hminbits.2 hb.1)
  have hports := ha.2
  have hports' := hb.2
  simp only [AddrPolicy.CoversPort] at hports hports'
  simp only [addrPolicyIntersects]
  rw [if_neg (not_not.mpr (torAddrCompareMasked_eq_zero.mpr hnetwork)), if_neg (by omega)]

theorem covers_of_isCatchAll (ha : a.isCatchAll = true) (hfamily : a.addr.family = b.addr.family)
    (hport : 0 < port) (hb : b.Covers (addr, port)) : a.Covers (addr, port) := by
  simp only [AddrPolicy.isCatchAll, ge_iff_le, decide_eq_true_eq] at ha
  have hlt := b.prtMax_lt
  have hports := hb.2
  simp only [AddrPolicy.CoversPort] at hports
  constructor
  · rw [AddrPolicy.CoversAddr, ha.1]
    exact network_zero (hb.family.symm.trans hfamily.symm)
  · constructor
    · exact ha.2.1.trans hport
    · have hmax := ha.2.2
      omega

theorem exists_of_madeRedundant {rest : List AddrPolicy} (h : madeRedundant ap rest = true) :
    ∃ mid b suf, rest = mid ++ b :: suf ∧ b.policyType = ap.policyType ∧
      addrPolicyCovers b ap = true ∧
      ∀ m ∈ mid, m.policyType = ap.policyType ∨ addrPolicyIntersects ap m = false := by
  induction rest with
  | nil => simp [madeRedundant] at h
  | cons tmp rest ih =>
    simp only [madeRedundant] at h
    split_ifs at h with htype hmeet hcovers
    · obtain ⟨mid, b, suf, rfl, hb, hcovers, hmid⟩ := ih h
      refine ⟨tmp :: mid, b, suf, rfl, hb, hcovers, ?_⟩
      intro m hm
      cases List.mem_cons.mp hm with
      | inl heq => exact .inr (heq ▸ Bool.eq_false_iff.mpr hmeet)
      | inr hmem => exact hmid m hmem
    · exact ⟨[], tmp, rest, rfl, (not_not.mp htype).symm, hcovers, by simp⟩
    · obtain ⟨mid, b, suf, rfl, hb, hcov, hmid⟩ := ih h
      refine ⟨tmp :: mid, b, suf, rfl, hb, hcov, ?_⟩
      intro m hm
      cases List.mem_cons.mp hm with
      | inl heq => exact .inl (heq ▸ (not_not.mp htype).symm)
      | inr hmem => exact hmid m hmem

/-! ### What the loops keep -/

section
variable (h : i < dest.length)
include h

theorem eq_take_cons_drop : dest = dest.take i ++ dest[i] :: dest.drop (i + 1) := by
  rw [List.getElem_cons_drop, List.take_append_drop]

theorem getElem_mem_take : dest[i] ∈ dest.take (i + 1) := by
  rw [List.take_succ_eq_append_getElem h]
  exact List.mem_append_right _ (List.mem_singleton_self _)

/-- An entry whose points the entries before it cover is deleted. -/
theorem compareKnown_eraseIdx
    (hdead : dest[i].Covers (addr, port) → ∃ e ∈ dest.take i, e.Covers (addr, port)) :
    compareKnownTorAddrToAddrPolicy addr port (dest.eraseIdx i) =
      compareKnownTorAddrToAddrPolicy addr port dest := by
  rw [compareKnown_eq_decision, compareKnown_eq_decision, List.eraseIdx_eq_take_drop_succ]
  conv_rhs => rw [eq_take_cons_drop h]
  exact (decision_remove_dead hdead).symm

end

/-- While lines of a family are killed there is a catch-all line of it before them. -/
def Killing (dest : List AddrPolicy) (i : ℕ) (family : Family) (kill : Bool) : Prop :=
  kill = true → ∃ e ∈ dest.take i, e.isCatchAll = true ∧ e.addr.family = family

theorem Killing.erase {family : Family} {kill : Bool} (h : Killing dest i family kill) :
    Killing (dest.eraseIdx i) i family kill := by
  intro hkill
  rw [List.take_eraseIdx_eq_take_of_le _ _ _ (le_refl i)]
  exact h hkill

theorem Killing.next {family : Family} {kill : Bool} (h : Killing dest i family kill)
    (hi : i < dest.length) :
    Killing dest (i + 1) family (kill || dest[i].isCatchAll && dest[i].addr.family = family) := by
  intro hkill
  simp only [Bool.or_eq_true, Bool.and_eq_true, decide_eq_true_eq] at hkill
  cases hkill with
  | inl hold =>
    obtain ⟨e, he, hall⟩ := h hold
    exact ⟨e, List.take_subset_take_left dest (Nat.le_succ i) he, hall⟩
  | inr hnew => exact ⟨dest[i], getElem_mem_take hi, hnew⟩

theorem killUnreachable_keeps {killV4 killV6 : Bool} (hport : 0 < port)
    (h4 : Killing dest i .inet killV4) (h6 : Killing dest i .inet6 killV6) :
    compareKnownTorAddrToAddrPolicy addr port (killUnreachable dest i killV4 killV6) =
      compareKnownTorAddrToAddrPolicy addr port dest := by
  induction dest, i, killV4, killV6 using killUnreachable.induct with
  | case1 dest i killV4 killV6 hi ap family hkill ih =>
    rw [killUnreachable, dif_pos hi, if_pos hkill, ih h4.erase h6.erase]
    refine compareKnown_eraseIdx hi fun hcovers => ?_
    have hcatch : ∃ e ∈ dest.take i, e.isCatchAll = true ∧ e.addr.family = dest[i].addr.family := by
      cases hkill with
      | inl h =>
        rw [show dest[i].addr.family = .inet from h.1]
        exact h4 h.2
      | inr h =>
        rw [show dest[i].addr.family = .inet6 from h.1]
        exact h6 h.2
    obtain ⟨e, he, hall, hfamily⟩ := hcatch
    exact ⟨e, he, covers_of_isCatchAll hall hfamily hport hcovers⟩
  | case2 dest i killV4 killV6 hi ap family hkill ih =>
    rw [killUnreachable, dif_pos hi, if_neg hkill]
    exact ih (h4.next hi) (h6.next hi)
  | case3 dest i killV4 killV6 hi => rw [killUnreachable, dif_neg hi]

theorem removeCovered_keeps (hap : ap ∈ dest.take j) :
    compareKnownTorAddrToAddrPolicy addr port (removeCovered ap dest j) =
      compareKnownTorAddrToAddrPolicy addr port dest := by
  induction dest, j using removeCovered.induct ap with
  | case1 dest j hj hcovers ih =>
    rw [removeCovered, dif_pos hj, if_pos hcovers, ih]
    · exact compareKnown_eraseIdx hj fun h => ⟨ap, hap, covers_of_addrPolicyCovers hcovers h⟩
    · rwa [List.take_eraseIdx_eq_take_of_le _ _ _ (le_refl j)]
  | case2 dest j hj hcovers ih =>
    rw [removeCovered, dif_pos hj, if_neg hcovers]
    exact ih (List.take_subset_take_left dest (Nat.le_succ j) hap)
  | case3 dest j hj => rw [removeCovered, dif_neg hj]

theorem removeShadowed_keeps (dest : List AddrPolicy) (i : ℕ) :
    compareKnownTorAddrToAddrPolicy addr port (removeShadowed dest i) =
      compareKnownTorAddrToAddrPolicy addr port dest := by
  induction dest, i using removeShadowed.induct with
  | case1 dest i hi ih =>
    rw [removeShadowed, dif_pos hi, ih]
    exact removeCovered_keeps (getElem_mem_take (Nat.lt_of_succ_lt hi))
  | case2 dest i hi => rw [removeShadowed, dif_neg hi]

theorem removeRepeated_keeps (dest : List AddrPolicy) (i : ℕ) :
    compareKnownTorAddrToAddrPolicy addr port (removeRepeated dest i) =
      compareKnownTorAddrToAddrPolicy addr port dest := by
  induction dest, i using removeRepeated.induct with
  | case1 dest i hi hredundant ih =>
    rw [removeRepeated, dif_pos hi, if_pos hredundant, ih]
    obtain ⟨mid, b, suf, hdrop, htype, hcovers, hmid⟩ := exists_of_madeRedundant hredundant
    rw [compareKnown_eq_decision, compareKnown_eq_decision, List.eraseIdx_eq_take_drop_succ]
    conv_rhs => rw [eq_take_cons_drop (Nat.lt_of_succ_lt hi)]
    rw [hdrop]
    refine (decision_remove_repeated (covers_of_addrPolicyCovers hcovers)
      (congrArg PolicyType.result htype) fun m hm => ?_).symm
    cases hmid m hm with
    | inl hsame => exact .inl (congrArg PolicyType.result hsame)
    | inr hapart =>
      refine .inr fun hr hcov => ?_
      rw [intersects_of_covers hr hcov] at hapart
      cases hapart
  | case2 dest i hi hredundant ih =>
    rw [removeRepeated, dif_pos hi, if_neg hredundant, ih]
  | case3 dest i hi => rw [removeRepeated, dif_neg hi]

/-- The three loops end, and the result is the same policy: a known address and port are
accepted or rejected as before. -/
theorem removeRedundancies_keeps_policy (addr : TorAddr) (port : ℕ) (policy : List AddrPolicy)
    (haddr : addr.isNull = false) (hport : port ≠ 0) :
    compareTorAddrToAddrPolicy (some addr) port (some (exitPolicyRemoveRedundancies policy)) =
      compareTorAddrToAddrPolicy (some addr) port (some policy) := by
  have hknown (policy : List AddrPolicy) :
      compareTorAddrToAddrPolicy (some addr) port (some policy) =
        compareKnownTorAddrToAddrPolicy addr port policy := by
    simp [compareTorAddrToAddrPolicy, Option.filter, haddr, hport]
  rw [hknown, hknown, exitPolicyRemoveRedundancies, removeRepeated_keeps, removeShadowed_keeps]
  apply killUnreachable_keeps (Nat.pos_of_ne_zero hport)
  · intro h
    cases h
  · intro h
    cases h

/-- A policy with an entry for each step to delete. -/
def repetitive : List AddrPolicy :=
  [.ofPorts .reject 16 (.inet 0x0a010000) 1 65535,
   .ofPorts .reject 8 (.inet 0x0a000000) 1 65535,
   .ofPorts .reject 32 (.inet 0x0a000001) 80 80,
   .ofPorts .accept 0 (.inet 0) 1 65535,
   .ofPorts .reject 8 (.inet 0x0b000000) 1 65535]

theorem removeRedundancies_keeps_policy_repetitive :
    compareTorAddrToAddrPolicy (some (.inet 0x0a010203)) 80
      (some (exitPolicyRemoveRedundancies repetitive)) = .rejected :=
  (removeRedundancies_keeps_policy (.inet 0x0a010203) 80 repetitive (by decide)
    (by decide)).trans (by decide)

end TorDaemon.Policies
