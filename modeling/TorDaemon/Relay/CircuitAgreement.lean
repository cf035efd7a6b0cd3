import Mathlib.Data.List.TakeWhile
import TorDaemon.Relay.Circuit

/-! Every cell is recognized by the end it is addressed to, whatever else is on its way. -/
namespace TorDaemon.Relay.Tor1
open Library.Onion Library.Reachability
variable {κ δ : Type} {prim : Primitives κ δ}

section Crypt
variable {tor1 : Tor1Crypt κ δ} {cell : Payload}

theorem relayForward_eq : tor1.relayForward prim cell =
    (⟨(tor1.f.receive prim cell).1, tor1.b,
      (tor1.f.receive prim cell).2.2.getD tor1.sendmeDigest⟩,
      (tor1.f.receive prim cell).2.1, (tor1.f.receive prim cell).2.2.isSome) := by
  unfold Tor1Crypt.relayForward
  generalize tor1.f.receive prim cell = received
  obtain ⟨f, cell, matched⟩ := received
  cases matched <;> rfl

theorem clientBackward_eq : tor1.clientBackward prim cell =
    (⟨tor1.f, (tor1.b.receive prim cell).1,
      (tor1.b.receive prim cell).2.2.getD tor1.sendmeDigest⟩,
      (tor1.b.receive prim cell).2.1, (tor1.b.receive prim cell).2.2.isSome) := by
  unfold Tor1Crypt.clientBackward
  generalize tor1.b.receive prim cell = received
  obtain ⟨b, cell, matched⟩ := received
  cases matched <;> rfl

end Crypt

section Traced

/-- A cell with what it is on every wire: on wire `i` between the ends of the layers of the hops
from `i` on and those before. -/
structure Traced where
  cell : InFlight
  wire : ℕ → Payload

/-- What the layer of a hop has to do with the cell. -/
def Traced.entry (i : ℕ) (t : Traced) : Entry Payload Tag where
  inner := t.wire (i + 1)
  outer := t.wire i
  tag := if t.cell.sent.hop = i then some t.cell.sent.tag else none

structure Traced.Ok (n : ℕ) (t : Traced) : Prop where
  payload : t.cell.payload = t.wire t.cell.position
  le : t.cell.position ≤ t.cell.sent.hop
  lt : t.cell.sent.hop < n
  original : t.wire (t.cell.sent.hop + 1) = t.cell.sent.original

/-- The cell is between the two ends of the layer. -/
def Traced.Inside (i : ℕ) (t : Traced) : Prop := t.cell.position ≤ i ∧ i ≤ t.cell.sent.hop

instance (i : ℕ) (t : Traced) : Decidable (t.Inside i) := by
  unfold Traced.Inside
  infer_instance

/-- The cells between the two ends of a layer. -/
def pending (i : ℕ) (ts : List Traced) : List (Entry Payload Tag) :=
  (ts.filter fun t => t.Inside i).map (Traced.entry i)

variable {i : ℕ} {ts us : List Traced} {t : Traced}

theorem pending_append : pending i (ts ++ us) = pending i ts ++ pending i us := by
  simp [pending]

theorem pending_cons_inside (h : t.Inside i) : pending i (t :: ts) = t.entry i :: pending i ts := by
  simp [pending, h]

theorem pending_cons_outside (h : ¬ t.Inside i) : pending i (t :: ts) = pending i ts := by
  simp [pending, h]

theorem pending_nil (h : ∀ t ∈ ts, ¬ t.Inside i) : pending i ts = [] := by
  simpa [pending] using h

/-- Only what the layer has to do with a cell matters. -/
theorem pending_cons_congr {u : Traced} (hinside : t.Inside i ↔ u.Inside i)
    (hentry : t.Inside i → t.entry i = u.entry i) : pending i (t :: ts) = pending i (u :: ts) := by
  by_cases h : t.Inside i
  · rw [pending_cons_inside h, pending_cons_inside (hinside.mp h), hentry h]
  · rw [pending_cons_outside h, pending_cons_outside fun hu => h (hinside.mpr hu)]

theorem firstAt_some {position : ℕ} {cells before after : List InFlight} {cell : InFlight}
    (h : firstAt position cells = some (before, cell, after)) :
    cells = before ++ cell :: after ∧ cell.position = position ∧
      ∀ x ∈ before, x.position ≠ position := by
  induction cells generalizing before with
  | nil => cases h
  | cons x cells ih =>
    unfold firstAt at h
    split_ifs at h with hposition
    · cases h
      exact ⟨rfl, hposition, by simp⟩
    · obtain ⟨⟨before', found⟩, hrest, heq⟩ := Option.map_eq_some_iff.mp h
      cases heq
      obtain ⟨hcells, hcell, hbefore⟩ := ih hrest
      refine ⟨by rw [hcells]; rfl, hcell, ?_⟩
      intro y hy
      rcases List.mem_cons.mp hy with rfl | hy
      · exact hposition
      · exact hbefore y hy

theorem split_traced {before after : List InFlight} {cell : InFlight}
    (h : ts.map Traced.cell = before ++ cell :: after) :
    ∃ ts₁ t ts₂, ts = ts₁ ++ t :: ts₂ ∧ ts₁.map Traced.cell = before ∧ t.cell = cell ∧
      ts₂.map Traced.cell = after := by
  obtain ⟨ts₁, rest, rfl, hbefore, hrest⟩ := List.map_eq_append_iff.mp h
  obtain ⟨t, ts₂, rfl, hcell, hafter⟩ := List.map_eq_cons_iff.mp hrest
  exact ⟨ts₁, t, ts₂, rfl, hbefore, hcell, hafter⟩

end Traced

/-- The cells of both directions, traced, and every layer with those between its ends. -/
structure Traces (prim : Primitives κ δ) (c : Circuit κ δ) (out inb : List Traced) : Prop where
  length : c.hops.length = c.cpath.length
  outbound : out.map Traced.cell = c.outbound
  inbound : inb.map Traced.cell = c.inbound
  outOk : ∀ t ∈ out, t.Ok c.cpath.length
  inOk : ∀ t ∈ inb, t.Ok c.cpath.length
  outSorted : out.Pairwise fun t u => u.cell.position ≤ t.cell.position
  inSorted : inb.Pairwise fun t u => t.cell.position ≤ u.cell.position
  forward : ∀ i client relay, c.cpath[i]? = some client → c.hops[i]? = some relay →
    Behind (halfLayer prim) Fresh Eq (pending i out) client.f relay.f
  backward : ∀ i client relay, c.cpath[i]? = some client → c.hops[i]? = some relay →
    Behind (halfLayer prim) Fresh Eq (pending i inb) relay.b client.b

section Client
variable {cpath cpath' : List (Tor1Crypt κ δ)} {hop : ℕ} {cell payload : Payload}

/-- What a layer has done with an outbound cell. -/
def Wraps (prim : Primitives κ δ) (hop : ℕ) (wire : ℕ → Payload) (tag : Tag) (i : ℕ)
    (layer layer' : Tor1Crypt κ δ) : Prop :=
  layer'.b = layer.b ∧
    (i ≤ hop → (halfLayer prim).Emits Fresh layer.f
      ⟨wire (i + 1), wire i, if hop = i then some tag else none⟩ layer'.f) ∧
    (hop < i → layer'.f = layer.f)

theorem encryptCellOutbound_spec (hfresh : Fresh cell)
    (h : encryptCellOutbound prim cpath hop cell = some (cpath', payload)) :
    ∃ wire : ℕ → Payload, wire 0 = payload ∧ wire (hop + 1) = cell ∧
      cpath'.length = cpath.length ∧ hop < cpath.length ∧
      ∀ target, cpath'[hop]? = some target → ∀ i layer layer',
        cpath[i]? = some layer → cpath'[i]? = some layer' →
        Wraps prim hop wire target.sendmeDigest i layer layer' := by
  induction cpath generalizing hop cpath' payload with
  | nil => cases h
  | cons thishop cpath ih =>
    cases hop with
    | zero =>
      cases h
      refine ⟨fun i => if i = 0 then (thishop.clientOriginate prim cell).2 else cell, rfl, rfl, rfl,
        by simp, ?_⟩
      intro target htarget i layer layer' hlayer hlayer'
      cases htarget
      cases i with
      | zero =>
        cases hlayer
        cases hlayer'
        exact ⟨rfl, fun _ => ⟨hfresh, rfl⟩, fun hlt => absurd hlt (by omega)⟩
      | succ i =>
        obtain rfl : layer = layer' := Option.some.inj (hlayer.symm.trans hlayer')
        exact ⟨rfl, fun hle => absurd hle (by omega), fun _ => rfl⟩
    | succ hop =>
      obtain ⟨⟨inner, cell'⟩, hinner, hout⟩ := Option.bind_eq_some_iff.mp h
      cases hout
      obtain ⟨wire, houter, hcell, hlength, hlt, hwraps⟩ := ih hinner
      refine ⟨fun i => Nat.casesOn i (thishop.clientForward prim cell').2 wire, rfl, hcell,
        by simp [hlength], by simp [hlt], ?_⟩
      intro target htarget i layer layer' hlayer hlayer'
      cases i with
      | zero =>
        cases hlayer
        cases hlayer'
        refine ⟨rfl, fun _ => ?_, fun hlt => absurd hlt (by omega)⟩
        rw [← houter]
        rfl
      | succ i =>
        obtain ⟨hb, hemits, hsame⟩ := hwraps target htarget i layer layer' hlayer hlayer'
        refine ⟨hb, fun hle => ?_, fun hlt => hsame (by omega)⟩
        have h := hemits (by omega)
        simpa using h

theorem decryptCellInbound_spec {wire : ℕ → Payload} {tag : Tag} (hlt : hop < cpath.length)
    (hnone : NoneBefore prim cpath hop (wire 0))
    (hreceive : ∀ i layer, cpath[i]? = some layer → i ≤ hop →
      (hop ≠ i → (layer.b.receive prim (wire i)).2.2 = none) →
      (layer.b.receive prim (wire i)).2 = (wire (i + 1), if hop = i then some tag else none)) :
    ∃ cpath', decryptCellInbound prim cpath (wire 0) = some (cpath', wire (hop + 1), hop) ∧
      cpath'.length = cpath.length ∧
      (∀ target, cpath'[hop]? = some target → target.sendmeDigest = tag) ∧
      ∀ i layer layer', cpath[i]? = some layer → cpath'[i]? = some layer' →
        layer'.f = layer.f ∧ (i ≤ hop → layer'.b = (layer.b.receive prim (wire i)).1) ∧
          (i < hop → (layer.b.receive prim (wire i)).2.2 = none) ∧
          (hop < i → layer'.b = layer.b) := by
  induction cpath generalizing hop wire with
  | nil => cases hlt
  | cons thishop cpath ih =>
    cases hop with
    | zero =>
      have hfirst := hreceive 0 thishop rfl (Nat.le_refl 0) (by simp)
      refine ⟨⟨thishop.f, (thishop.b.receive prim (wire 0)).1, tag⟩ :: cpath, ?_, rfl, ?_, ?_⟩
      · unfold decryptCellInbound
        simp [clientBackward_eq, hfirst]
      · rintro target htarget
        cases htarget
        rfl
      · intro i layer layer' hlayer hlayer'
        cases i with
        | zero =>
          cases hlayer
          cases hlayer'
          exact ⟨rfl, fun _ => rfl, fun h => absurd h (by omega), fun h => absurd h (by omega)⟩
        | succ i =>
          obtain rfl : layer = layer' := Option.some.inj (hlayer.symm.trans hlayer')
          exact ⟨rfl, fun h => absurd h (by omega), fun h => absurd h (by omega), fun _ => rfl⟩
    | succ hop =>
      obtain ⟨hother, hrest⟩ := hnone
      rw [clientBackward_eq] at hother hrest
      have hnotag : (thishop.b.receive prim (wire 0)).2.2 = none := by simpa using hother
      have hfirst := hreceive 0 thishop rfl (Nat.zero_le _) fun _ => hnotag
      have hinner : (thishop.b.receive prim (wire 0)).2.1 = wire 1 := by rw [hfirst]
      rw [hinner] at hrest
      have hlt' : hop < cpath.length := by simpa using hlt
      let later : ℕ → Payload := fun i => wire (i + 1)
      have hlater : NoneBefore prim cpath hop (later 0) := hrest
      obtain ⟨cpath', hdecrypt, hlength, htag, hlayers⟩ := ih hlt' hlater
        fun i layer hlayer hle hnotag => by
          have h := hreceive (i + 1) layer hlayer (by omega) fun hne => hnotag (by omega)
          simpa using h
      have hdecrypt' : decryptCellInbound prim cpath (wire 1) =
          some (cpath', wire (hop + 1 + 1), hop) := hdecrypt
      refine ⟨⟨thishop.f, (thishop.b.receive prim (wire 0)).1, thishop.sendmeDigest⟩ :: cpath', ?_,
        by simp [hlength], htag, ?_⟩
      · unfold decryptCellInbound
        simp [clientBackward_eq, hnotag, hinner, hdecrypt']
      · intro i layer layer' hlayer hlayer'
        cases i with
        | zero =>
          cases hlayer
          cases hlayer'
          exact ⟨rfl, fun _ => rfl, fun _ => hnotag, fun h => absurd h (by omega)⟩
        | succ i =>
          obtain ⟨hf, hb, hother, hsame⟩ := hlayers i layer layer' hlayer hlayer'
          exact ⟨hf, fun h => hb (by omega), fun h => hother (by omega), fun h => hsame (by omega)⟩

end Client

theorem getElem?_set_cases {α : Type*} {l : List α} {i j : ℕ} {a x : α}
    (h : (l.set i a)[j]? = some x) : i = j ∧ x = a ∨ i ≠ j ∧ l[j]? = some x := by
  rw [List.getElem?_set] at h
  split_ifs at h with heq hlt
  · exact .inl ⟨heq, (Option.some.inj h).symm⟩
  · exact .inr ⟨heq, h⟩

section Outbound
variable {c c' : Circuit κ δ} {out inb : List Traced} {hop : ℕ} {cell : Payload} {t : Traced}

theorem sendOutbound_traces (h : Traces prim c out inb) (hfresh : Fresh cell)
    (hstep : step prim c (.sendOutbound hop cell) = some c') :
    ∃ t, Traces prim c' (out ++ [t]) inb := by
  obtain ⟨⟨cpath', payload⟩, hencrypt, hrest⟩ := Option.bind_eq_some_iff.mp hstep
  obtain ⟨target, htarget, hout⟩ := Option.bind_eq_some_iff.mp hrest
  cases hout
  obtain ⟨wire, houter, hinner, hlength, hlt, hwraps⟩ := encryptCellOutbound_spec hfresh hencrypt
  refine ⟨⟨⟨0, payload, ⟨hop, cell, target.sendmeDigest⟩⟩, wire⟩, ?_⟩
  constructor
  · exact h.length.trans hlength.symm
  · simp [h.outbound]
  · exact h.inbound
  · intro t ht
    rw [hlength]
    rcases List.mem_append.mp ht with ht | ht
    · exact h.outOk t ht
    · rw [List.mem_singleton.mp ht]
      exact ⟨houter.symm, Nat.zero_le _, hlt, hinner⟩
  · rw [hlength]
    exact h.inOk
  · refine List.pairwise_append.mpr ⟨h.outSorted, List.pairwise_singleton _ _, ?_⟩
    intro t _ u hu
    rw [List.mem_singleton.mp hu]
    exact Nat.zero_le _
  · exact h.inSorted
  · intro i client' relay hclient' hrelay
    have hi : i < c.cpath.length := by
      rw [← hlength]
      exact (List.getElem?_eq_some_iff.mp hclient').1
    have hclient := List.getElem?_eq_getElem hi
    have hbehind := h.forward i _ relay hclient hrelay
    obtain ⟨-, hemits, hsame⟩ := hwraps target htarget i _ client' hclient hclient'
    rw [pending_append]
    by_cases hle : i ≤ hop
    · rw [pending_cons_inside ⟨Nat.zero_le _, hle⟩]
      exact hbehind.push (hemits hle)
    · rw [pending_cons_outside fun hin => hle hin.2, hsame (by omega)]
      simpa [pending] using hbehind
  · intro i client' relay hclient' hrelay
    have hi : i < c.cpath.length := by
      rw [← hlength]
      exact (List.getElem?_eq_some_iff.mp hclient').1
    have hclient := List.getElem?_eq_getElem hi
    obtain ⟨hb, -, -⟩ := hwraps target htarget i _ client' hclient hclient'
    rw [hb]
    exact h.backward i _ relay hclient hrelay

/-- What a hop makes of the cell that it takes. -/
structure Forwarded (prim : Primitives κ δ) (hop : ℕ) (inFlight : InFlight)
    (relay : Tor1Crypt κ δ) : Prop where
  recognized : (relay.relayForward prim inFlight.payload).2.2 = true ↔ inFlight.sent.hop = hop
  original : inFlight.sent.hop = hop →
    (relay.relayForward prim inFlight.payload).2.1 = inFlight.sent.original
  tag : inFlight.sent.hop = hop →
    (relay.relayForward prim inFlight.payload).1.sendmeDigest = inFlight.sent.tag
  digest : inFlight.sent.hop ≠ hop →
    (relay.relayForward prim inFlight.payload).1.f.digest = relay.f.digest
  notBeyond : hop ≤ inFlight.sent.hop

/-- The cell that a hop takes is the oldest between the ends of its layer. -/
theorem pending_taken {before after : List Traced}
    (hsorted : (before ++ t :: after).Pairwise fun t u => u.cell.position ≤ t.cell.position)
    (hposition : t.cell.position = hop) (hle : hop ≤ t.cell.sent.hop)
    (hbefore : ∀ u ∈ before, u.cell.position ≠ hop) :
    pending hop (before ++ t :: after) = t.entry hop :: pending hop after := by
  have hnone : pending hop before = [] := by
    apply pending_nil
    intro u hu hin
    have hge := (List.pairwise_append.mp hsorted).2.2 u hu t List.mem_cons_self
    have hne := hbefore u hu
    have hin := hin.1
    omega
  rw [pending_append, hnone, pending_cons_inside ⟨Nat.le_of_eq hposition, hle⟩, List.nil_append]

theorem received_taken (h : Traces prim c out inb) {before after : List Traced}
    (hout : out = before ++ t :: after) (hposition : t.cell.position = hop)
    (hbefore : ∀ u ∈ before, u.cell.position ≠ hop) {client relay : Tor1Crypt κ δ}
    (hclient : c.cpath[hop]? = some client) (hrelay : c.hops[hop]? = some relay)
    (hother : t.cell.sent.hop ≠ hop → (relay.relayForward prim t.cell.payload).2.2 = false) :
    ∃ f, relay.f.receive prim t.cell.payload =
        (f, t.wire (hop + 1), if t.cell.sent.hop = hop then some t.cell.sent.tag else none) ∧
      Behind (halfLayer prim) Fresh Eq (pending hop after) client.f f := by
  have hok := h.outOk t (by simp [hout])
  have hle : hop ≤ t.cell.sent.hop := hposition ▸ hok.le
  have hbehind := h.forward hop client relay hclient hrelay
  have hpayload : t.cell.payload = t.wire hop := hposition ▸ hok.payload
  have hsorted := h.outSorted
  rw [hout] at hsorted
  rw [hout, pending_taken hsorted hposition hle hbefore] at hbehind
  rw [hpayload] at hother ⊢
  apply hbehind.pop (halfLayer_sound prim)
  intro hnotag
  have hne : t.cell.sent.hop ≠ hop := by
    intro heq
    simp [Traced.entry, heq] at hnotag
  have h := hother hne
  rw [relayForward_eq] at h
  have hnone : (relay.f.receive prim (t.wire hop)).2.2 = none := by simpa using h
  exact hnone

theorem relayForward_forwarded (h : Traces prim c out inb) {before after : List InFlight}
    {inFlight : InFlight} (hfirst : firstAt hop c.outbound = some (before, inFlight, after))
    {relay : Tor1Crypt κ δ} (hrelay : c.hops[hop]? = some relay)
    (hguard : NoAccident prim c (.relayForward hop)) : Forwarded prim hop inFlight relay := by
  obtain ⟨hcells, hposition, hbefore⟩ := firstAt_some hfirst
  obtain ⟨ts₁, t, ts₂, hout, rfl, rfl, rfl⟩ := split_traced (h.outbound.trans hcells)
  have hother := hguard _ hfirst relay hrelay
  have hlt : hop < c.cpath.length := by
    rw [← h.length]
    exact (List.getElem?_eq_some_iff.mp hrelay).1
  obtain ⟨f, hreceive, -⟩ := received_taken h hout hposition
    (fun u hu => hbefore _ (List.mem_map_of_mem hu)) (List.getElem?_eq_getElem hlt) hrelay hother
  have hok := h.outOk t (by simp [hout])
  constructor
  · rw [relayForward_eq, hreceive]
    by_cases heq : t.cell.sent.hop = hop <;> simp [heq]
  · intro heq
    rw [relayForward_eq, hreceive, ← hok.original, heq]
  · intro heq
    rw [relayForward_eq, hreceive]
    simp [heq]
  · intro hne
    have hnotag : (relay.f.receive prim t.cell.payload).2.2 = none := by
      rw [hreceive]
      simp [hne]
    rw [relayForward_eq, receive_other hnotag]
  · exact hposition ▸ hok.le

/-- A cell that a hop has handled: gone, or one wire further. -/
def further (hop : ℕ) (t : Traced) : List Traced :=
  if t.cell.sent.hop = hop then [] else [⟨⟨hop + 1, t.wire (hop + 1), t.cell.sent⟩, t.wire⟩]

theorem further_ok {n : ℕ} {u : Traced} (ht : t.Ok n) (hle : hop ≤ t.cell.sent.hop)
    (hu : u ∈ further hop t) : u.Ok n ∧ u.cell.position = hop + 1 := by
  unfold further at hu
  split_ifs at hu with heq
  · cases hu
  · rw [List.mem_singleton.mp hu]
    exact ⟨⟨rfl, by simp only; omega, ht.lt, ht.original⟩, rfl⟩

theorem pending_further {i : ℕ} {ts : List Traced} (hposition : t.cell.position = hop)
    (hi : i ≠ hop) : pending i (further hop t ++ ts) = pending i (t :: ts) := by
  unfold further
  split_ifs with heq
  · rw [pending_cons_outside]
    · rfl
    · intro hin
      have hle := hin.1
      have hge := hin.2
      omega
  · rw [List.singleton_append]
    apply pending_cons_congr
    · simp only [Traced.Inside, hposition]
      omega
    · intro _
      rfl

theorem further_sorted {before after : List Traced}
    (hsorted : (before ++ t :: after).Pairwise fun t u => u.cell.position ≤ t.cell.position)
    (hposition : t.cell.position = hop) (hbefore : ∀ u ∈ before, u.cell.position ≠ hop) :
    (before ++ (further hop t ++ after)).Pairwise fun t u =>
      u.cell.position ≤ t.cell.position := by
  obtain ⟨hpre, htail, hcross⟩ := List.pairwise_append.mp hsorted
  obtain ⟨hafter, hpost⟩ := List.pairwise_cons.mp htail
  have hge : ∀ u ∈ before, hop + 1 ≤ u.cell.position := by
    intro u hu
    have hle := hcross u hu t List.mem_cons_self
    have hne := hbefore u hu
    omega
  unfold further
  split_ifs with heq
  · refine List.pairwise_append.mpr ⟨hpre, hpost, ?_⟩
    intro u hu v hv
    exact hcross u hu v (List.mem_cons_of_mem _ hv)
  · refine List.pairwise_append.mpr ⟨hpre, List.pairwise_cons.mpr ⟨?_, hpost⟩, ?_⟩
    · intro u hu
      have hle := hafter u hu
      simp only
      omega
    · intro u hu v hv
      rcases List.mem_cons.mp hv with rfl | hv
      · exact hge u hu
      · exact hcross u hu v (List.mem_cons_of_mem _ hv)

theorem relayForward_traces (h : Traces prim c out inb)
    (hguard : NoAccident prim c (.relayForward hop))
    (hstep : step prim c (.relayForward hop) = some c') : ∃ out', Traces prim c' out' inb := by
  obtain ⟨⟨before, inFlight, after⟩, hfirst, hrest⟩ := Option.bind_eq_some_iff.mp hstep
  obtain ⟨relay, hrelay, hresult⟩ := Option.bind_eq_some_iff.mp hrest
  obtain ⟨hcells, hposition, hbefore⟩ := firstAt_some hfirst
  obtain ⟨ts₁, t, ts₂, hout, rfl, rfl, rfl⟩ := split_traced (h.outbound.trans hcells)
  have hother := hguard _ hfirst relay hrelay
  have hlt : hop < c.hops.length := (List.getElem?_eq_some_iff.mp hrelay).1
  have hclient := List.getElem?_eq_getElem (h.length ▸ hlt)
  have hbefore' : ∀ u ∈ ts₁, u.cell.position ≠ hop :=
    fun u hu => hbefore _ (List.mem_map_of_mem hu)
  obtain ⟨f, hreceive, hbehind⟩ := received_taken h hout hposition hbefore' hclient hrelay hother
  have hok := h.outOk t (by simp [hout])
  have hle : hop ≤ t.cell.sent.hop := hposition ▸ hok.le
  have hsorted := h.outSorted
  rw [hout] at hsorted
  have hpre : pending hop ts₁ = [] := by
    have htaken := pending_taken hsorted hposition hle hbefore'
    rw [pending_append, pending_cons_inside ⟨Nat.le_of_eq hposition, hle⟩] at htaken
    simpa using htaken
  refine ⟨ts₁ ++ (further hop t ++ ts₂), ?_⟩
  simp only [relayForward_eq, hreceive] at hresult
  cases hresult
  constructor
  · simp [h.length]
  · unfold further
    by_cases heq : t.cell.sent.hop = hop <;> simp [heq]
  · exact h.inbound
  · intro u hu
    rcases List.mem_append.mp hu with hu | hu
    · exact h.outOk u (by simp [hout, hu])
    · rcases List.mem_append.mp hu with hu | hu
      · exact (further_ok hok hle hu).1
      · exact h.outOk u (by simp [hout, hu])
  · exact h.inOk
  · exact further_sorted hsorted hposition hbefore'
  · exact h.inSorted
  · intro i client relay' hclient' hrelay'
    rcases getElem?_set_cases hrelay' with ⟨rfl, rfl⟩ | ⟨hi, hrelay'⟩
    · cases hclient'.symm.trans hclient
      have hnone : pending hop (further hop t) = [] := by
        apply pending_nil
        intro u hu hin
        have hpos := (further_ok hok hle hu).2
        have hin := hin.1
        omega
      rw [pending_append, pending_append, hpre, hnone]
      exact hbehind
    · have h' := h.forward i client relay' hclient' hrelay'
      rw [hout, pending_append] at h'
      rwa [pending_append, pending_further hposition (Ne.symm hi)]
  · intro i client relay' hclient' hrelay'
    rcases getElem?_set_cases hrelay' with ⟨rfl, rfl⟩ | ⟨-, hrelay'⟩
    · exact h.backward hop client relay hclient' hrelay
    · exact h.backward i client relay' hclient' hrelay'

end Outbound

section Inbound
variable {c c' : Circuit κ δ} {out inb : List Traced} {hop : ℕ} {cell : Payload} {ts : List Traced}

/-- The cells past a hop come before those that are not, so none of these is between the ends of
its layer. -/
theorem pending_beyond (hbeyond : ∀ u ∈ ts, hop < u.cell.position) : pending hop ts = [] := by
  apply pending_nil
  intro u hu hin
  have hlt := hbeyond u hu
  have hle := hin.1
  omega

theorem dropWhile_beyond
    (hsorted : ts.Pairwise fun t u => t.cell.position ≤ u.cell.position) :
    ∀ u ∈ ts.dropWhile (fun t => t.cell.position ≤ hop), hop < u.cell.position := by
  induction ts with
  | nil => simp
  | cons t ts ih =>
    obtain ⟨hfirst, hrest⟩ := List.pairwise_cons.mp hsorted
    by_cases hle : t.cell.position ≤ hop
    · rw [List.dropWhile_cons_of_pos (by simpa using hle)]
      exact ih hrest
    · rw [List.dropWhile_cons_of_neg (by simpa using hle)]
      intro u hu
      rcases List.mem_cons.mp hu with rfl | hu
      · omega
      · have h := hfirst u hu
        omega

theorem split_inbound (h : Traces prim c out inb) (hop : ℕ) : ∃ near far, inb = near ++ far ∧
    (∀ u ∈ near, u.cell.position ≤ hop) ∧ (∀ u ∈ far, hop < u.cell.position) ∧
    c.inbound.takeWhile (fun x => x.position ≤ hop) = near.map Traced.cell ∧
    c.inbound.dropWhile (fun x => x.position ≤ hop) = far.map Traced.cell := by
  refine ⟨inb.takeWhile fun t => t.cell.position ≤ hop,
    inb.dropWhile fun t => t.cell.position ≤ hop, List.takeWhile_append_dropWhile.symm, ?_,
    dropWhile_beyond h.inSorted, ?_, ?_⟩
  · intro u hu
    simpa using List.mem_takeWhile_imp hu
  · rw [← h.inbound, List.takeWhile_map]
    rfl
  · rw [← h.inbound, List.dropWhile_map]
    rfl

theorem pending_let_go {near far : List Traced} {t : Traced} (hposition : t.cell.position = hop)
    (hle : hop ≤ t.cell.sent.hop) (hfar : ∀ u ∈ far, hop < u.cell.position) :
    pending hop (near ++ t :: far) = pending hop near ++ [t.entry hop] := by
  rw [pending_append, pending_cons_inside ⟨Nat.le_of_eq hposition, hle⟩, pending_beyond hfar]

theorem sorted_between {near far : List Traced} {t : Traced}
    (hnear : near.Pairwise fun t u => t.cell.position ≤ u.cell.position)
    (hfar : far.Pairwise fun t u => t.cell.position ≤ u.cell.position)
    (hposition : t.cell.position = hop) (hle : ∀ u ∈ near, u.cell.position ≤ hop)
    (hlt : ∀ u ∈ far, hop < u.cell.position) :
    (near ++ t :: far).Pairwise fun t u => t.cell.position ≤ u.cell.position := by
  refine List.pairwise_append.mpr ⟨hnear, List.pairwise_cons.mpr ⟨?_, hfar⟩, ?_⟩
  · intro u hu
    have h := hlt u hu
    omega
  · intro u hu v hv
    have h := hle u hu
    rcases List.mem_cons.mp hv with rfl | hv
    · omega
    · have h' := hlt v hv
      omega

theorem sendInbound_traces (h : Traces prim c out inb) (hfresh : Fresh cell)
    (hstep : step prim c (.sendInbound hop cell) = some c') : ∃ inb', Traces prim c' out inb' := by
  obtain ⟨relay, hrelay, hresult⟩ := Option.bind_eq_some_iff.mp hstep
  have hlt : hop < c.hops.length := (List.getElem?_eq_some_iff.mp hrelay).1
  obtain ⟨near, far, rfl, hnear, hfar, htake, hdrop⟩ := split_inbound h hop
  cases hresult
  obtain ⟨hnearSorted, hfarSorted, -⟩ := List.pairwise_append.mp h.inSorted
  let originated := relay.b.originate prim cell
  let t : Traced := ⟨⟨hop, originated.2.1, ⟨hop, cell, originated.2.2⟩⟩,
    fun i => if i = hop then originated.2.1 else cell⟩
  have hgone : t.cell.position = hop := rfl
  have hentry : t.entry hop = ⟨cell, originated.2.1, some originated.2.2⟩ := by
    simp [t, Traced.entry]
  refine ⟨near ++ t :: far, ?_⟩
  constructor
  · simp [h.length]
  · exact h.outbound
  · simp only [htake, hdrop, List.map_append, List.map_cons]
    rfl
  · exact h.outOk
  · intro u hu
    rcases List.mem_append.mp hu with hu | hu
    · exact h.inOk u (List.mem_append_left _ hu)
    · rcases List.mem_cons.mp hu with rfl | hu
      · exact ⟨by simp [t], Nat.le_refl _, h.length ▸ hlt, by simp [t]⟩
      · exact h.inOk u (List.mem_append_right _ hu)
  · exact h.outSorted
  · exact sorted_between hnearSorted hfarSorted rfl hnear hfar
  · intro i client relay' hclient hrelay'
    rcases getElem?_set_cases hrelay' with ⟨rfl, rfl⟩ | ⟨-, hrelay'⟩
    · exact h.forward hop client relay hclient hrelay
    · exact h.forward i client relay' hclient hrelay'
  · intro i client relay' hclient hrelay'
    rcases getElem?_set_cases hrelay' with ⟨rfl, rfl⟩ | ⟨hi, hrelay'⟩
    · have hbehind := h.backward hop client relay hclient hrelay
      rw [pending_append, pending_beyond hfar, List.append_nil] at hbehind
      rw [pending_let_go hgone (Nat.le_refl _) hfar, hentry]
      exact hbehind.push ⟨hfresh, rfl⟩
    · have hbehind := h.backward i client relay' hclient hrelay'
      rw [pending_append] at hbehind
      rwa [pending_append, pending_cons_outside fun hin => hi (Nat.le_antisymm hin.1 hin.2)]

theorem relayBackward_traces (h : Traces prim c out inb)
    (hstep : step prim c (.relayBackward hop) = some c') : ∃ inb', Traces prim c' out inb' := by
  obtain ⟨⟨before, inFlight, after⟩, hfirst, hrest⟩ := Option.bind_eq_some_iff.mp hstep
  obtain ⟨relay, hrelay, hresult⟩ := Option.bind_eq_some_iff.mp hrest
  obtain ⟨hcells, hposition, hbefore⟩ := firstAt_some hfirst
  obtain ⟨near, t, far, rfl, rfl, rfl, rfl⟩ := split_traced (h.inbound.trans hcells)
  cases hresult
  obtain ⟨hnearSorted, htail, hcross⟩ := List.pairwise_append.mp h.inSorted
  obtain ⟨hafter, hfarSorted⟩ := List.pairwise_cons.mp htail
  have hnear : ∀ u ∈ near, u.cell.position ≤ hop := by
    intro u hu
    have hle := hcross u hu t List.mem_cons_self
    have hne := hbefore _ (List.mem_map_of_mem hu)
    omega
  have hfar : ∀ u ∈ far, hop < u.cell.position := by
    intro u hu
    have hle := hafter u hu
    omega
  have hok := h.inOk t (by simp)
  have hle : hop + 1 ≤ t.cell.sent.hop := hposition ▸ hok.le
  let passed := relay.b.pass prim t.cell.payload
  let t' : Traced := ⟨⟨hop, passed.2, t.cell.sent⟩, fun i => if i = hop then passed.2 else t.wire i⟩
  have hgone : t'.cell.position = hop := rfl
  have hle' : hop ≤ t'.cell.sent.hop := Nat.le_of_succ_le hle
  have hentry : t'.entry hop = ⟨t.cell.payload, passed.2, none⟩ := by
    have hne : t.cell.sent.hop ≠ hop := by omega
    simp [t', Traced.entry, hne, hok.payload, hposition]
  refine ⟨near ++ t' :: far, ?_⟩
  constructor
  · simp [h.length]
  · exact h.outbound
  · simp only [List.map_append, List.map_cons]
    rfl
  · exact h.outOk
  · intro u hu
    rcases List.mem_append.mp hu with hu | hu
    · exact h.inOk u (List.mem_append_left _ hu)
    · rcases List.mem_cons.mp hu with rfl | hu
      · refine ⟨by simp [t'], hle', hok.lt, ?_⟩
        have hne : t.cell.sent.hop + 1 ≠ hop := by omega
        simp [t', hne, hok.original]
      · exact h.inOk u (by simp [hu])
  · exact h.outSorted
  · exact sorted_between hnearSorted hfarSorted rfl hnear hfar
  · intro i client relay' hclient hrelay'
    rcases getElem?_set_cases hrelay' with ⟨rfl, rfl⟩ | ⟨-, hrelay'⟩
    · exact h.forward hop client relay hclient hrelay
    · exact h.forward i client relay' hclient hrelay'
  · intro i client relay' hclient hrelay'
    rcases getElem?_set_cases hrelay' with ⟨rfl, rfl⟩ | ⟨hi, hrelay'⟩
    · have hbehind := h.backward hop client relay hclient hrelay
      have houtside : ¬ t.Inside hop := fun hin => by
        have hin := hin.1
        omega
      rw [pending_append, pending_cons_outside houtside, pending_beyond hfar,
        List.append_nil] at hbehind
      rw [pending_let_go hgone hle' hfar, hentry]
      exact hbehind.push rfl
    · have hbehind := h.backward i client relay' hclient hrelay'
      rw [pending_append] at hbehind ⊢
      have hsame : pending i (t :: far) = pending i (t' :: far) := by
        apply pending_cons_congr
        · simp only [Traced.Inside, t', hposition]
          omega
        · intro hin
          have hin := hin.1
          have hne : i ≠ hop := Ne.symm hi
          have hne' : i + 1 ≠ hop := by omega
          simp [Traced.entry, t', hne, hne']
      rwa [← hsame]

/-- What the client makes of the cell that it takes: it finds the hop the cell is from. -/
structure Attributed (prim : Primitives κ δ) (c : Circuit κ δ) (inFlight : InFlight)
    (cpath' : List (Tor1Crypt κ δ)) : Prop where
  decrypted : decryptCellInbound prim c.cpath inFlight.payload =
    some (cpath', inFlight.sent.original, inFlight.sent.hop)
  tag : ∀ target, cpath'[inFlight.sent.hop]? = some target →
    target.sendmeDigest = inFlight.sent.tag
  length : cpath'.length = c.cpath.length
  digest : ∀ i layer layer', i ≠ inFlight.sent.hop → c.cpath[i]? = some layer →
    cpath'[i]? = some layer' → layer'.b.digest = layer.b.digest

/-- The client's end of a layer makes of the oldest cell what it should. -/
theorem received_first {t : Traced} (h : Traces prim c out (t :: ts))
    (hposition : t.cell.position = 0) {i : ℕ} {client relay : Tor1Crypt κ δ}
    (hclient : c.cpath[i]? = some client) (hrelay : c.hops[i]? = some relay)
    (hle : i ≤ t.cell.sent.hop)
    (hother : t.cell.sent.hop ≠ i → (client.b.receive prim (t.wire i)).2.2 = none) :
    ∃ b, client.b.receive prim (t.wire i) =
        (b, t.wire (i + 1), if t.cell.sent.hop = i then some t.cell.sent.tag else none) ∧
      Behind (halfLayer prim) Fresh Eq (pending i ts) relay.b b := by
  have hbehind := h.backward i client relay hclient hrelay
  rw [pending_cons_inside ⟨by omega, hle⟩] at hbehind
  apply hbehind.pop (halfLayer_sound prim)
  intro hnotag
  apply hother
  intro heq
  simp [Traced.entry, heq] at hnotag

theorem clientReceive_received (h : Traces prim c out inb) {before after : List InFlight}
    {inFlight : InFlight} (hfirst : firstAt 0 c.inbound = some (before, inFlight, after))
    (hguard : NoAccident prim c .clientReceive) : ∃ cpath' inb', Attributed prim c inFlight cpath' ∧
      Traces prim { c with cpath := cpath', inbound := before ++ after } out inb' := by
  obtain ⟨hcells, hposition, hbefore⟩ := firstAt_some hfirst
  obtain ⟨ts₁, t, ts₂, rfl, rfl, rfl, rfl⟩ := split_traced (h.inbound.trans hcells)
  have hnone := hguard _ hfirst
  have hok := h.inOk t (by simp)
  have hwire : t.cell.payload = t.wire 0 := hposition ▸ hok.payload
  -- nothing is ahead of a cell that has come to the client
  obtain rfl : ts₁ = [] := by
    apply List.eq_nil_iff_forall_not_mem.mpr
    intro u hu
    have hle := (List.pairwise_append.mp h.inSorted).2.2 u hu t List.mem_cons_self
    have hne := hbefore _ (List.mem_map_of_mem hu)
    omega
  have hrelay : ∀ (i : ℕ) (client : Tor1Crypt κ δ), c.cpath[i]? = some client →
      ∃ relay, c.hops[i]? = some relay := by
    intro i client hclient
    have hlt := (List.getElem?_eq_some_iff.mp hclient).1
    exact ⟨_, List.getElem?_eq_getElem (h.length ▸ hlt)⟩
  rw [hwire] at hnone
  obtain ⟨cpath', hdecrypt, hlength, htag, hlayers⟩ := decryptCellInbound_spec hok.lt hnone
    fun i client hclient hle hother => by
      obtain ⟨relay, hrelay⟩ := hrelay i client hclient
      obtain ⟨b, hreceive, -⟩ := received_first h hposition hclient hrelay hle hother
      rw [hreceive]
  refine ⟨cpath', ts₂, ⟨?_, htag, hlength, ?_⟩, ?_⟩
  · rw [hwire, hdecrypt, hok.original]
  · intro i layer layer' hne hlayer hlayer'
    obtain ⟨-, hb, hother, hsame⟩ := hlayers i layer layer' hlayer hlayer'
    rcases Nat.lt_or_gt_of_ne hne with hlt | hgt
    · rw [hb (Nat.le_of_lt hlt), receive_other (hother hlt)]
    · rw [hsame hgt]
  · obtain ⟨hinOk, hinSorted⟩ := List.pairwise_cons.mp h.inSorted
    constructor
    · exact h.length.trans hlength.symm
    · exact h.outbound
    · rfl
    · simp only [hlength]
      exact h.outOk
    · simp only [hlength]
      exact fun u hu => h.inOk u (List.mem_cons_of_mem _ hu)
    · exact h.outSorted
    · exact hinSorted
    · intro i layer' relay hlayer' hrelay
      have hi : i < c.cpath.length := by
        rw [← hlength]
        exact (List.getElem?_eq_some_iff.mp hlayer').1
      have hlayer := List.getElem?_eq_getElem hi
      obtain ⟨hf, -, -, -⟩ := hlayers i _ layer' hlayer hlayer'
      rw [hf]
      exact h.forward i _ relay hlayer hrelay
    · intro i layer' relay hlayer' hrelay
      have hi : i < c.cpath.length := by
        rw [← hlength]
        exact (List.getElem?_eq_some_iff.mp hlayer').1
      have hlayer := List.getElem?_eq_getElem hi
      obtain ⟨-, hb, hother, hsame⟩ := hlayers i _ layer' hlayer hlayer'
      by_cases hle : i ≤ t.cell.sent.hop
      · obtain ⟨b, hreceive, hbehind⟩ := received_first h hposition hlayer hrelay hle
          fun hne => hother (by omega)
        rw [hb hle, hreceive]
        exact hbehind
      · rw [hsame (by omega)]
        have hbehind := h.backward i _ relay hlayer hrelay
        rwa [List.nil_append, pending_cons_outside fun hin => hle hin.2] at hbehind

end Inbound

section Runs

theorem step_traces {c c' : Circuit κ δ} {out inb : List Traced} {e : Event}
    (h : Traces prim c out inb) (hguard : NoAccident prim c e) (hstep : step prim c e = some c') :
    ∃ out' inb', Traces prim c' out' inb' := by
  cases e with
  | sendOutbound hop cell =>
    obtain ⟨t, h'⟩ := sendOutbound_traces h hguard hstep
    exact ⟨_, _, h'⟩
  | relayForward hop =>
    obtain ⟨out', h'⟩ := relayForward_traces h hguard hstep
    exact ⟨_, _, h'⟩
  | sendInbound hop cell =>
    obtain ⟨inb', h'⟩ := sendInbound_traces h hguard hstep
    exact ⟨_, _, h'⟩
  | relayBackward hop =>
    obtain ⟨inb', h'⟩ := relayBackward_traces h hstep
    exact ⟨_, _, h'⟩
  | clientReceive =>
    obtain ⟨⟨before, inFlight, after⟩, hfirst, hrest⟩ := Option.bind_eq_some_iff.mp hstep
    obtain ⟨cpath', inb', hattributed, h'⟩ := clientReceive_received h hfirst hguard
    simp only [hattributed.decrypted, Option.bind_eq_bind, Option.bind_some] at hrest
    cases hrest
    exact ⟨_, _, h'⟩

theorem start_traces (keys : List (Half κ δ × Half κ δ)) : Traces prim (start keys) [] [] := by
  constructor
  · rfl
  · rfl
  · rfl
  · simp
  · simp
  · exact .nil
  · exact .nil
  · intro i client relay hclient hrelay
    cases hclient.symm.trans hrelay
    exact .refl rfl
  · intro i client relay hclient hrelay
    cases hclient.symm.trans hrelay
    exact .refl rfl

theorem reached_traces {keys : List (Half κ δ × Half κ δ)} {c : Circuit κ δ}
    (h : Reached (step prim) (NoAccident prim) (start keys) c) :
    ∃ out inb, Traces prim c out inb := by
  apply h.invariant
  · exact ⟨[], [], start_traces keys⟩
  · rintro c e c' ⟨out, inb, htraces⟩ hguard hstep
    exact step_traces htraces hguard hstep

/-- A hop that passes an inbound cell on leaves both its digests as they were. -/
structure PassedOn (prim : Primitives κ δ) (inFlight : InFlight) (relay : Tor1Crypt κ δ) :
    Prop where
  forward : (relay.relayBackward prim inFlight.payload).1.f = relay.f
  digest : (relay.relayBackward prim inFlight.payload).1.b.digest = relay.b.digest

/-- In every run, each cell on its way has not gone beyond the end it is addressed to, and there it
is recognized and nowhere else, as it was sent, with the digest that its originator recorded. -/
theorem tor1_recognized {keys : List (Half κ δ × Half κ δ)} {c : Circuit κ δ}
    (hreached : Reached (step prim) (NoAccident prim) (start keys) c) :
    (∀ hop before inFlight after, firstAt hop c.outbound = some (before, inFlight, after) →
      NoAccident prim c (.relayForward hop) →
      ∃ relay, c.hops[hop]? = some relay ∧ Forwarded prim hop inFlight relay) ∧
    (∀ hop before inFlight after, firstAt (hop + 1) c.inbound = some (before, inFlight, after) →
      hop < inFlight.sent.hop ∧ ∃ relay, c.hops[hop]? = some relay ∧
        PassedOn prim inFlight relay) ∧
    ∀ before inFlight after, firstAt 0 c.inbound = some (before, inFlight, after) →
      NoAccident prim c .clientReceive → ∃ cpath', Attributed prim c inFlight cpath' := by
  obtain ⟨out, inb, htraces⟩ := reached_traces hreached
  refine ⟨?_, ?_, ?_⟩
  · intro hop before inFlight after hfirst hguard
    obtain ⟨hcells, hposition, -⟩ := firstAt_some hfirst
    obtain ⟨ts₁, t, ts₂, rfl, rfl, rfl, rfl⟩ := split_traced (htraces.outbound.trans hcells)
    have hok := htraces.outOk t (by simp)
    have hlt : hop < c.hops.length := by
      have hle := hok.le
      have hend := hok.lt
      rw [htraces.length]
      omega
    have hrelay := List.getElem?_eq_getElem hlt
    exact ⟨_, hrelay, relayForward_forwarded htraces hfirst hrelay hguard⟩
  · intro hop before inFlight after hfirst
    obtain ⟨hcells, hposition, -⟩ := firstAt_some hfirst
    obtain ⟨ts₁, t, ts₂, rfl, rfl, rfl, rfl⟩ := split_traced (htraces.inbound.trans hcells)
    have hok := htraces.inOk t (by simp)
    have hle := hok.le
    have hlt : hop < c.hops.length := by
      have hend := hok.lt
      rw [htraces.length]
      omega
    exact ⟨by omega, _, List.getElem?_eq_getElem hlt, rfl, rfl⟩
  · intro before inFlight after hfirst hguard
    obtain ⟨cpath', inb', hattributed, -⟩ := clientReceive_received htraces hfirst hguard
    exact ⟨cpath', hattributed⟩

end Runs

section Counted
variable {half : Half ℕ ℕ} {payload : Payload}

/-- A cipher and a digest that count the cells. -/
def counted : Primitives ℕ ℕ where
  keystream n := Vector.replicate cellPayloadSize (UInt8.ofNat n)
  advance n := n + 1
  addBytes n _ := n + 1
  getDigest n := Vector.replicate digestLen (UInt8.ofNat n)

def blank : Payload := Vector.replicate cellPayloadSize 0

theorem blank_fresh : Fresh blank := by
  constructor
  · have hzero : getUint16 blank 1 (by decide) = 0 := by
      simp [getUint16, blank, Library.NetworkOrder.ofBigEndian]
    simp [isRecognizedV0, hzero]
  · ext i hi
    simp [integrity, Library.Keystream.slice, blank, noIntegrity]

theorem cryptOnePayload_counted {n : ℕ} :
    (cryptOnePayload counted n payload).2[1] = payload[1] ^^^ UInt8.ofNat n := by
  simp [cryptOnePayload, Library.Keystream.xorBytes, counted]

theorem originate_counted :
    (half.originate counted payload).2.1[1] = payload[1] ^^^ UInt8.ofNat half.crypto := by
  refine cryptOnePayload_counted.trans ?_
  rw [setDigestV0, setIntegrity_outside (by decide) (by decide)]

/-- Where the second byte is not the keystream's, the cell is not recognized. -/
theorem receive_counted (hbyte : payload[1] ≠ UInt8.ofNat half.crypto) :
    (half.receive counted payload).2.2 = none := by
  have hxor : payload[1] ^^^ UInt8.ofNat half.crypto ≠ 0 := by
    simpa [UInt8.xor_eq_zero_iff] using hbyte
  have hother : isRecognizedV0 (cryptOnePayload counted half.crypto payload).2 = false := by
    rw [isRecognizedV0, getUint16, beq_eq_false_iff_ne]
    intro hzero
    rw [← cryptOnePayload_counted] at hxor
    have hlast := (cryptOnePayload counted half.crypto payload).2[2].toNat_lt
    have hfirst := (cryptOnePayload counted half.crypto payload).2[1].toNat_lt
    have hvalue := congrArg UInt16.toNat hzero
    simp only [Library.NetworkOrder.ofBigEndian, List.foldl, UInt16.toNat_ofNat'] at hvalue
    refine hxor (UInt8.toNat_inj.mp ?_)
    simp at hvalue ⊢
    omega
  rw [Half.receive, if_neg (by rw [hother]; decide)]

def twoHops : Circuit ℕ ℕ := start [(⟨1, 0⟩, ⟨2, 0⟩), (⟨3, 0⟩, ⟨4, 0⟩)]

theorem twoHops_sends : ∃ c outer inner tag tag' first second client target,
    run (step counted) twoHops [.sendInbound 1 blank, .sendOutbound 1 blank] = some c ∧
      c.outbound = [⟨0, outer, ⟨1, blank, tag⟩⟩] ∧ c.inbound = [⟨1, inner, ⟨1, blank, tag'⟩⟩] ∧
      c.hops = [first, second] ∧ c.cpath = [client, target] ∧ first.f.crypto = 1 ∧
      first.b.crypto = 2 ∧ client.b.crypto = 2 ∧ outer[1] = 2 ∧ inner[1] = 4 := by
  refine ⟨_, _, _, _, _, _, _, _, _, rfl, rfl, rfl, rfl, rfl, rfl, rfl, rfl, ?_, ?_⟩
  · refine cryptOnePayload_counted.trans ?_
    refine (congrArg (· ^^^ UInt8.ofNat 1) originate_counted).trans ?_
    simp only [blank, Vector.getElem_replicate]
    decide
  · refine originate_counted.trans ?_
    simp only [blank, Vector.getElem_replicate]
    decide

/-- The first hop passes both cells on. The last is to take the one, and the client the other. -/
theorem tor1_recognized_twoHops : ∃ c c' : Circuit ℕ ℕ,
    run (step counted) twoHops [.sendInbound 1 blank, .sendOutbound 1 blank, .relayForward 0] =
      some c ∧
    (∃ outbound relay, firstAt 1 c.outbound = some ([], outbound, []) ∧ outbound.sent.hop = 1 ∧
      c.hops[1]? = some relay ∧ Forwarded counted 1 outbound relay) ∧
    (∃ inbound relay, firstAt 1 c.inbound = some ([], inbound, []) ∧ c.hops[0]? = some relay ∧
      PassedOn counted inbound relay) ∧
    step counted c (.relayBackward 0) = some c' ∧
    ∃ inbound cpath', firstAt 0 c'.inbound = some ([], inbound, []) ∧ inbound.sent.hop = 1 ∧
      Attributed counted c' inbound cpath' := by
  obtain ⟨c₀, outer, inner, tag, tag', first, second, client, target, hsends, houtbound₀,
    hinbound₀, hhops₀, hcpath₀, hforward, hbackward, hclient, houter, hinner⟩ := twoHops_sends
  have hother : (first.relayForward counted outer).2.2 = false := by
    rw [relayForward_eq, receive_counted (by rw [houter, hforward]; decide)]
    rfl
  obtain ⟨c, hforwarded, hcpath, hhops, houtbound, hinbound⟩ : ∃ c,
      step counted c₀ (.relayForward 0) = some c ∧ c.cpath = [client, target] ∧
        c.hops = [(first.relayForward counted outer).1, second] ∧
        firstAt 1 c.outbound = some ([], ⟨1, (first.relayForward counted outer).2.1,
          ⟨1, blank, tag⟩⟩, []) ∧
        firstAt 1 c.inbound = some ([], ⟨1, inner, ⟨1, blank, tag'⟩⟩, []) := by
    simp [step, houtbound₀, hinbound₀, hhops₀, hcpath₀, firstAt, hother]
  obtain ⟨c', hreturned, hcpath', hinbound'⟩ : ∃ c', step counted c (.relayBackward 0) = some c' ∧
      c'.cpath = [client, target] ∧ firstAt 0 c'.inbound = some ([],
        ⟨0, ((first.relayForward counted outer).1.relayBackward counted inner).2,
          ⟨1, blank, tag'⟩⟩, []) := by
    simp [step, hinbound, hhops, hcpath, firstAt]
  have hrun : run (step counted) twoHops
      ([.sendInbound 1 blank, .sendOutbound 1 blank] ++ [.relayForward 0]) = some c := by
    rw [run_append, hsends, Option.bind_some, run, hforwarded]
    rfl
  have hsent : Reached (step counted) (NoAccident counted) twoHops c₀ := by
    refine Reached.init.of_run ?_ hsends
    exact ⟨blank_fresh, fun _ _ => ⟨blank_fresh, fun _ _ => trivial⟩⟩
  have hreached : Reached (step counted) (NoAccident counted) twoHops c :=
    hsent.step (by simp [NoAccident, firstAt, houtbound₀, hhops₀, hother]) hforwarded
  have hreached' : Reached (step counted) (NoAccident counted) twoHops c' :=
    hreached.step (e := .relayBackward 0) trivial hreturned
  refine ⟨c, c', hrun, ?_, ?_, hreturned, ?_⟩
  · obtain ⟨relay, hrelay, hrecognized⟩ := (tor1_recognized hreached).1 1 [] _ [] houtbound <| by
      simp [NoAccident, houtbound]
    exact ⟨_, relay, houtbound, rfl, hrelay, hrecognized⟩
  · obtain ⟨-, relay, hrelay, hpassedOn⟩ := (tor1_recognized hreached).2.1 0 [] _ [] hinbound
    exact ⟨_, relay, hinbound, hrelay, hpassedOn⟩
  · have hbyte : ((first.relayForward counted outer).1.relayBackward counted inner).2[1] = 6 := by
      refine cryptOnePayload_counted.trans ?_
      rw [hinner, relayForward_eq, hbackward]
      decide
    obtain ⟨cpath', hattributed⟩ := (tor1_recognized hreached').2.2 [] _ [] hinbound' <| by
      intro found hfound
      cases hinbound'.symm.trans hfound
      rw [hcpath']
      refine ⟨?_, trivial⟩
      rw [clientBackward_eq, receive_counted (by rw [hbyte, hclient]; decide)]
      rfl
    exact ⟨_, cpath', hinbound', rfl, hattributed⟩

end Counted

end TorDaemon.Relay.Tor1
