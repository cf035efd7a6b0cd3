import Mathlib.Data.List.Nodup
import Mathlib.Data.List.Perm.Basic
import TorDaemon.Dos.ClientHistory

/-! The concurrent count of each client is the number of its tracked connections (`dos.c`). -/
namespace TorDaemon.Dos
open Library.NetworkOrder Library.Reachability

variable {w w' : World} {e e' : ClientmapEntry} {conn : OrConnection} {i serial : ℕ}
  {conns : List OrConnection}

/-! ### Lookups -/

theorem torAddrEq_iff {a b : TorAddr} : torAddrEq a b = true ↔ a = b ∧ a ≠ .unix := by
  cases a <;> cases b <;> simp [torAddrEq, Subtype.ext_iff]

theorem clientmapEntriesEq_iff {a b : ClientKey} :
    clientmapEntriesEq a b = true ↔ a = b ∧ a.addr ≠ .unix := by
  unfold clientmapEntriesEq
  split
  case isTrue hne =>
    refine iff_of_false Bool.false_ne_true ?_
    rintro ⟨rfl, -⟩
    exact hne rfl
  case isFalse htransport =>
    rw [Bool.and_eq_true, torAddrEq_iff, decide_eq_true_iff]
    constructor
    · rintro ⟨⟨haddr, hunix⟩, haction⟩
      cases a
      cases b
      exact ⟨by congr; exact not_ne_iff.mp htransport, hunix⟩
    · rintro ⟨rfl, hunix⟩
      exact ⟨⟨rfl, hunix⟩, rfl⟩

theorem geoipLookupClient_eq_some {addr : TorAddr} {transportName : Option Bytes} {action : Action}
    (h : geoipLookupClient w addr transportName action = some e) :
    e ∈ w.clientHistory ∧ e.key = ⟨addr, transportName, action⟩ ∧ addr ≠ .unix := by
  have hfound := List.find?_some h
  obtain ⟨hkey, hunix⟩ := clientmapEntriesEq_iff.mp hfound
  refine ⟨List.mem_of_find?_eq_some h, hkey, ?_⟩
  rw [hkey] at hunix
  exact hunix

theorem geoipLookupClient_eq_none {addr : TorAddr} {transportName : Option Bytes} {action : Action}
    (h : geoipLookupClient w addr transportName action = none) (he : e ∈ w.clientHistory)
    (hkey : e.key = ⟨addr, transportName, action⟩) : addr = .unix := by
  by_contra hunix
  have hne := List.find?_eq_none.mp h e he
  apply hne
  rw [hkey]
  exact clientmapEntriesEq_iff.mpr ⟨rfl, hunix⟩

/-! ### Counts -/

/-- The connection is flagged, and was counted on an entry. -/
def isOn (conn : OrConnection) (serial : ℕ) : Bool :=
  conn.trackedForDosMitigation && decide (conn.countedOn = some serial)

def trackedOn (conns : List OrConnection) (serial : ℕ) : ℕ := conns.countP (isOn · serial)

theorem isOn_iff : isOn conn serial = true ↔
    conn.trackedForDosMitigation = true ∧ conn.countedOn = some serial := by
  rw [isOn, Bool.and_eq_true, decide_eq_true_iff]

theorem isOn_of_untracked (h : conn.trackedForDosMitigation = false) : isOn conn serial = false := by
  rw [isOn, h, Bool.false_and]

theorem trackedOn_cons : trackedOn (conn :: conns) serial =
    trackedOn conns serial + if isOn conn serial then 1 else 0 :=
  List.countP_cons

theorem trackedOn_perm {conns' : List OrConnection} (h : conns.Perm conns') :
    trackedOn conns serial = trackedOn conns' serial :=
  h.countP_eq _

theorem trackedOn_eraseIdx (h : conns[i]? = some conn) : trackedOn conns serial =
    trackedOn (conns.eraseIdx i) serial + if isOn conn serial then 1 else 0 := by
  obtain ⟨hi, rfl⟩ := List.getElem?_eq_some_iff.mp h
  rw [← trackedOn_cons]
  exact trackedOn_perm (List.getElem_cons_eraseIdx_perm hi).symm

theorem trackedOn_set {conn' : OrConnection} (h : conns[i]? = some conn) :
    trackedOn (conns.set i conn') serial =
      trackedOn (conns.eraseIdx i) serial + if isOn conn' serial then 1 else 0 := by
  obtain ⟨hi, -⟩ := List.getElem?_eq_some_iff.mp h
  rw [← trackedOn_cons]
  exact trackedOn_perm (List.set_perm_cons_eraseIdx hi conn')

theorem trackedOn_eq_zero (h : ∀ c ∈ conns, isOn c serial = false) : trackedOn conns serial = 0 :=
  List.countP_eq_zero.mpr fun c hc => Bool.not_eq_true _ ▸ h c hc

theorem trackedOn_pos (hc : conn ∈ conns) (h : isOn conn serial = true) :
    0 < trackedOn conns serial :=
  List.countP_pos_iff.mpr ⟨conn, hc, h⟩

/-! ### The invariant -/

/-- The entry that a tracked connection was counted on, with the key of the connection. -/
def HeldBy (history : List ClientmapEntry) (conn : OrConnection) : Prop :=
  ∃ e ∈ history, conn.countedOn = some e.serial ∧
    e.key = ⟨conn.addr, conn.extOrTransport, .connect⟩ ∧ conn.addr ≠ .unix

structure Sound (w : World) : Prop where
  fresh : ∀ e ∈ w.clientHistory, e.serial < w.nextSerial
  serials : (w.clientHistory.map ClientmapEntry.serial).Nodup
  distinct : ∀ e ∈ w.clientHistory, ∀ e' ∈ w.clientHistory,
    e.key = e'.key → e.key.addr ≠ .unix → e = e'
  few : w.connectionArray.length ≤ 2147483647
  held : ∀ c ∈ w.connectionArray, c.trackedForDosMitigation = true → HeldBy w.clientHistory c
  counts : ∀ e ∈ w.clientHistory,
    e.connStats.concurrentCount.toNat = trackedOn w.connectionArray e.serial
  noUnderflow : w.underflows = 0

theorem Sound.eq_of_serial (h : Sound w) (he : e ∈ w.clientHistory) (he' : e' ∈ w.clientHistory)
    (hserial : e.serial = e'.serial) : e = e' :=
  List.inj_on_of_nodup_map h.serials he he' hserial

theorem start_sound (dos : DosParams) (options : Options) (entrySize : ℕ) :
    Sound (World.start dos options entrySize) :=
  ⟨nofun, List.nodup_nil, nofun, Nat.zero_le _, nofun, nofun, rfl⟩

theorem Sound.modify (h : Sound w) {f : ClientmapEntry → ClientmapEntry}
    (hserial : ∀ e, (f e).serial = e.serial) (hkey : ∀ e, (f e).key = e.key)
    (hfew : conns.length ≤ 2147483647)
    (hheld : ∀ c ∈ conns, c.trackedForDosMitigation = true → HeldBy w.clientHistory c)
    (hcounts : ∀ e ∈ w.clientHistory, (if e.serial = serial then f e else e).connStats.concurrentCount.toNat
      = trackedOn conns e.serial) :
    Sound { w.modifyEntry serial f with connectionArray := conns } := by
  have hs : ∀ e, (if e.serial = serial then f e else e).serial = e.serial := by
    intro e
    split
    · exact hserial e
    · rfl
  have hk : ∀ e, (if e.serial = serial then f e else e).key = e.key := by
    intro e
    split
    · exact hkey e
    · rfl
  constructor
  · intro e he
    obtain ⟨e₀, he₀, rfl⟩ := List.mem_map.mp he
    rw [hs]
    exact h.fresh e₀ he₀
  · have hmap : (w.clientHistory.map fun e => if e.serial = serial then f e else e).map
        ClientmapEntry.serial = w.clientHistory.map ClientmapEntry.serial := by
      rw [List.map_map]
      exact List.map_congr_left fun e _ => hs e
    exact hmap ▸ h.serials
  · intro e he e' he' heq hunix
    obtain ⟨e₀, he₀, rfl⟩ := List.mem_map.mp he
    obtain ⟨e₁, he₁, rfl⟩ := List.mem_map.mp he'
    rw [hk, hk] at heq
    rw [hk] at hunix
    rw [h.distinct e₀ he₀ e₁ he₁ heq hunix]
  · exact hfew
  · intro c hc htracked
    obtain ⟨e, he, hon, hkeyed⟩ := hheld c hc htracked
    refine ⟨_, List.mem_map_of_mem he, ?_, ?_⟩
    · rw [hs]
      exact hon
    · rw [hk]
      exact hkeyed
  · intro e he
    obtain ⟨e₀, he₀, rfl⟩ := List.mem_map.mp he
    rw [hs]
    exact hcounts e₀ he₀
  · exact h.noUnderflow

/-! ### Clients that are noted -/

theorem Sound.entryNew (h : Sound w) {key : ClientKey} (now : Now)
    (hnew : ∀ e ∈ w.clientHistory, e.key = key → key.addr = .unix) :
    Sound (clientmapEntryNew w key now).2 := by
  have hother : ∀ e ∈ w.clientHistory, e.serial ≠ w.nextSerial := fun e he =>
    (h.fresh e he).ne
  constructor
  · intro e he
    cases List.mem_cons.mp he with
    | inl heq => exact heq ▸ Nat.lt_succ_self _
    | inr hmem => exact (h.fresh e hmem).trans (Nat.lt_succ_self _)
  · apply List.nodup_cons.mpr ⟨_, h.serials⟩
    intro hmem
    obtain ⟨e, he, heq⟩ := List.mem_map.mp hmem
    exact hother e he heq
  · intro e he e' he' heq hunix
    cases List.mem_cons.mp he with
    | inl hnew₀ =>
      cases List.mem_cons.mp he' with
      | inl hnew₁ => rw [hnew₀, hnew₁]
      | inr hmem =>
        rw [hnew₀] at heq hunix
        exact absurd (hnew e' hmem heq.symm) hunix
    | inr hmem =>
      cases List.mem_cons.mp he' with
      | inl hnew₁ =>
        rw [heq, hnew₁] at hunix
        rw [hnew₁] at heq
        exact absurd (hnew e hmem heq) hunix
      | inr hmem' => exact h.distinct e hmem e' hmem' heq hunix
  · exact h.few
  · intro c hc htracked
    obtain ⟨e, he, hrest⟩ := h.held c hc htracked
    exact ⟨e, List.mem_cons_of_mem _ he, hrest⟩
  · intro e he
    cases List.mem_cons.mp he with
    | inl heq =>
      rw [heq]
      symm
      apply trackedOn_eq_zero
      intro c hc
      by_contra hon
      obtain ⟨htracked, hcounted⟩ := isOn_iff.mp (Bool.not_eq_false _ ▸ hon)
      obtain ⟨e₀, he₀, hcounted₀, -⟩ := h.held c hc htracked
      exact hother e₀ he₀ (Option.some.inj (hcounted₀.symm.trans hcounted))
    | inr hmem => exact h.counts e hmem
  · exact h.noUnderflow

theorem Sound.touch (h : Sound w) (n : ℕ) :
    Sound (w.modifyEntry serial fun e => { e with lastSeenInMinutes := n }) := by
  refine h.modify (f := fun e => { e with lastSeenInMinutes := n }) (fun _ => rfl) (fun _ => rfl)
    h.few h.held ?_
  intro e he
  rw [← h.counts e he]
  split <;> rfl

theorem geoipNoteClientSeen_sound (h : Sound w) (action : Action) (addr : TorAddr)
    (transportName : Option Bytes) (now : Now) :
    Sound (geoipNoteClientSeen w action addr transportName now) := by
  unfold geoipNoteClientSeen
  split
  case isFalse => exact h
  case isTrue =>
    cases hlookup : geoipLookupClient w addr transportName action with
    | some entry => exact h.touch _
    | none =>
      apply Sound.touch (h.entryNew now _)
      exact fun e he hkey => geoipLookupClient_eq_none hlookup he hkey

theorem geoipNoteClientSeen_connectionArray (w : World) (action : Action) (addr : TorAddr)
    (transportName : Option Bytes) (now : Now) :
    (geoipNoteClientSeen w action addr transportName now).connectionArray =
      w.connectionArray := by
  unfold geoipNoteClientSeen
  split
  case isFalse => rfl
  case isTrue =>
    cases geoipLookupClient w addr transportName action <;> rfl

/-! ### Connections that are counted -/

theorem connUpdateOnConnect_count (dos : DosParams) (now : Now) (stats : ConnClientStats) :
    (connUpdateOnConnect dos now stats).concurrentCount = stats.concurrentCount + 1 := by
  rw [connUpdateOnConnect, apply_ite ConnClientStats.concurrentCount]
  exact ite_self _

section
variable (h : Sound w)
include h

theorem Sound.count_succ (he : e ∈ w.clientHistory) :
    (e.connStats.concurrentCount + 1).toNat = e.connStats.concurrentCount.toNat + 1 := by
  have hle : trackedOn w.connectionArray e.serial ≤ _ := List.countP_le_length
  have hfew := h.few
  have hcount := h.counts e he
  rw [UInt32.toNat_add, UInt32.toNat_one, Nat.mod_eq_of_lt (by omega)]

theorem dosNewClientConn_sound (hi : w.connectionArray[i]? = some conn)
    (hfree : conn.trackedForDosMitigation = false) (now : Now) :
    Sound (dosNewClientConn w i conn conn.extOrTransport now) := by
  unfold dosNewClientConn
  split
  case isFalse => exact h
  case isTrue =>
    cases hlookup : geoipLookupClient w conn.addr conn.extOrTransport .connect with
    | none => exact h
    | some entry =>
      obtain ⟨hmem, hkey, hunix⟩ := geoipLookupClient_eq_some hlookup
      apply h.modify (f := fun e => { e with connStats := connUpdateOnConnect w.dos now e.connStats })
        (fun _ => rfl) (fun _ => rfl)
      · rw [List.length_set]
        exact h.few
      · intro c hc htracked
        cases List.mem_or_eq_of_mem_set hc with
        | inl hold => exact h.held c hold htracked
        | inr hnew =>
          rw [hnew]
          exact ⟨entry, hmem, rfl, hkey, hunix⟩
      · intro e he
        have hcount := h.counts e he
        have hconn : isOn conn e.serial = false := isOn_of_untracked hfree
        rw [trackedOn_eraseIdx hi, hconn] at hcount
        rw [trackedOn_set hi]
        by_cases hserial : e.serial = entry.serial
        · have hon : isOn { conn with
              trackedForDosMitigation := true, countedOn := some entry.serial } e.serial = true :=
            isOn_iff.mpr ⟨rfl, congrArg some hserial.symm⟩
          rw [if_pos hserial, hon]
          rw [connUpdateOnConnect_count, h.count_succ he, hcount]
          rfl
        · have hon : isOn { conn with
              trackedForDosMitigation := true, countedOn := some entry.serial } e.serial = false := by
            rw [isOn, decide_eq_false]
            · rfl
            · exact fun heq => hserial (Option.some.inj heq).symm
          rw [if_neg hserial, hon, hcount]

theorem noteAndCount_sound (hi : w.connectionArray[i]? = some conn)
    (hfree : conn.trackedForDosMitigation = false) (now : Now) :
    Sound (noteAndCount w i conn now) := by
  apply dosNewClientConn_sound (geoipNoteClientSeen_sound h .connect _ _ now) _ hfree
  rw [geoipNoteClientSeen_connectionArray]
  exact hi

theorem channelTlsHandleIncoming_sound {addr : TorAddr} {extOrTransport : Option Bytes} {now : Now}
    (hs : channelTlsHandleIncoming w addr extOrTransport now = some w') : Sound w' := by
  unfold channelTlsHandleIncoming at hs
  split at hs
  case isFalse => cases hs
  case isTrue hlt =>
    cases hs
    have hadded : Sound { w with connectionArray :=
        w.connectionArray ++ [⟨addr, extOrTransport, false, none⟩] } := by
      refine ⟨h.fresh, h.serials, h.distinct, ?_, ?_, ?_, h.noUnderflow⟩
      · rw [List.length_append]
        exact hlt
      · intro c hc htracked
        cases List.mem_append.mp hc with
        | inl hold => exact h.held c hold htracked
        | inr hnew =>
          rw [List.mem_singleton.mp hnew] at htracked
          exact Bool.noConfusion htracked
      · intro e he
        rw [trackedOn, List.countP_append, List.countP_singleton]
        exact h.counts e he
    apply noteAndCount_sound hadded _ rfl
    exact List.getElem?_concat_length

theorem channelDoOpenActions_sound {isClient : Bool} {now : Now}
    (hs : channelDoOpenActions w i isClient now = some w') : Sound w' := by
  obtain ⟨conn, hconn, rfl⟩ := Option.map_eq_some_iff.mp hs
  split
  case isTrue hfree => exact noteAndCount_sound h hconn hfree.2 now
  case isFalse => exact h

end

/-! ### Connections that are closed -/

theorem Sound.lookup (h : Sound w) (hconn : conn ∈ w.connectionArray)
    (htracked : conn.trackedForDosMitigation = true) (hplain : conn.extOrTransport = none) :
    ∃ e, geoipLookupClient w conn.addr none .connect = some e ∧ e ∈ w.clientHistory ∧
      conn.countedOn = some e.serial ∧ 0 < e.connStats.concurrentCount.toNat := by
  obtain ⟨e, he, hon, hkey, hunix⟩ := h.held conn hconn htracked
  rw [hplain] at hkey
  have hpos : 0 < e.connStats.concurrentCount.toNat := by
    rw [h.counts e he]
    exact trackedOn_pos hconn (isOn_iff.mpr ⟨htracked, hon⟩)
  cases hlookup : geoipLookupClient w conn.addr none .connect with
  | none => exact absurd (geoipLookupClient_eq_none hlookup he hkey) hunix
  | some e' =>
    obtain ⟨he', hkey', -⟩ := geoipLookupClient_eq_some hlookup
    have heq : e' = e := by
      apply h.distinct e' he' e he (hkey'.trans hkey.symm)
      rw [hkey']
      exact hunix
    rw [heq]
    exact ⟨e, rfl, he, hon, hpos⟩

/-- A count with one connection less. -/
def lessOne (e : ClientmapEntry) : ClientmapEntry :=
  { e with connStats := { e.connStats with
    concurrentCount := e.connStats.concurrentCount - 1 } }

theorem lessOne_count (h : 0 < e.connStats.concurrentCount.toNat) :
    (lessOne e).connStats.concurrentCount.toNat + 1 = e.connStats.concurrentCount.toNat := by
  have hle : (1 : UInt32) ≤ e.connStats.concurrentCount := h
  change (e.connStats.concurrentCount - 1).toNat + 1 = _
  rw [UInt32.toNat_sub_of_le _ _ hle, UInt32.toNat_one]
  omega

theorem connectionUnlink_tracked (h : Sound w) (hi : w.connectionArray[i]? = some conn)
    (htracked : conn.trackedForDosMitigation = true) (hplain : conn.extOrTransport = none) :
    ∃ e ∈ w.clientHistory, conn.countedOn = some e.serial ∧
      0 < e.connStats.concurrentCount.toNat ∧
      connectionUnlink w i = some { w with
        clientHistory := w.clientHistory.map fun e' => if e'.serial = e.serial then lessOne e' else e'
        connectionArray := w.connectionArray.eraseIdx i } := by
  obtain ⟨e, hlookup, he, hon, hpos⟩ := h.lookup (List.mem_of_getElem? hi) htracked hplain
  refine ⟨e, he, hon, hpos, ?_⟩
  have hnonzero : e.connStats.concurrentCount ≠ 0 := by
    intro hzero
    rw [hzero] at hpos
    exact absurd hpos (Nat.lt_irrefl 0)
  have hfound : geoipLookupClient { w with connectionArray := w.connectionArray.eraseIdx i }
      conn.addr none .connect = some e := hlookup
  rw [connectionUnlink, hi, Option.map_some]
  congr 1
  rw [dosCloseClientConn, if_pos htracked, hfound]
  dsimp only
  rw [connUpdateOnClose, if_neg hnonzero]
  dsimp only [World.modifyEntry]
  congr 1
  apply List.map_congr_left
  intro e' he'
  by_cases hserial : e'.serial = e.serial
  · rw [if_pos hserial, if_pos hserial, h.eq_of_serial he' he hserial]
    rfl
  · rw [if_neg hserial, if_neg hserial]

theorem connectionUnlink_sound (h : Sound w)
    (hplain : ∀ c ∈ w.connectionArray[i]?, c.trackedForDosMitigation = true →
      c.extOrTransport = none) (hs : connectionUnlink w i = some w') : Sound w' := by
  have hfew : (w.connectionArray.eraseIdx i).length ≤ 2147483647 :=
    (List.length_eraseIdx_le w.connectionArray i).trans h.few
  have hheld : ∀ c ∈ w.connectionArray.eraseIdx i, c.trackedForDosMitigation = true →
      HeldBy w.clientHistory c := fun c hc => h.held c (List.mem_of_mem_eraseIdx hc)
  cases hi : w.connectionArray[i]? with
  | none =>
    rw [connectionUnlink, hi] at hs
    cases hs
  | some conn =>
    cases htracked : conn.trackedForDosMitigation with
    | false =>
      rw [connectionUnlink, hi, Option.map_some] at hs
      rw [← Option.some.inj hs, dosCloseClientConn, htracked]
      refine ⟨h.fresh, h.serials, h.distinct, hfew, hheld, ?_, h.noUnderflow⟩
      intro e he
      have hcount := h.counts e he
      rw [trackedOn_eraseIdx hi, isOn_of_untracked htracked] at hcount
      exact hcount
    | true =>
      obtain ⟨e, he, hon, hpos, hunlink⟩ :=
        connectionUnlink_tracked h hi htracked (hplain conn hi htracked)
      rw [← Option.some.inj (hunlink.symm.trans hs)]
      apply h.modify (f := lessOne) (fun _ => rfl) (fun _ => rfl) hfew hheld
      intro e' he'
      have hcount := h.counts e' he'
      rw [trackedOn_eraseIdx hi] at hcount
      by_cases hserial : e'.serial = e.serial
      · have hone : isOn conn e'.serial = true := isOn_iff.mpr ⟨htracked, hserial ▸ hon⟩
        have hless := lessOne_count (h.eq_of_serial he' he hserial ▸ hpos)
        rw [hone, if_pos rfl] at hcount
        rw [if_pos hserial]
        omega
      · have hnone : isOn conn e'.serial = false := by
          by_contra hother
          obtain ⟨-, hon'⟩ := isOn_iff.mp (Bool.not_eq_false _ ▸ hother)
          exact hserial (Option.some.inj (hon'.symm.trans hon))
        rw [hnone] at hcount
        rw [if_neg hserial]
        exact hcount

/-! ### Entries that are dropped -/

/-- An entry whose freeing clears the flag of a connection. -/
def clears (e : ClientmapEntry) (conn : OrConnection) : Bool :=
  decide (e.connStats.concurrentCount ≠ 0) && torAddrEq e.key.addr conn.addr

/-- A connection after some entries were freed. -/
def cleared (dropped : List ClientmapEntry) (conn : OrConnection) : OrConnection :=
  if dropped.any (clears · conn) then { conn with trackedForDosMitigation := false } else conn

theorem dosGeoipEntryAboutToFree_eq (e : ClientmapEntry) (conns : List OrConnection) :
    dosGeoipEntryAboutToFree e conns = conns.map (cleared [e]) := by
  unfold dosGeoipEntryAboutToFree
  split
  case isTrue hzero =>
    have hid : ∀ c ∈ conns, cleared [e] c = c := by
      intro c _
      rw [cleared, List.any_cons, List.any_nil, clears, hzero]
      rfl
    rw [List.map_congr_left hid, List.map_id']
  case isFalse hne =>
    apply List.map_congr_left
    intro c _
    rw [cleared, List.any_cons, List.any_nil, Bool.or_false, clears, decide_eq_true hne,
      Bool.true_and]

theorem cleared_cleared (l l' : List ClientmapEntry) (conn : OrConnection) :
    cleared l' (cleared l conn) = cleared (l ++ l') conn := by
  unfold cleared
  rw [List.any_append]
  cases hl : l.any (clears · conn) with
  | false =>
    rfl
  | true =>
    exact ite_self _

theorem foldl_clientmapEntryFree (l : List ClientmapEntry) (w : World) :
    ∃ size, l.foldl clientmapEntryFree w = { w with
      connectionArray := w.connectionArray.map (cleared l)
      geoipClientHistoryCacheSize := size } := by
  induction l generalizing w with
  | nil => exact ⟨w.geoipClientHistoryCacheSize, by rw [show cleared [] = id from rfl, List.map_id]; rfl⟩
  | cons e l ih =>
    obtain ⟨size, hfold⟩ := ih (clientmapEntryFree w e)
    refine ⟨size, ?_⟩
    rw [List.foldl_cons, hfold]
    congr 1
    change (dosGeoipEntryAboutToFree e w.connectionArray).map (cleared l) = _
    rw [dosGeoipEntryAboutToFree_eq, List.map_map]
    apply List.map_congr_left
    intro c _
    exact cleared_cleared [e] l c

/-- The entries are freed that are dropped. -/
abbrev World.without (w : World) (drop : ClientmapEntry → Bool) (size : ℕ) : World := { w with
    clientHistory := w.clientHistory.filter fun e => !drop e
    connectionArray := w.connectionArray.map (cleared (w.clientHistory.filter drop))
    geoipClientHistoryCacheSize := size }

theorem dropEntries_eq (drop : ClientmapEntry → Bool) (w : World) :
    ∃ size, dropEntries drop w = w.without drop size := by
  obtain ⟨size, hfold⟩ := foldl_clientmapEntryFree (w.clientHistory.filter drop) w
  refine ⟨size, ?_⟩
  rw [dropEntries, hfold]

theorem cleared_congr {l l' : List ClientmapEntry} (h : ∀ e, e ∈ l ↔ e ∈ l') :
    cleared l = cleared l' := by
  funext conn
  have hany : l.any (clears · conn) = l'.any (clears · conn) := by
    rw [Bool.eq_iff_iff, List.any_eq_true, List.any_eq_true]
    simp only [h]
  rw [cleared, hany, cleared]

theorem filter_filter_not (drop drop' : ClientmapEntry → Bool) (l : List ClientmapEntry) :
    (l.filter fun e => !drop e).filter (fun e => !drop' e) =
      l.filter fun e => !(drop e || drop' e) := by
  rw [List.filter_filter]
  apply List.filter_congr
  intro e _
  rw [Bool.not_or, Bool.and_comm]

theorem mem_filter_or (drop drop' : ClientmapEntry → Bool) (l : List ClientmapEntry)
    (e : ClientmapEntry) : e ∈ l.filter drop ++ (l.filter fun e => !drop e).filter drop' ↔
      e ∈ l.filter fun e => drop e || drop' e := by
  simp only [List.mem_append, List.mem_filter]
  cases drop e <;> simp

/-- The rounds together are one walk over the table. -/
theorem oomRounds_eq (now : ℤ) (minRemoveBytes k bytesRemoved : ℕ) (w : World) :
    ∃ drop size, oomRounds now minRemoveBytes k bytesRemoved w = w.without drop size := by
  induction k, bytesRemoved, w using oomRounds.induct now minRemoveBytes with
  | case1 k bytesRemoved w hle =>
    refine ⟨fun _ => false, w.geoipClientHistoryCacheSize, ?_⟩
    rw [oomRounds, if_pos hle, World.without, List.filter_false, show cleared [] = id from rfl, List.map_id]
    change w = { w with clientHistory := w.clientHistory.filter fun _ => true }
    rw [List.filter_true]
  | case2 k bytesRemoved w hlt cleaned hmore ih =>
    obtain ⟨size, hround⟩ := dropEntries_eq (olderThan (now - k)) w
    obtain ⟨drop', size', hrest⟩ := ih
    refine ⟨fun e => olderThan (now - k) e || drop' e, size', ?_⟩
    rw [oomRounds, if_neg hlt]
    rw [if_pos hmore, hrest]
    change ({ dropEntries (olderThan (now - k)) w with
      clientHistory := (dropEntries (olderThan (now - k)) w).clientHistory.filter fun e => !drop' e
      connectionArray := (dropEntries (olderThan (now - k)) w).connectionArray.map
        (cleared ((dropEntries (olderThan (now - k)) w).clientHistory.filter drop'))
      geoipClientHistoryCacheSize := size' } : World) = _
    rw [hround]
    dsimp only
    rw [World.without, filter_filter_not, List.map_map, ← cleared_congr (mem_filter_or _ drop' w.clientHistory)]
    congr 1
    apply List.map_congr_left
    intro c _
    exact cleared_cleared _ _ c
  | case3 k bytesRemoved w hlt cleaned hdone =>
    obtain ⟨size, hround⟩ := dropEntries_eq (olderThan (now - k)) w
    refine ⟨olderThan (now - k), size, ?_⟩
    rw [oomRounds, if_neg hlt]
    rw [if_neg hdone]
    exact hround

/-- A clean-up that keeps some of the entries: with an entry whose count is positive, it drops the
entries of all tracked connections from its address. -/
def DropsTogether (w : World) (kept : List ClientmapEntry) : Prop :=
  ∀ e ∈ w.clientHistory, e ∉ kept → e.connStats.concurrentCount ≠ 0 →
    ∀ c ∈ w.connectionArray, c.trackedForDosMitigation = true →
      torAddrEq e.key.addr c.addr = true →
        ∀ e' ∈ w.clientHistory,
          clientmapEntriesEq e'.key ⟨c.addr, c.extOrTransport, .connect⟩ = true → e' ∉ kept

theorem Sound.dropped (h : Sound w) {drop : ClientmapEntry → Bool} {size : ℕ}
    (htogether : DropsTogether w (w.clientHistory.filter fun e => !drop e)) :
    Sound (w.without drop size) := by
  have hsub : ∀ e ∈ w.clientHistory.filter fun e => !drop e, e ∈ w.clientHistory :=
    fun e he => (List.mem_filter.mp he).1
  have hnot : ∀ e ∈ w.clientHistory, drop e = true →
      e ∉ w.clientHistory.filter fun e => !drop e := by
    intro e _ hdrop hmem
    have := (List.mem_filter.mp hmem).2
    rw [hdrop] at this
    exact Bool.noConfusion this
  -- A flag is cleared only where the entry of the connection is dropped too.
  have hkeeps : ∀ c ∈ w.connectionArray, ∀ e ∈ w.clientHistory.filter fun e => !drop e,
      isOn (cleared (w.clientHistory.filter drop) c) e.serial = isOn c e.serial := by
    intro c hc e he
    unfold cleared
    split
    case isFalse => rfl
    case isTrue hany =>
      obtain ⟨e₀, he₀, hclears⟩ := List.any_eq_true.mp hany
      obtain ⟨hmem₀, hdrop₀⟩ := List.mem_filter.mp he₀
      obtain ⟨hcount₀, haddr₀⟩ := Bool.and_eq_true_iff.mp hclears
      symm
      by_contra hon
      obtain ⟨htracked, hcounted⟩ := isOn_iff.mp (Bool.not_eq_false _ ▸ hon)
      obtain ⟨e₁, he₁, hcounted₁, hkey₁, hunix⟩ := h.held c hc htracked
      have heq : e₁ = e :=
        h.eq_of_serial he₁ (hsub e he) (Option.some.inj (hcounted₁.symm.trans hcounted))
      refine htogether e₀ hmem₀ (hnot e₀ hmem₀ hdrop₀) (of_decide_eq_true hcount₀) c hc htracked
        haddr₀ e₁ he₁ ?_ (heq ▸ he)
      rw [hkey₁]
      exact clientmapEntriesEq_iff.mpr ⟨rfl, hunix⟩
  constructor
  · exact fun e he => h.fresh e (hsub e he)
  · exact h.serials.sublist (List.filter_sublist.map _)
  · exact fun e he e' he' => h.distinct e (hsub e he) e' (hsub e' he')
  · rw [List.length_map]
    exact h.few
  · intro c' hc' htracked'
    obtain ⟨c, hc, rfl⟩ := List.mem_map.mp hc'
    unfold cleared at htracked' ⊢
    split at htracked'
    case isTrue => exact Bool.noConfusion htracked'
    case isFalse hany =>
      rw [if_neg hany]
      obtain ⟨e, he, hcounted, hkey, hunix⟩ := h.held c hc htracked'
      refine ⟨e, ?_, hcounted, hkey, hunix⟩
      apply List.mem_filter.mpr ⟨he, _⟩
      by_contra hdrop
      apply hany
      have hpos := trackedOn_pos hc (isOn_iff.mpr ⟨htracked', hcounted⟩)
      rw [← h.counts e he] at hpos
      have hcount : e.connStats.concurrentCount ≠ 0 := by
        intro hzero
        rw [hzero] at hpos
        exact absurd hpos (Nat.lt_irrefl 0)
      refine List.any_eq_true.mpr ⟨e, List.mem_filter.mpr ⟨he, by simpa using hdrop⟩, ?_⟩
      rw [clears, decide_eq_true hcount, hkey, torAddrEq_iff.mpr ⟨rfl, hunix⟩]
      rfl
  · intro e he
    rw [h.counts e (hsub e he), trackedOn, trackedOn, List.countP_map]
    apply List.countP_congr
    intro c hc
    rw [Function.comp_apply, hkeeps c hc e he]
  · exact h.noUnderflow

/-! ### Every run -/

/-- The event leaves every count with its connections. A tracked connection that is closed used no
transport, and the entries that a clean-up drops have no tracked connections on entries that it
keeps. -/
def LeavesCounts (w : World) : Event → Prop
  | .closed i => ∀ c ∈ w.connectionArray[i]?, c.trackedForDosMitigation = true →
      c.extOrTransport = none
  | .removeOldClients cutoff => DropsTogether w (geoipRemoveOldClients w cutoff).clientHistory
  | .historyClear => DropsTogether w (clientHistoryClear w).clientHistory
  | .handleOom now minRemoveBytes =>
      ∀ w' ∈ geoipClientCacheHandleOom w now minRemoveBytes, DropsTogether w w'.clientHistory
  | _ => True

theorem dropEntries_sound (h : Sound w) {drop : ClientmapEntry → Bool}
    (htogether : DropsTogether w (dropEntries drop w).clientHistory) :
    Sound (dropEntries drop w) := by
  obtain ⟨size, hdrop⟩ := dropEntries_eq drop w
  rw [hdrop] at htogether ⊢
  exact h.dropped htogether

theorem historyStep_sound (h : Sound w) {ev : Event} (hleaves : LeavesCounts w ev)
    (hs : historyStep w ev = some w') : Sound w' := by
  cases ev with
  | incoming addr extOrTransport now => exact channelTlsHandleIncoming_sound h hs
  | opened i isClient now => exact channelDoOpenActions_sound h hs
  | closed i => exact connectionUnlink_sound h hleaves hs
  | dirRequest addr now =>
    cases hs
    exact geoipNoteClientSeen_sound h _ _ _ _
  | removeOldClients cutoff =>
    cases hs
    exact dropEntries_sound h hleaves
  | historyClear =>
    cases hs
    exact dropEntries_sound h hleaves
  | handleOom now minRemoveBytes =>
    have htogether := hleaves w' hs
    change geoipClientCacheHandleOom w now minRemoveBytes = some w' at hs
    unfold geoipClientCacheHandleOom at hs
    split at hs
    case isTrue => cases hs
    case isFalse =>
      obtain ⟨drop, size, hrounds⟩ := oomRounds_eq now minRemoveBytes writeStatsInterval 0 w
      rw [hrounds] at hs
      rw [← Option.some.inj hs] at htogether ⊢
      exact h.dropped htogether
  | setParameters dos =>
    cases hs
    exact ⟨h.fresh, h.serials, h.distinct, h.few, h.held, h.counts, h.noUnderflow⟩
  | setOptions options =>
    cases hs
    exact ⟨h.fresh, h.serials, h.distinct, h.few, h.held, h.counts, h.noUnderflow⟩

/-- Each count is the number of the tracked connections that were counted on the entry, and these
are on entries of the history. -/
structure Synchronized (w : World) : Prop where
  counts : ∀ e ∈ w.clientHistory,
    e.connStats.concurrentCount.toNat = trackedOn w.connectionArray e.serial
  counted : ∀ c ∈ w.connectionArray, c.trackedForDosMitigation = true →
    ∃ e ∈ w.clientHistory, c.countedOn = some e.serial
  emptied : ∀ e ∈ w.clientHistory, (∀ c ∈ w.connectionArray,
    c.trackedForDosMitigation = true → c.countedOn ≠ some e.serial) →
      e.connStats.concurrentCount = 0
  noUnderflow : w.underflows = 0
  serials : (w.clientHistory.map ClientmapEntry.serial).Nodup

theorem Sound.synchronized (h : Sound w) : Synchronized w := by
  constructor
  · exact h.counts
  · intro c hc htracked
    obtain ⟨e, he, hcounted, -⟩ := h.held c hc htracked
    exact ⟨e, he, hcounted⟩
  · intro e he hnone
    rw [← UInt32.toNat_inj, h.counts e he]
    apply trackedOn_eq_zero
    intro c hc
    by_contra hon
    obtain ⟨htracked, hcounted⟩ := isOn_iff.mp (Bool.not_eq_false _ ▸ hon)
    exact hnone c hc htracked hcounted
  · exact h.noUnderflow
  · exact h.serials

/-- A tracked connection that is closed takes one from the entry it was counted on, and from no
other. -/
def Decrements (w : World) (i : ℕ) (conn : OrConnection) : Prop :=
  ∃ e ∈ w.clientHistory, conn.countedOn = some e.serial ∧ 0 < e.connStats.concurrentCount.toNat ∧
    connectionUnlink w i = some { w with
      clientHistory := w.clientHistory.map fun e' => if e'.serial = e.serial then lessOne e' else e'
      connectionArray := w.connectionArray.eraseIdx i }

/-- In every run whose events leave the counts with their connections, they are the numbers of
tracked connections, and each that is closed is taken from its own. -/
theorem concurrent_counts_synchronized (dos : DosParams) (options : Options) (entrySize : ℕ)
    (h : Reached historyStep LeavesCounts (World.start dos options entrySize) w) :
    Synchronized w ∧ ∀ (i : ℕ) (conn : OrConnection), w.connectionArray[i]? = some conn →
      conn.trackedForDosMitigation = true → LeavesCounts w (.closed i) → Decrements w i conn := by
  have hsound : Sound w := h.invariant (start_sound dos options entrySize)
    fun _ _ _ hw hleaves hs => historyStep_sound hw hleaves hs
  refine ⟨hsound.synchronized, fun i conn hi htracked hleaves => ?_⟩
  exact connectionUnlink_tracked hsound hi htracked (hleaves conn hi htracked)

instance decidableDropsTogether (w : World) (kept : List ClientmapEntry) :
    Decidable (DropsTogether w kept) :=
  inferInstanceAs (Decidable (∀ e ∈ w.clientHistory, _))

instance decidableLeavesCounts (w : World) : ∀ ev, Decidable (LeavesCounts w ev)
  | .incoming .. => .isTrue trivial
  | .opened .. => .isTrue trivial
  | .closed i => inferInstanceAs (Decidable (∀ c ∈ w.connectionArray[i]?, _ → _))
  | .dirRequest .. => .isTrue trivial
  | .removeOldClients _ => decidableDropsTogether w _
  | .historyClear => decidableDropsTogether w _
  | .handleOom now minRemoveBytes =>
    inferInstanceAs (Decidable (∀ w' ∈ geoipClientCacheHandleOom w now minRemoveBytes, _))
  | .setParameters _ => .isTrue trivial
  | .setOptions _ => .isTrue trivial

/-- A relay with the defense against connections, and no statistics of its own. -/
def defendedStart : World :=
  .start ⟨false, true, 20, 40, 86400⟩ ⟨false, false, false, false⟩ 96

/-- Two clients connect from one address and another over a transport; one of the first leaves. -/
theorem concurrent_counts_synchronized_three : ∃ w,
    run historyStep defendedStart [.incoming (.ipv4 1) none ⟨60, 60, 1, 5⟩,
      .incoming (.ipv4 1) none ⟨120, 120, 2, 5⟩, .incoming (.ipv4 2) (some [111]) ⟨180, 180, 3, 5⟩,
      .closed 0, .removeOldClients 180] = some w ∧ Synchronized w := by
  have hrun : (run historyStep defendedStart [.incoming (.ipv4 1) none ⟨60, 60, 1, 5⟩,
      .incoming (.ipv4 1) none ⟨120, 120, 2, 5⟩, .incoming (.ipv4 2) (some [111]) ⟨180, 180, 3, 5⟩,
      .closed 0, .removeOldClients 180]).isSome := by decide +kernel
  obtain ⟨w, hw⟩ := Option.isSome_iff_exists.mp hrun
  exact ⟨w, hw, (concurrent_counts_synchronized _ _ _
    (Reached.init.of_run (by decide +kernel) hw)).1⟩

def overTransport : List Event := [.incoming (.ipv4 1) (some [111]) ⟨60, 60, 1, 5⟩, .closed 0]

/-- A client that connects over a transport and leaves stays counted. -/
theorem transport_client_stays_counted :
    ¬ ∀ (dos : DosParams) (options : Options) (entrySize : ℕ) (w : World),
      Reached historyStep (fun _ _ => True) (World.start dos options entrySize) w →
        Synchronized w := by
  intro h
  have hrun : (run historyStep defendedStart overTransport).isSome := by decide +kernel
  obtain ⟨w, hw⟩ := Option.isSome_iff_exists.mp hrun
  have hguard : Guarded historyStep (fun _ _ => True) defendedStart overTransport :=
    ⟨trivial, fun _ _ => ⟨trivial, fun _ _ => trivial⟩⟩
  have hreached := Reached.init.of_run hguard hw
  have hleft : ∀ w ∈ run historyStep defendedStart overTransport, ∃ e ∈ w.clientHistory,
      e.connStats.concurrentCount.toNat ≠ trackedOn w.connectionArray e.serial := by
    decide +kernel
  obtain ⟨e, he, hne⟩ := hleft w hw
  exact hne ((h _ _ _ w hreached).counts e he)

end TorDaemon.Dos
