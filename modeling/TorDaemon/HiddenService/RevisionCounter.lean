import TorDaemon.Crypto.Ope
import TorDaemon.HiddenService.Cache

/-! The revision counters of a service's descriptor: the time since a shared random run began,
under the order-preserving encryption of the descriptor (`hs_service.c`). -/
namespace TorDaemon.HiddenService.RevisionCounter
open Crypto.Ope Cache

section Model
variable (t : Timing)

/-- The clock and the consensus at an upload, and whether the descriptor is the current one or
the next. -/
structure Upload where
  now : ℤ
  validAfter : ℕ
  validUntil : ℕ
  isCurrent : Bool

def reasonablyLiveTime : ℤ := 24 * 60 * 60

def Upload.ReasonablyLive (u : Upload) : Prop :=
  (u.validAfter : ℤ) - reasonablyLiveTime ≤ u.now ∧ u.now ≤ u.validUntil + reasonablyLiveTime

instance (u : Upload) : Decidable u.ReasonablyLive := inferInstanceAs (Decidable (_ ∧ _))

def srStateGetStartTimeOfPreviousProtocolRun (validAfter : ℕ) : ℤ :=
  (srStateGetStartTimeOfCurrentProtocolRun t validAfter : ℤ) - srStateGetProtocolRunDuration t

def srvStart (u : Upload) : ℤ :=
  if u.isCurrent then srStateGetStartTimeOfPreviousProtocolRun t u.validAfter
  else srStateGetStartTimeOfCurrentProtocolRun t u.validAfter

def secondsSinceStartOfSrv (u : Upload) : ℤ := u.now - srvStart t u + 1

def setDescriptorRevisionCounter (ope : CryptoOpe) (u : Upload) : Option UInt64 :=
  let seconds := if (opeInputMax : ℤ) < secondsSinceStartOfSrv t u then (opeInputMax : ℤ)
    else secondsSinceStartOfSrv t u
  cryptoOpeEncrypt ope (toInt32 seconds)

end Model

section Uploads
variable {t : Timing} {ope : CryptoOpe} {block : Keystream} {u u' : Upload}

/-- Two uploads of one descriptor: it has kept its place and the run has not changed, or it was
the next one and is the current one in the run after that. -/
def SameDescriptor (t : Timing) (u u' : Upload) : Prop :=
  u.isCurrent = u'.isCurrent ∧
      srStateGetStartTimeOfCurrentProtocolRun t u'.validAfter =
        srStateGetStartTimeOfCurrentProtocolRun t u.validAfter ∨
    u.isCurrent = false ∧ u'.isCurrent = true ∧
      srStateGetStartTimeOfCurrentProtocolRun t u'.validAfter =
        srStateGetStartTimeOfCurrentProtocolRun t u.validAfter + srStateGetProtocolRunDuration t

instance (t : Timing) (u u' : Upload) : Decidable (SameDescriptor t u u') :=
  inferInstanceAs (Decidable (_ ∨ _))

/-- A directory that has the one descriptor replaces it by the other. -/
def DirAccepts (c c' : UInt64) : Prop :=
  ∀ size s (desc desc' : DirDescriptor),
    s.dir.lookup desc'.plaintextData.blindedPubkey = some desc →
    desc.plaintextData.revisionCounter = c.toNat → desc'.plaintextData.revisionCounter = c'.toNat →
    (replaceAsDir size desc' s).dir.lookup desc'.plaintextData.blindedPubkey =
      some { desc' with nDownloaded := desc.nDownloaded }

/-- The counter goes forward, without an error and without a clamp. -/
def GoesForward (ope : CryptoOpe) (t : Timing) (u u' : Upload) : Prop :=
  ∃ c c', setDescriptorRevisionCounter t ope u = some c ∧
    setDescriptorRevisionCounter t ope u' = some c' ∧ c < c' ∧ c' < cryptoOpeError ∧
    secondsSinceStartOfSrv t u ≤ opeInputMax ∧ secondsSinceStartOfSrv t u' ≤ opeInputMax ∧
    DirAccepts c c'

theorem srvStart_same (h : SameDescriptor t u u') : srvStart t u' = srvStart t u := by
  unfold srvStart srStateGetStartTimeOfPreviousProtocolRun
  rcases h with ⟨hplace, hrun⟩ | ⟨hnext, hcurrent, hrun⟩
  · rw [hplace, hrun]
  · rw [hnext, hcurrent, hrun, if_pos rfl, if_neg Bool.false_ne_true]
    omega

theorem srvStart_le (u : Upload) : srvStart t u ≤ u.validAfter := by
  have hle : srStateGetStartTimeOfCurrentProtocolRun t u.validAfter ≤ u.validAfter :=
    Nat.sub_le ..
  unfold srvStart srStateGetStartTimeOfPreviousProtocolRun
  split <;> omega

theorem dirAccepts_of_lt {c c' : UInt64} (h : c < c') : DirAccepts c c' := by
  intro size s desc desc' hlook hc hc'
  have hnewer : ¬ desc'.plaintextData.revisionCounter ≤ desc.plaintextData.revisionCounter := by
    rw [hc, hc']
    exact Nat.not_le.mpr (UInt64.lt_iff_toNat_lt.mp h)
  simp only [replaceAsDir, hlook, if_neg hnewer, storeAsDir]
  exact AList.lookup_insert _

/-- Where the run has begun, and not too long ago, the counter is the sum of as many words as
there were seconds. -/
theorem counter_eq (h : Precomputed block ope) (hstart : srvStart t u ≤ u.now)
    (hmax : secondsSinceStartOfSrv t u ≤ opeInputMax) : setDescriptorRevisionCounter t ope u =
      some (UInt64.ofNat (wordSum block (secondsSinceStartOfSrv t u).toNat)) := by
  have hint : (opeInputMax : ℤ) < 2 ^ 31 := by decide
  have hpos : 0 < secondsSinceStartOfSrv t u := by
    rw [secondsSinceStartOfSrv]
    omega
  have hnat := Int.toNat_of_nonneg hpos.le
  simp only [setDescriptorRevisionCounter, if_neg (not_lt.mpr hmax),
    toInt32_eq (show -2 ^ 31 ≤ secondsSinceStartOfSrv t u by omega) (hmax.trans_lt hint)]
  rw [← hnat, encrypt_of_precomputed h (by omega) (by omega), Int.toNat_natCast]

/-- Before the run begins there is only the error. -/
theorem counter_early (hlive : u.ReasonablyLive) (hstart : u.now < srvStart t u) :
    setDescriptorRevisionCounter t ope u = some cryptoOpeError := by
  have hle := srvStart_le (t := t) u
  have hlow := hlive.1
  have hday : reasonablyLiveTime = 86400 := rfl
  have hseconds : secondsSinceStartOfSrv t u = u.now - srvStart t u + 1 := rfl
  have hnoclamp : ¬(opeInputMax : ℤ) < secondsSinceStartOfSrv t u := by omega
  simp only [setDescriptorRevisionCounter, if_neg hnoclamp,
    toInt32_eq (show -2 ^ 31 ≤ secondsSinceStartOfSrv t u by omega)
      (show secondsSinceStartOfSrv t u < 2 ^ 31 by omega)]
  exact if_pos (.inl (by omega))

/-- The counter goes forward if and only if the run had begun when it was first set, and had not
begun three days ago (2 to the power of 18 seconds) when it was set again. -/
theorem revisionCounter_goesForward_iff (hope : cryptoOpeNew block = some ope)
    (hsame : SameDescriptor t u u') (hlive : u.ReasonablyLive) (hlt : u.now < u'.now) :
    GoesForward ope t u u' ↔ srvStart t u ≤ u.now ∧ u'.now - srvStart t u < opeInputMax := by
  obtain ⟨ope', hnew, h⟩ := cryptoOpeNew_precomputed block
  rw [hope] at hnew
  obtain rfl := Option.some.inj hnew
  have hstart := srvStart_same hsame
  have hseconds : secondsSinceStartOfSrv t u = u.now - srvStart t u + 1 := rfl
  have hseconds' : secondsSinceStartOfSrv t u' = u'.now - srvStart t u' + 1 := rfl
  constructor
  · rintro ⟨c, c', hc, hc', hless, herror, hmax, hmax', -⟩
    refine ⟨?_, by omega⟩
    by_contra hearly
    rw [counter_early hlive (not_le.mp hearly)] at hc
    obtain rfl := Option.some.inj hc
    exact UInt64.lt_irrefl _ (UInt64.lt_trans hless herror)
  · rintro ⟨hbegun, hrecent⟩
    have hmax : secondsSinceStartOfSrv t u ≤ opeInputMax := by omega
    have hmax' : secondsSinceStartOfSrv t u' ≤ opeInputMax := by omega
    have hless := ofNat_wordSum_lt block
      (show (secondsSinceStartOfSrv t u).toNat < (secondsSinceStartOfSrv t u').toNat by omega)
      (show (secondsSinceStartOfSrv t u').toNat ≤ opeInputMax by omega)
    exact ⟨_, _, counter_eq h hbegun hmax, counter_eq h (by omega) hmax', hless,
      wordSum_lt_error block (by omega), hmax, hmax', dirAccepts_of_lt hless⟩

/-- The next descriptor, an hour into the run, and a clock that is right. -/
def nextUpload : Upload := ⟨86400 * 19000 + 3600, 86400 * 19000, 86400 * 19000 + 10800, false⟩

/-- The same descriptor as the current one, an hour into the next run. -/
def currentUpload : Upload := ⟨86400 * 19001 + 3600, 86400 * 19001, 86400 * 19001 + 10800, true⟩

theorem revisionCounter_goesForward_iff_rotated :
    ∃ ope, cryptoOpeNew (fun _ => Vector.replicate 16 7) = some ope ∧
      (GoesForward ope liveTiming nextUpload currentUpload ↔
        srvStart liveTiming nextUpload ≤ nextUpload.now ∧
          currentUpload.now - srvStart liveTiming nextUpload < opeInputMax) := by
  obtain ⟨ope, hope, -⟩ := cryptoOpeNew_precomputed fun _ => Vector.replicate 16 7
  exact ⟨ope, hope, revisionCounter_goesForward_iff hope (by decide) (by decide) (by decide)⟩

/-- A clock that is an hour slow gives the error as the first counter. -/
theorem slowClock_goes_back :
    ¬ ∀ (block : Keystream) (ope : CryptoOpe) (u u' : Upload), cryptoOpeNew block = some ope →
      SameDescriptor liveTiming u u' → u.ReasonablyLive → u'.ReasonablyLive → u.now < u'.now →
      GoesForward ope liveTiming u u' := by
  intro hall
  obtain ⟨ope, hope, -⟩ := cryptoOpeNew_precomputed fun _ => Vector.replicate 16 7
  obtain ⟨c, c', hc, -, hless, herror, -⟩ := hall _ ope
    ⟨86400 * 19000 - 3600, 86400 * 19000, 86400 * 19000 + 10800, false⟩ nextUpload hope (by decide)
    (by decide) (by decide) (by decide)
  rw [counter_early (by decide) (by decide)] at hc
  obtain rfl := Option.some.inj hc
  exact UInt64.lt_irrefl _ (UInt64.lt_trans hless herror)

end Uploads

end TorDaemon.HiddenService.RevisionCounter
