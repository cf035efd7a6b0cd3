import TorDaemon.Keypin.Table
import TorDaemon.Library.Pairing
import TorDaemon.Library.Scanner

/-! The tables hold one pairing, and the journal gives it back. -/
namespace TorDaemon.Keypin
open Library.NetworkOrder Library.Pairing Library.Reachability Library.Scanner

abbrev Key := Digest digestLen × Digest digest256Len

def KeypinEnt.pair (e : KeypinEnt) : Key := (e.rsaId, e.ed25519Key)

/-- What the tables hold. -/
def State.pairs (s : State) : Set Key := {p | ∃ e ∈ s.rsaMap, e.pair = p}

/-- Both tables have the same entries, and no key is in two of them. -/
structure Consistent (s : State) : Prop where
  same : ∀ e, e ∈ s.rsaMap ↔ e ∈ s.edMap
  rsaIds : (s.rsaMap.map KeypinEnt.rsaId).Nodup
  ed25519Keys : (s.edMap.map KeypinEnt.ed25519Key).Nodup

section HashTable
variable {κ : Type*} [DecidableEq κ] {key : KeypinEnt → κ} {map : List KeypinEnt}
  {elm e : KeypinEnt}

theorem htFind_some (h : htFind key map elm = some e) : e ∈ map ∧ key e = key elm :=
  ⟨List.mem_of_find?_eq_some h, by simpa using List.find?_some h⟩

theorem htFind_none (h : htFind key map elm = none) : ∀ e ∈ map, key e ≠ key elm := by
  simpa [htFind] using h

section
variable (hnodup : (map.map key).Nodup)
include hnodup

theorem htFind_of_mem (he : e ∈ map) (hkey : key e = key elm) : htFind key map elm = some e := by
  cases hfind : htFind key map elm with
  | none => exact absurd hkey (htFind_none hfind e he)
  | some e' =>
    obtain ⟨he', hkey'⟩ := htFind_some hfind
    rw [List.inj_on_of_nodup_map hnodup he' he (hkey'.trans hkey.symm)]

theorem eraseP_eq_filter :
    (map.eraseP fun e => key e = key elm) = map.filter fun e => key e ≠ key elm := by
  induction map with
  | nil => rfl
  | cons e map ih =>
    obtain ⟨hnotin, hnodup⟩ := List.nodup_cons.mp hnodup
    by_cases hkey : key e = key elm
    · rw [List.eraseP_cons_of_pos (by simpa using hkey),
        List.filter_cons_of_neg (by simpa using hkey)]
      symm
      apply List.filter_eq_self.mpr
      intro e' he'
      have hne : key e' ≠ key e := fun h => hnotin (List.mem_map.mpr ⟨e', he', h⟩)
      simpa [← hkey] using hne
    · rw [List.eraseP_cons_of_neg (by simpa using hkey),
        List.filter_cons_of_pos (by simpa using hkey), ih hnodup]

theorem htRemove_of_mem (he : e ∈ map) :
    htRemove key map e = (map.filter fun e' => e' ≠ e, some e) := by
  rw [htRemove, htFind_of_mem hnodup he rfl, eraseP_eq_filter hnodup]
  congr 1
  apply List.filter_congr
  intro e' he'
  have hiff : key e' = key e ↔ e' = e :=
    ⟨fun h => List.inj_on_of_nodup_map hnodup he' he h, fun h => by rw [h]⟩
  simp [hiff]

end

end HashTable

theorem torAssert_pos {p : Prop} [Decidable p] (hp : p) : torAssert p = some () := if_pos hp

section Tables
variable {s s' : State} {e ent : KeypinEnt}

theorem Consistent.isPairing (hs : Consistent s) : IsPairing s.pairs := by
  constructor
  · rintro _ ⟨e, he, rfl⟩ _ ⟨e', he', rfl⟩ hfst
    rw [List.inj_on_of_nodup_map hs.rsaIds he he' hfst]
  · rintro _ ⟨e, he, rfl⟩ _ ⟨e', he', rfl⟩ hsnd
    rw [List.inj_on_of_nodup_map hs.ed25519Keys ((hs.same e).mp he) ((hs.same e').mp he') hsnd]

/-- The entries with a property are kept, and the journal is as it was. -/
structure Kept (P : KeypinEnt → Prop) (s s' : State) : Prop where
  consistent : Consistent s'
  journal : s'.journal = s.journal
  journalFd : s'.journalFd = s.journalFd
  mem : ∀ x, x ∈ s'.rsaMap ↔ x ∈ s.rsaMap ∧ P x

theorem removeEntry_spec (hs : Consistent s) (he : e ∈ s.rsaMap) :
    ∃ s', s.removeEntry e = some s' ∧ Kept (fun x => x ≠ e) s s' := by
  have hremove : s.removeEntry e = some { s with
      rsaMap := s.rsaMap.filter fun x => x ≠ e
      edMap := s.edMap.filter fun x => x ≠ e } := by
    simp [State.removeEntry, htRemove_of_mem hs.rsaIds he,
      htRemove_of_mem hs.ed25519Keys ((hs.same e).mp he), torAssert]
  refine ⟨_, hremove, ⟨?_, ?_, ?_⟩, rfl, rfl, by simp⟩
  · intro x
    simp [hs.same x]
  · exact hs.rsaIds.sublist (List.filter_sublist.map _)
  · exact hs.ed25519Keys.sublist (List.filter_sublist.map _)

theorem addEntryToMap_consistent (hs : Consistent s)
    (hnew : ∀ x ∈ s.rsaMap, x.rsaId ≠ ent.rsaId ∧ x.ed25519Key ≠ ent.ed25519Key) :
    Consistent (s.addEntryToMap ent) := by
  constructor
  · intro x
    simp [State.addEntryToMap, htInsert, hs.same x]
  · simp only [State.addEntryToMap, htInsert, List.map_cons, List.nodup_cons]
    refine ⟨fun hmem => ?_, hs.rsaIds⟩
    obtain ⟨x, hx, hkey⟩ := List.mem_map.mp hmem
    exact (hnew x hx).1 hkey
  · simp only [State.addEntryToMap, htInsert, List.map_cons, List.nodup_cons]
    refine ⟨fun hmem => ?_, hs.ed25519Keys⟩
    obtain ⟨x, hx, hkey⟩ := List.mem_map.mp hmem
    exact (hnew x ((hs.same x).mpr hx)).2 hkey

variable (ent) in
theorem removeRsa_spec (hs : Consistent s) :
    ∃ s₁, s.removeFound (htFind KeypinEnt.rsaId s.rsaMap ent) = some s₁ ∧
      Kept (fun x => x.rsaId ≠ ent.rsaId) s s₁ := by
  cases hfind : htFind KeypinEnt.rsaId s.rsaMap ent with
  | none =>
    refine ⟨s, rfl, hs, rfl, rfl, fun x => ⟨fun hx => ⟨hx, htFind_none hfind x hx⟩, And.left⟩⟩
  | some e =>
    obtain ⟨he, hkey⟩ := htFind_some hfind
    obtain ⟨s₁, hremove, hkept⟩ := removeEntry_spec hs he
    refine ⟨s₁, hremove, hkept.consistent, hkept.journal, hkept.journalFd, fun x => ?_⟩
    rw [hkept.mem]
    apply and_congr_right
    intro hx
    apply not_congr
    constructor
    · rintro rfl
      exact hkey
    · intro h
      exact List.inj_on_of_nodup_map hs.rsaIds hx he (h.trans hkey.symm)

theorem removeEd_spec {s₁ : State} (hs : Consistent s)
    (hother : ∀ e ∈ s.rsaMap, e.rsaId = ent.rsaId → e.ed25519Key ≠ ent.ed25519Key)
    (hs₁ : Kept (fun x => x.rsaId ≠ ent.rsaId) s s₁) :
    ∃ s₂, s₁.removeFound (if htFind KeypinEnt.rsaId s.rsaMap ent ≠
        htFind KeypinEnt.ed25519Key s.edMap ent then htFind KeypinEnt.ed25519Key s.edMap ent
        else none) = some s₂ ∧
      Kept (fun x => x.rsaId ≠ ent.rsaId ∧ x.ed25519Key ≠ ent.ed25519Key) s s₂ := by
  cases hfind : htFind KeypinEnt.ed25519Key s.edMap ent with
  | none =>
    refine ⟨s₁, by simp [State.removeFound], hs₁.consistent, hs₁.journal, hs₁.journalFd,
      fun x => ?_⟩
    rw [hs₁.mem]
    apply and_congr_right
    intro hx
    exact ⟨fun h => ⟨h, htFind_none hfind x ((hs.same x).mp hx)⟩, And.left⟩
  | some e =>
    obtain ⟨he, hkey⟩ := htFind_some hfind
    have hmem := (hs.same e).mpr he
    have hrsa : e.rsaId ≠ ent.rsaId := fun h => hother e hmem h hkey
    have hdiffers : htFind KeypinEnt.rsaId s.rsaMap ent ≠ some e :=
      fun h => hrsa (htFind_some h).2
    obtain ⟨s₂, hremove, hkept⟩ := removeEntry_spec hs₁.consistent ((hs₁.mem e).mpr ⟨hmem, hrsa⟩)
    refine ⟨s₂, ?_, hkept.consistent, hkept.journal.trans hs₁.journal,
      hkept.journalFd.trans hs₁.journalFd, fun x => ?_⟩
    · rw [if_pos hdiffers]
      exact hremove
    · rw [hkept.mem, hs₁.mem, and_assoc]
      apply and_congr_right
      intro hx
      apply and_congr_right
      intro _
      apply not_congr
      constructor
      · rintro rfl
        exact hkey
      · intro h
        exact List.inj_on_of_nodup_map hs.ed25519Keys ((hs.same x).mp hx) he (h.trans hkey.symm)

/-- What an addition does: the pair takes the place of those it contradicts. -/
structure Added (ent : KeypinEnt) (s s' : State) (r : ℤ) : Prop where
  consistent : Consistent s'
  journal : s'.journal = s.journal
  journalFd : s'.journalFd = s.journalFd
  pairs : s'.pairs = supersede s.pairs ent.pair
  duplicate : r = 0 → ent.pair ∈ s.pairs
  fresh : (∀ x ∈ s.rsaMap, x.rsaId ≠ ent.rsaId ∧ x.ed25519Key ≠ ent.ed25519Key) → r = 1

theorem Kept.added (hs : Kept (fun x => x.rsaId ≠ ent.rsaId ∧ x.ed25519Key ≠ ent.ed25519Key) s s')
    {r : ℤ} (hr : r ≠ 0)
    (hfresh : (∀ x ∈ s.rsaMap, x.rsaId ≠ ent.rsaId ∧ x.ed25519Key ≠ ent.ed25519Key) → r = 1) :
    Added ent s (s'.addEntryToMap ent) r := by
  constructor
  · exact addEntryToMap_consistent hs.consistent fun x hx => ((hs.mem x).mp hx).2
  · exact hs.journal
  · exact hs.journalFd
  · ext p
    constructor
    · rintro ⟨x, hx, rfl⟩
      rcases List.mem_cons.mp hx with rfl | hx
      · exact .inl rfl
      · obtain ⟨hmem, hrsa, hed⟩ := (hs.mem x).mp hx
        exact .inr ⟨⟨x, hmem, rfl⟩, hrsa, hed⟩
    · rintro (rfl | ⟨⟨x, hx, rfl⟩, hrsa, hed⟩)
      · exact ⟨ent, List.mem_cons_self, rfl⟩
      · exact ⟨x, List.mem_cons_of_mem _ ((hs.mem x).mpr ⟨hx, hrsa, hed⟩), rfl⟩
  · exact fun h => absurd h hr
  · exact hfresh

theorem addOrReplaceEntryInMap_spec (hs : Consistent s) (ent : KeypinEnt) :
    ∃ s' r, s.addOrReplaceEntryInMap ent = some (s', r) ∧ Added ent s s' r := by
  unfold State.addOrReplaceEntryInMap
  by_cases hdup : (htFind KeypinEnt.rsaId s.rsaMap ent).any fun e =>
      e.ed25519Key = ent.ed25519Key
  · rw [if_pos hdup]
    obtain ⟨e, hfind, hed⟩ := (Option.any_eq_true _ _).mp hdup
    obtain ⟨he, hrsa⟩ := htFind_some hfind
    have hmem : ent.pair ∈ s.pairs := ⟨e, he, Prod.ext hrsa (of_decide_eq_true hed)⟩
    refine ⟨s, 0, rfl, hs, rfl, rfl, (supersede_of_mem hs.isPairing hmem).symm, fun _ => hmem, ?_⟩
    intro hfresh
    exact absurd hrsa (hfresh e he).1
  · rw [if_neg hdup]
    have hother : ∀ e ∈ s.rsaMap, e.rsaId = ent.rsaId → e.ed25519Key ≠ ent.ed25519Key := by
      intro e he hrsa hed
      apply hdup
      simp [htFind_of_mem hs.rsaIds he hrsa, hed]
    obtain ⟨s₁, hfirst, hs₁⟩ := removeRsa_spec ent hs
    obtain ⟨s₂, hsecond, hs₂⟩ := removeEd_spec hs hother hs₁
    by_cases hconflict : (htFind KeypinEnt.rsaId s.rsaMap ent).isSome ∨
        (htFind KeypinEnt.ed25519Key s.edMap ent).isSome
    · rw [if_pos hconflict]
      refine ⟨s₂.addEntryToMap ent, -1, ?_, hs₂.added (by decide) ?_⟩
      · simp only [hfirst, hsecond, Option.bind_eq_bind, Option.bind_some]
        rfl
      · intro hfresh
        rcases hconflict with hconflict | hconflict
        · obtain ⟨e, hfind⟩ := Option.isSome_iff_exists.mp hconflict
          obtain ⟨he, hrsa⟩ := htFind_some hfind
          exact absurd hrsa (hfresh e he).1
        · obtain ⟨e, hfind⟩ := Option.isSome_iff_exists.mp hconflict
          obtain ⟨he, hed⟩ := htFind_some hfind
          exact absurd hed (hfresh e ((hs.same e).mpr he)).2
    · rw [if_neg hconflict]
      simp only [not_or, Option.not_isSome_iff_eq_none] at hconflict
      obtain ⟨hrsa, hed⟩ := hconflict
      have hnew : ∀ x ∈ s.rsaMap, x.rsaId ≠ ent.rsaId ∧ x.ed25519Key ≠ ent.ed25519Key :=
        fun x hx => ⟨htFind_none hrsa x hx, htFind_none hed x ((hs.same x).mp hx)⟩
      have hkept : Kept (fun x => x.rsaId ≠ ent.rsaId ∧ x.ed25519Key ≠ ent.ed25519Key) s s :=
        ⟨hs, rfl, rfl, fun x => ⟨fun hx => ⟨hx, hnew x hx⟩, And.left⟩⟩
      exact ⟨_, 1, rfl, hkept.added (by decide) fun _ => rfl⟩

end Tables

section Journal
variable {s : State} {line : Bytes}

/-- The line of a pair. -/
def pairLine (p : Key) : Bytes :=
  base64EncodeNopad p.1.val ++ 32 :: base64EncodeNopad p.2.val ++ [newline]

theorem digestToBase64_eq (digest : Digest digestLen) :
    digestToBase64 digest = some (base64EncodeNopad digest.val) := by
  have hlength : (base64EncodeNopad digest.val).length = base64DigestLen := by
    rw [base64EncodeNopad_eq, List.length_map, sextets_length, digest.property]
    rfl
  simp [digestToBase64, torAssert, hlength]

theorem digest256ToBase64_eq (digest : Digest digest256Len) :
    digest256ToBase64 digest = some (base64EncodeNopad digest.val) := by
  have hlength : (base64EncodeNopad digest.val).length = base64Digest256Len := by
    rw [base64EncodeNopad_eq, List.length_map, sextets_length, digest.property]
    rfl
  simp [digest256ToBase64, torAssert, hlength]

/-- Only the journal is touched, and a write that succeeds leaves the line in it. -/
theorem journalAppendEntry_spec (s : State) (failure : Option ℕ) (p : Key) :
    ∃ journal journalFd, s.journalAppendEntry failure p.1 p.2 =
      some { s with journal := journal, journalFd := journalFd } ∧
      (s.journalFd → failure = none →
        journal = s.journal ++ pairLine p ∧ journalFd = true) := by
  unfold State.journalAppendEntry
  cases hfd : s.journalFd with
  | false => exact ⟨s.journal, s.journalFd, by simp, by simp⟩
  | true =>
    rw [digestToBase64_eq, digest256ToBase64_eq]
    cases failure with
    | none => exact ⟨_, s.journalFd, by simp [pairLine, newline, hfd], fun _ _ => ⟨rfl, hfd⟩⟩
    | some n => exact ⟨_, false, rfl, by simp⟩

/-- What the lines of a text give. -/
def dataEntries (data : Bytes) : List Key := (journalLines data).filterMap lineEntry

section
variable (hline : newline ∉ line)
include hline

theorem journalLines_line {rest : Bytes} :
    journalLines (line ++ newline :: rest) = line :: journalLines rest := by
  have hall : ∀ c ∈ line, (decide (c ≠ newline)) = true := by
    intro c hc
    simp only [decide_eq_true_eq]
    rintro rfl
    exact hline hc
  have htake : (line ++ newline :: rest).takeWhile (· ≠ newline) = line :=
    takeWhile_until hall (by simp)
  have hdrop : (line ++ newline :: rest).dropWhile (· ≠ newline) = newline :: rest :=
    dropWhile_until hall (by simp)
  cases hdata : line ++ newline :: rest with
  | nil => simp at hdata
  | cons c data => rw [journalLines, ← hdata, htake, hdrop, List.drop_one, List.tail_cons]

theorem journalLines_last (hne : line ≠ []) : journalLines line = [line] := by
  have hall : ∀ c ∈ line, (decide (c ≠ newline)) = true := by
    intro c hc
    simp only [decide_eq_true_eq]
    rintro rfl
    exact hline hc
  cases line with
  | nil => exact absurd rfl hne
  | cons c data =>
    rw [journalLines, List.takeWhile_eq_self_iff.mpr hall, List.dropWhile_eq_nil_iff.mpr hall]
    simp [journalLines]

theorem dataEntries_line {rest : Bytes} :
    dataEntries (line ++ newline :: rest) = (lineEntry line).toList ++ dataEntries rest := by
  rw [dataEntries, journalLines_line hline, List.filterMap_cons]
  cases lineEntry line with
  | none => rfl
  | some p => rfl

end

/-- The newline between two texts changes nothing. -/
theorem dataEntries_append (t u : Bytes) :
    dataEntries (t ++ newline :: u) = dataEntries t ++ dataEntries u := by
  induction hn : t.length using Nat.strong_induction_on generalizing t with
  | _ n ih =>
    by_cases hmem : newline ∈ t
    · obtain ⟨line, rest, rfl, hline⟩ := List.eq_append_cons_of_mem hmem
      have hlt : rest.length < n := by
        rw [← hn, List.length_append, List.length_cons]
        omega
      rw [List.append_assoc, List.cons_append, dataEntries_line hline, dataEntries_line hline,
        ih _ hlt rest rfl, List.append_assoc]
    · rw [dataEntries_line hmem]
      cases t with
      | nil => simp [dataEntries, journalLines, lineEntry]
      | cons c t =>
        have hlast : dataEntries (c :: t) = (lineEntry (c :: t)).toList := by
          rw [dataEntries, journalLines_last hmem (by simp), List.filterMap_cons]
          cases lineEntry (c :: t) <;> rfl
        rw [hlast]

theorem encoded_ne {src : Bytes} {c : UInt8} (hc : c ∈ base64EncodeNopad src) :
    c ≠ newline ∧ c ≠ 64 ∧ c ≠ 35 := by
  rw [base64EncodeNopad_eq] at hc
  obtain ⟨v, hv, rfl⟩ := List.mem_map.mp hc
  have hall : ∀ v : Fin 64, base64EncodeTable v ≠ newline ∧ base64EncodeTable v ≠ 64 ∧
      base64EncodeTable v ≠ 35 := by decide
  exact hall ⟨v, sextets_lt src v hv⟩

theorem digestFromBase64_encode {n : ℕ} (digest : Digest n) :
    digestFromBase64 n (base64EncodeNopad digest.val) = some digest := by
  rw [digestFromBase64, base64Decode_encodeNopad (by rw [digest.property])]
  simp [digest.property]

theorem lineEntry_pair (p : Key) :
    lineEntry (base64EncodeNopad p.1.val ++ 32 :: base64EncodeNopad p.2.val) = some p := by
  have hlength₁ : (base64EncodeNopad p.1.val).length = base64DigestLen := by
    rw [base64EncodeNopad_eq, List.length_map, sextets_length, p.1.property]
    rfl
  have hlength₂ : (base64EncodeNopad p.2.val).length = base64Digest256Len := by
    rw [base64EncodeNopad_eq, List.length_map, sextets_length, p.2.property]
    rfl
  have hlast : (base64EncodeNopad p.1.val ++ 32 :: base64EncodeNopad p.2.val).drop
      (base64DigestLen + 1) = base64EncodeNopad p.2.val := by
    rw [← hlength₁, ← List.drop_drop, List.drop_left]
    rfl
  have hparse : parseJournalLine
      (base64EncodeNopad p.1.val ++ 32 :: base64EncodeNopad p.2.val) = some p := by
    have hspace : (base64EncodeNopad p.1.val ++
        32 :: base64EncodeNopad p.2.val)[base64DigestLen]? = some 32 := by
      rw [← hlength₁, List.getElem?_append_right (le_refl _), Nat.sub_self]
      rfl
    rw [parseJournalLine, List.take_left' hlength₁, digestFromBase64_encode, hspace, hlast,
      List.take_of_length_le hlength₂.le, digestFromBase64_encode]
    rfl
  have hlen : (base64EncodeNopad p.1.val ++ 32 :: base64EncodeNopad p.2.val).length =
      journalLineLen - 1 := by
    rw [List.length_append, List.length_cons, hlength₁, hlength₂]
    rfl
  cases hfirst : base64EncodeNopad p.1.val with
  | nil => simp [hfirst, base64DigestLen] at hlength₁
  | cons c rest =>
    have hmem : c ∈ base64EncodeNopad p.1.val := by simp [hfirst]
    obtain ⟨-, hat, hhash⟩ := encoded_ne hmem
    rw [hfirst] at hlen hparse
    rw [lineEntry, if_neg (by rw [hlen]; decide), if_neg (by simpa using hat),
      if_neg (by simpa using hhash), if_neg (by rw [hlen]; decide), hparse]

/-- A line that was written is read back, whatever comes after it. -/
theorem dataEntries_pairLine (p : Key) (rest : Bytes) :
    dataEntries (pairLine p ++ rest) = p :: dataEntries rest := by
  have hline : newline ∉ base64EncodeNopad p.1.val ++ 32 :: base64EncodeNopad p.2.val := by
    intro hmem
    rcases List.mem_append.mp hmem with hmem | hmem
    · exact (encoded_ne hmem).1 rfl
    · rcases List.mem_cons.mp hmem with hmem | hmem
      · exact absurd hmem (by decide)
      · exact (encoded_ne hmem).1 rfl
  have htext : pairLine p ++ rest = (base64EncodeNopad p.1.val ++
      32 :: base64EncodeNopad p.2.val) ++ newline :: rest := by
    simp [pairLine]
  rw [htext, dataEntries_line hline, lineEntry_pair]
  rfl

theorem dataEntries_pairLines (ps : List Key) (rest : Bytes) :
    dataEntries (ps.flatMap pairLine ++ rest) = ps ++ dataEntries rest := by
  induction ps with
  | nil => rfl
  | cons p ps ih =>
    rw [List.flatMap_cons, List.append_assoc, dataEntries_pairLine, ih, List.cons_append]

end Journal

section Calls
variable {s s' : State}

/-- A call that has gone well: the pairs it brought in, and those among them that it wrote. -/
structure Done (entries written : List Key) (ok : Prop) (s s' : State) : Prop where
  consistent : Consistent s'
  pairs : s'.pairs = supersedeAll s.pairs entries
  journal : s.journalFd → ok → s'.journal = s.journal ++ written.flatMap pairLine ∧ s'.journalFd

/-- The end of `keypin_check_and_add_impl`, for a pair that is new. -/
theorem addNew_spec (hs : Consistent s) (p : Key) (replace : Bool) (failure : Option ℕ)
    (hnotin : p ∉ s.pairs)
    (hnew : replace = false → ∀ x ∈ s.rsaMap, x.rsaId ≠ p.1 ∧ x.ed25519Key ≠ p.2) :
    ∃ s₁ r s₂, (s.alloc p.1 p.2).1.addOrReplaceEntryInMap (s.alloc p.1 p.2).2 = some (s₁, r) ∧
      torAssert (if replace then r ≠ 0 else r = 1) = some () ∧
      s₁.journalAppendEntry failure p.1 p.2 = some s₂ ∧
      Done [p] [p] (failure = none) s s₂ := by
  have halloc : Consistent (s.alloc p.1 p.2).1 := ⟨hs.same, hs.rsaIds, hs.ed25519Keys⟩
  obtain ⟨s₁, r, hadd, hadded⟩ := addOrReplaceEntryInMap_spec halloc (s.alloc p.1 p.2).2
  have hresult : if replace then r ≠ 0 else r = 1 := by
    cases replace with
    | true => exact fun hzero => hnotin (hadded.duplicate hzero)
    | false => exact hadded.fresh (hnew rfl)
  obtain ⟨journal, journalFd, happend, hwritten⟩ := journalAppendEntry_spec s₁ failure p
  refine ⟨s₁, r, { s₁ with journal := journal, journalFd := journalFd }, hadd,
    torAssert_pos hresult, happend, ?_⟩
  constructor
  · exact ⟨hadded.consistent.same, hadded.consistent.rsaIds, hadded.consistent.ed25519Keys⟩
  · exact hadded.pairs
  · intro hfd hok
    obtain ⟨hjournal, hopen⟩ := hwritten (hadded.journalFd.trans hfd) hok
    refine ⟨?_, hopen⟩
    have hsame : s₁.journal = s.journal := hadded.journal
    simp [hjournal, hsame]

theorem checkAndAddImpl_spec (hs : Consistent s) (p : Key) (doNotAdd replace : Bool)
    (failure : Option ℕ) :
    ∃ s' status written, s.checkAndAddImpl p.1 p.2 doNotAdd replace failure = some (s', status) ∧
      (written = [] ∨ written = [p]) ∧ Done written written (failure = none) s s' := by
  have hstay : Done [] [] (failure = none) s s :=
    ⟨hs, rfl, fun hfd _ => ⟨by simp, hfd⟩⟩
  unfold State.checkAndAddImpl
  generalize hsearch : (⟨0, p.1, p.2⟩ : KeypinEnt) = search
  have hrsaId : search.rsaId = p.1 := by rw [← hsearch]
  have hed25519Key : search.ed25519Key = p.2 := by rw [← hsearch]
  have hassert : (htFind KeypinEnt.rsaId s.rsaMap search).all fun ent => ent.rsaId = p.1 := by
    cases hfind : htFind KeypinEnt.rsaId s.rsaMap search with
    | none => rfl
    | some e => simp [(htFind_some hfind).2, hrsaId]
  simp only [torAssert_pos hassert, Option.bind_eq_bind, Option.bind_some]
  by_cases hfound : (htFind KeypinEnt.rsaId s.rsaMap search).any fun ent => ent.ed25519Key = p.2
  · rw [if_pos hfound]
    exact ⟨s, .found, [], rfl, .inl rfl, hstay⟩
  rw [if_neg hfound]
  by_cases hmismatch : (htFind KeypinEnt.rsaId s.rsaMap search).isSome ∧ !replace
  · rw [if_pos hmismatch]
    exact ⟨s, .mismatch, [], rfl, .inl rfl, hstay⟩
  rw [if_neg hmismatch]
  have hrsaNew : replace = false → ∀ x ∈ s.rsaMap, x.rsaId ≠ p.1 := by
    intro hreplace
    have hnone : htFind KeypinEnt.rsaId s.rsaMap search = none := by
      simpa [hreplace] using hmismatch
    exact hrsaId ▸ htFind_none hnone
  cases hbyEd : (if replace then none else htFind KeypinEnt.ed25519Key s.edMap search) with
  | some ent =>
    cases replace with
    | true => cases hbyEd
    | false =>
      obtain ⟨hmem, hed⟩ := htFind_some hbyEd
      have hdiffers := hrsaNew rfl ent ((hs.same ent).mpr hmem)
      simp only [torAssert_pos (hed.trans hed25519Key), torAssert_pos hdiffers, Option.bind_some]
      exact ⟨s, .mismatch, [], rfl, .inl rfl, hstay⟩
  | none =>
    cases doNotAdd with
    | true => exact ⟨s, .notFound, [], rfl, .inl rfl, hstay⟩
    | false =>
      have hnotin : p ∉ s.pairs := by
        rintro ⟨x, hx, rfl⟩
        apply hfound
        rw [htFind_of_mem hs.rsaIds hx hrsaId.symm]
        exact decide_eq_true rfl
      have hnew : replace = false → ∀ x ∈ s.rsaMap, x.rsaId ≠ p.1 ∧ x.ed25519Key ≠ p.2 := by
        rintro rfl x hx
        have hed := htFind_none hbyEd x ((hs.same x).mp hx)
        exact ⟨hrsaNew rfl x hx, hed25519Key ▸ hed⟩
      obtain ⟨s₁, r, s₂, hadd', hresult, happend, hdone⟩ :=
        addNew_spec hs p replace failure hnotin hnew
      refine ⟨s₂, .added, [p], ?_, .inr rfl, hdone⟩
      simp only [Bool.false_eq_true, if_false, hadd', hresult, happend, Option.bind_some]
      rfl

theorem loadJournalImpl_spec (hs : Consistent s) (data : Bytes) :
    ∃ s', s.loadJournalImpl data = some s' ∧ Consistent s' ∧ s'.journal = s.journal ∧
      s'.journalFd = s.journalFd ∧ s'.pairs = supersedeAll s.pairs (dataEntries data) := by
  unfold State.loadJournalImpl dataEntries
  induction journalLines data generalizing s with
  | nil => exact ⟨s, rfl, hs, rfl, rfl, rfl⟩
  | cons line lines ih =>
    cases hentry : lineEntry line with
    | none =>
      have hline : s.loadLine line = some s := by simp [State.loadLine, hentry]
      obtain ⟨s', hload, hrest⟩ := ih hs
      refine ⟨s', ?_, ?_⟩
      · rw [List.foldlM_cons, hline]
        exact hload
      · rw [List.filterMap_cons, hentry]
        exact hrest
    | some p =>
      have halloc : Consistent (s.alloc p.1 p.2).1 := ⟨hs.same, hs.rsaIds, hs.ed25519Keys⟩
      obtain ⟨s₁, r, hadd, hadded⟩ :=
        addOrReplaceEntryInMap_spec halloc (s.alloc p.1 p.2).2
      have hline : s.loadLine line = some s₁ := by
        simp only [State.loadLine, hentry]
        rw [hadd]
        rfl
      obtain ⟨s', hload, hcons, hjournal, hfd, hpairs⟩ := ih hadded.consistent
      refine ⟨s', ?_, hcons, hjournal.trans hadded.journal, hfd.trans hadded.journalFd, ?_⟩
      · rw [List.foldlM_cons, hline]
        exact hload
      · rw [List.filterMap_cons, hentry, hpairs, hadded.pairs]
        rfl

end Calls

section Runs
variable {s s' : State} {calls : List Call}

/-- Every write to the journal goes well. -/
def Call.WritesSucceed : Call → Prop
  | .checkAndAdd _ _ _ failure => failure = none
  | .check _ _ => True
  | .loadJournal _ => True

/-- The text that a call loads, as the file has it: closed by a newline. -/
def Call.loaded : Call → Bytes
  | .checkAndAdd _ _ _ _ => []
  | .check _ _ => []
  | .loadJournal data => data ++ [newline]

/-- What a run loads and what it writes, in order. -/
def runText (s : State) : List Call → Bytes
  | [] => []
  | call :: calls =>
    match step s call with
    | none => []
    | some s' => call.loaded ++ (s'.journal.drop s.journal.length ++ runText s' calls)

theorem dataEntries_nil : dataEntries [] = [] := by simp [dataEntries, journalLines]

theorem dataEntries_loaded (call : Call) (rest : Bytes) :
    dataEntries (call.loaded ++ rest) = dataEntries call.loaded ++ dataEntries rest := by
  cases call with
  | checkAndAdd => rw [Call.loaded, dataEntries_nil]; rfl
  | check => rw [Call.loaded, dataEntries_nil]; rfl
  | loadJournal data =>
    rw [Call.loaded, List.append_assoc, List.singleton_append, dataEntries_append,
      dataEntries_append, dataEntries_nil, List.append_nil]

theorem step_spec (hs : Consistent s) (call : Call) : ∃ s' written, step s call = some s' ∧
    Done (dataEntries call.loaded ++ written) written call.WritesSucceed s s' := by
  cases call with
  | checkAndAdd rsaId ed25519Key replace failure =>
    obtain ⟨s', status, written, hcall, -, hdone⟩ :=
      checkAndAddImpl_spec hs (rsaId, ed25519Key) false replace failure
    refine ⟨s', written, ?_, hdone.consistent, ?_, hdone.journal⟩
    · exact congrArg (Option.map Prod.fst) hcall
    · rw [Call.loaded, dataEntries_nil]
      exact hdone.pairs
  | check rsaId ed25519Key =>
    obtain ⟨s', status, written, hcall, -, hdone⟩ :=
      checkAndAddImpl_spec hs (rsaId, ed25519Key) true false none
    refine ⟨s', written, ?_, hdone.consistent, ?_, fun hfd _ => hdone.journal hfd rfl⟩
    · exact congrArg (Option.map Prod.fst) hcall
    · rw [Call.loaded, dataEntries_nil]
      exact hdone.pairs
  | loadJournal data =>
    obtain ⟨s', hload, hcons, hjournal, hfd, hpairs⟩ := loadJournalImpl_spec hs data
    refine ⟨s', [], hload, hcons, ?_, fun hopen _ => ⟨by simp [hjournal], hfd.trans hopen⟩⟩
    rw [Call.loaded, dataEntries_append, dataEntries_nil, List.append_nil, List.append_nil, hpairs]

/-- What holds after a run in which every write goes well. -/
structure Replayed (calls : List Call) (s s' : State) : Prop where
  pairs : s'.pairs = supersedeAll s.pairs (dataEntries (runText s calls))
  journal : (∀ call ∈ calls, call.loaded = []) → s'.journal = s.journal ++ runText s calls

theorem run_spec (hs : Consistent s) (calls : List Call) :
    ∃ s', run step s calls = some s' ∧ Consistent s' ∧
      (s.journalFd → (∀ call ∈ calls, call.WritesSucceed) → Replayed calls s s') := by
  induction calls generalizing s with
  | nil =>
    refine ⟨s, rfl, hs, fun _ _ => ⟨?_, fun _ => ?_⟩⟩
    · rw [runText, dataEntries_nil]
      rfl
    · rw [runText, List.append_nil]
  | cons call calls ih =>
    obtain ⟨s₁, written, hstep, hdone⟩ := step_spec hs call
    obtain ⟨s', hrun, hcons, hreplayed⟩ := ih hdone.consistent
    refine ⟨s', by rw [run, hstep]; exact hrun, hcons, fun hfd hok => ?_⟩
    obtain ⟨hjournal, hfd₁⟩ := hdone.journal hfd (hok call List.mem_cons_self)
    have hrest := hreplayed hfd₁ fun c hc => hok c (List.mem_cons_of_mem _ hc)
    have htext : runText s (call :: calls) =
        call.loaded ++ (written.flatMap pairLine ++ runText s₁ calls) := by
      simp only [runText, hstep, hjournal, List.drop_left]
    constructor
    · rw [htext, dataEntries_loaded, dataEntries_pairLines, ← List.append_assoc, hrest.pairs,
        hdone.pairs]
      exact List.foldl_append.symm
    · intro hnone
      have hloaded := hnone call List.mem_cons_self
      rw [htext, hloaded, List.nil_append,
        hrest.journal fun c hc => hnone c (List.mem_cons_of_mem _ hc), hjournal,
        List.append_assoc]

theorem consistent_of_empty (hrsa : s.rsaMap = []) (hed : s.edMap = []) : Consistent s := by
  constructor
  · simp [hrsa, hed]
  · simp [hrsa]
  · simp [hed]

theorem pairs_of_empty (hrsa : s.rsaMap = []) : s.pairs = ∅ := by
  simp [State.pairs, hrsa]

theorem load_empty (data : Bytes) : ∃ t, empty.loadJournalImpl data = some t ∧ Consistent t ∧
    t.pairs = supersedeAll ∅ (dataEntries data) := by
  obtain ⟨t, hload, hcons, -, -, hpairs⟩ :=
    loadJournalImpl_spec (consistent_of_empty rfl rfl : Consistent empty) data
  refine ⟨t, hload, hcons, ?_⟩
  rw [hpairs, pairs_of_empty rfl]

theorem dataEntries_opened (tbuf : IsoTime) (rest : Bytes) :
    dataEntries ((empty.openJournal tbuf).journal ++ rest) = dataEntries rest := by
  have hline : newline ∉ openedAt ++ tbuf.val := by
    simp only [List.mem_append, not_or]
    exact ⟨by decide, tbuf.property⟩
  have htext : (empty.openJournal tbuf).journal ++ rest =
      [] ++ newline :: ((openedAt ++ tbuf.val) ++ newline :: rest) := by
    simp [State.openJournal, empty]
  rw [htext, dataEntries_append, dataEntries_nil, dataEntries_line hline]
  rfl

/-- The tables stay one pairing, and what a run loads and writes gives its mapping back. -/
theorem keypin_journal_replays : (∀ s₀ calls, s₀.rsaMap = [] → s₀.edMap = [] →
      ∃ s, run step s₀ calls = some s ∧ Consistent s) ∧
    ∀ tbuf calls s, (∀ call ∈ calls, call.WritesSucceed) →
      run step (empty.openJournal tbuf) calls = some s →
      (∃ t, empty.loadJournalImpl (runText (empty.openJournal tbuf) calls) = some t ∧
        Consistent t ∧ t.pairs = s.pairs) ∧
      ((∀ call ∈ calls, call.loaded = []) →
        ∃ t, empty.loadJournalImpl s.journal = some t ∧ Consistent t ∧ t.pairs = s.pairs) := by
  constructor
  · intro s₀ calls hrsa hed
    obtain ⟨s, hrun, hcons, -⟩ := run_spec (consistent_of_empty hrsa hed) calls
    exact ⟨s, hrun, hcons⟩
  · intro tbuf calls s hok hrun
    have hstart : Consistent (empty.openJournal tbuf) := consistent_of_empty rfl rfl
    obtain ⟨s', hrun', -, hreplayed⟩ := run_spec hstart calls
    obtain rfl := Option.some.inj (hrun'.symm.trans hrun)
    have hafter := hreplayed rfl hok
    have hempty : (empty.openJournal tbuf).pairs = ∅ := pairs_of_empty rfl
    constructor
    · obtain ⟨t, hload, hcons, hpairs⟩ := load_empty (runText (empty.openJournal tbuf) calls)
      refine ⟨t, hload, hcons, ?_⟩
      rw [hpairs, hafter.pairs, hempty]
    · intro hnone
      obtain ⟨t, hload, hcons, hpairs⟩ := load_empty s'.journal
      refine ⟨t, hload, hcons, ?_⟩
      rw [hpairs, hafter.journal hnone, dataEntries_opened, hafter.pairs, hempty]

/-- Two keys of zeros. -/
def zeroPair : Key := (⟨List.replicate digestLen 0, rfl⟩, ⟨List.replicate digest256Len 0, rfl⟩)

/-- The second call puts another Ed25519 key in the place of the first. -/
def replacing : List Call :=
  [.checkAndAdd zeroPair.1 zeroPair.2 false none,
    .checkAndAdd zeroPair.1 ⟨List.replicate digest256Len 1, rfl⟩ true none]

theorem keypin_journal_replays_replacing : ∃ s t,
    run step (empty.openJournal ⟨[], by simp⟩) replacing = some s ∧
      empty.loadJournalImpl s.journal = some t ∧ t.pairs = s.pairs := by
  obtain ⟨hruns, hreplays⟩ := keypin_journal_replays
  obtain ⟨s, hrun, -⟩ := hruns (empty.openJournal ⟨[], by simp⟩) replacing rfl rfl
  obtain ⟨-, hjournal⟩ := hreplays _ replacing s (by simp [replacing, Call.WritesSucceed]) hrun
  obtain ⟨t, hload, -, hpairs⟩ := hjournal (by simp [replacing, Call.loaded])
  exact ⟨s, t, hrun, hload, hpairs⟩

/-- What a run loads it does not write: the journal after it gives nothing back. -/
theorem loaded_not_written : ∃ s t,
    run step (empty.openJournal ⟨[], by simp⟩) [.loadJournal (pairLine zeroPair)] = some s ∧
      empty.loadJournalImpl s.journal = some t ∧ t.pairs ≠ s.pairs := by
  have hstart : Consistent (empty.openJournal ⟨[], by simp⟩) := consistent_of_empty rfl rfl
  obtain ⟨s, hload, -, hjournal, -, hpairs⟩ :=
    loadJournalImpl_spec hstart (pairLine zeroPair)
  obtain ⟨t, hreload, -, ht⟩ := load_empty s.journal
  refine ⟨s, t, by simp [run, step, hload], hreload, ?_⟩
  have hentries : dataEntries (pairLine zeroPair) = [zeroPair] := by
    have h := dataEntries_pairLine zeroPair []
    rwa [List.append_nil, dataEntries_nil] at h
  have hmem : zeroPair ∈ s.pairs := by
    rw [hpairs, hentries]
    exact .inl rfl
  have hnone : t.pairs = ∅ := by
    have h := dataEntries_opened ⟨[], by simp⟩ []
    rw [List.append_nil, dataEntries_nil] at h
    rw [ht, hjournal, h]
    rfl
  intro heq
  rw [← heq, hnone] at hmem
  exact hmem

section Pins
variable {p q : Key} {calls : List Call}

theorem checkAndAddImpl_mismatch (hs : Consistent s) (hp : p ∈ s.pairs)
    (hshares : q.1 = p.1 ∨ q.2 = p.2) (hne : q ≠ p) (doNotAdd : Bool) (failure : Option ℕ) :
    s.checkAndAddImpl q.1 q.2 doNotAdd false failure = some (s, .mismatch) := by
  obtain ⟨e, he, rfl⟩ := hp
  unfold State.checkAndAddImpl
  dsimp only
  cases hfind : htFind KeypinEnt.rsaId s.rsaMap ⟨0, q.1, q.2⟩ with
  | some x =>
    obtain ⟨hx, hrsa⟩ := htFind_some hfind
    have hdiffers : x.ed25519Key ≠ q.2 := by
      intro hed
      have hsame : x.pair = e.pair := hshares.elim
        (fun h => hs.isPairing.left _ ⟨x, hx, rfl⟩ _ ⟨e, he, rfl⟩ (hrsa.trans h))
        fun h => hs.isPairing.right _ ⟨x, hx, rfl⟩ _ ⟨e, he, rfl⟩ (hed.trans h)
      exact hne ((Prod.ext hrsa.symm hed.symm).trans hsame)
    simp [torAssert, hrsa, hdiffers]
  | none =>
    have hrsa : e.rsaId ≠ q.1 := htFind_none hfind e he
    have hed : e.ed25519Key = q.2 := (hshares.resolve_left hrsa.symm).symm
    have hfound : htFind KeypinEnt.ed25519Key s.edMap ⟨0, q.1, q.2⟩ = some e :=
      htFind_of_mem hs.ed25519Keys ((hs.same e).mp he) hed
    simp [torAssert, hfound, hrsa, hed]

/-- A call that neither replaces pins nor loads them. -/
def Call.KeepsPins : Call → Prop
  | .checkAndAdd _ _ replace _ => replace = false
  | .check .. => True
  | .loadJournal _ => False

theorem checkAndAddImpl_keeps {doNotAdd : Bool} {failure : Option ℕ} {r : State × KeypinStatus}
    (hs : Consistent s) (h : s.checkAndAddImpl q.1 q.2 doNotAdd false failure = some r) :
    Consistent r.1 ∧ s.pairs ⊆ r.1.pairs := by
  obtain ⟨s', status, written, hcall, hwritten, hdone⟩ :=
    checkAndAddImpl_spec hs q doNotAdd false failure
  cases hcall.symm.trans h
  refine ⟨hdone.consistent, fun p hp => ?_⟩
  by_cases hrefused : (q.1 = p.1 ∨ q.2 = p.2) ∧ q ≠ p
  · rw [checkAndAddImpl_mismatch hs hp hrefused.1 hrefused.2] at hcall
    cases hcall
    exact hp
  · rw [hdone.pairs]
    rcases hwritten with rfl | rfl
    · exact hp
    · by_cases heq : q = p
      · exact .inl heq.symm
      · exact .inr ⟨hp, fun h => hrefused ⟨.inl h.symm, heq⟩, fun h => hrefused ⟨.inr h.symm, heq⟩⟩

theorem step_keeps {call : Call} (hs : Consistent s) (hcall : call.KeepsPins)
    (h : step s call = some s') : Consistent s' ∧ s.pairs ⊆ s'.pairs := by
  cases call with
  | checkAndAdd rsaId ed25519Key replace failure =>
    obtain rfl : replace = false := hcall
    obtain ⟨r, hr, rfl⟩ := Option.map_eq_some_iff.mp h
    exact checkAndAddImpl_keeps (q := (rsaId, ed25519Key)) hs hr
  | check rsaId ed25519Key =>
    obtain ⟨r, hr, rfl⟩ := Option.map_eq_some_iff.mp h
    exact checkAndAddImpl_keeps (q := (rsaId, ed25519Key)) hs hr
  | loadJournal => exact hcall.elim

/-- As long as nothing is replaced or loaded, a pin stays, and what contradicts it is refused. -/
theorem pins_kept (hs : Consistent s) (hcalls : ∀ call ∈ calls, call.KeepsPins)
    (hrun : run step s calls = some s') :
    s.pairs ⊆ s'.pairs ∧ ∀ p ∈ s.pairs, ∀ q : Key, (q.1 = p.1 ∨ q.2 = p.2) → q ≠ p →
      ∀ failure, s'.checkAndAdd q.1 q.2 false failure = some (s', .mismatch) := by
  obtain ⟨hcons, hsub⟩ : Consistent s' ∧ s.pairs ⊆ s'.pairs := by
    apply run_invariant hrun ⟨hs, subset_rfl⟩
    intro t call hcall t' ht hstep
    obtain ⟨hcons, hsub⟩ := step_keeps ht.1 (hcalls call hcall) hstep
    exact ⟨hcons, ht.2.trans hsub⟩
  exact ⟨hsub, fun p hp q hshares hne => checkAndAddImpl_mismatch hcons (hsub hp) hshares hne false⟩

/-- One pin. -/
def pinned : State := { empty with
  rsaMap := [⟨0, zeroPair.1, zeroPair.2⟩]
  edMap := [⟨0, zeroPair.1, zeroPair.2⟩] }

theorem pins_kept_pinned :
    ∃ t, run step pinned [.checkAndAdd zeroPair.1 zeroPair.2 false none] = some t ∧
      pinned.pairs ⊆ t.pairs ∧ ∀ p ∈ pinned.pairs, ∀ q : Key, (q.1 = p.1 ∨ q.2 = p.2) → q ≠ p →
        ∀ failure, t.checkAndAdd q.1 q.2 false failure = some (t, .mismatch) := by
  have hs : Consistent pinned := ⟨fun e => Iff.rfl, List.nodup_singleton _, List.nodup_singleton _⟩
  obtain ⟨t, hrun, -⟩ := run_spec hs [.checkAndAdd zeroPair.1 zeroPair.2 false none]
  exact ⟨t, hrun, pins_kept hs (by simp [Call.KeepsPins]) hrun⟩

end Pins

end Runs

end TorDaemon.Keypin
