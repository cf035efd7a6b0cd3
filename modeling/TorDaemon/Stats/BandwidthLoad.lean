import TorDaemon.Stats.BandwidthHistory

/-! Bandwidth history that is loaded from a state file (`bwhist_load_state`). A division by zero
is `none`. -/
namespace TorDaemon.Stats
open Library.NetworkOrder SharedRandom

/-- The value of a text, and whether it is a number; what is not counts as zero. -/
def parseValue (text : Bytes) : ℕ × Bool :=
  match torParseUint64 text 0 (2 ^ 64 - 1) with
  | some v => (v, true)
  | none => (0, false)

/-- The seconds of one value, from `start` on. -/
def addSeconds (b : BwArray) (start : ℤ) (seconds curVal : ℕ) : BwArray :=
  (List.range seconds).foldl (fun b (i : ℕ) => addObs b (start + i) curVal) b

/-- What the loop over the values has come to. -/
structure Loading where
  retval : ℤ
  start : ℤ
  array : BwArray

/-- The maximum of a period: of the list, if it has one for each value, or else the average. -/
def loadMaximum (interval v : ℕ) (maxstr : Option Bytes) : Option (ℕ × Bool) :=
  match maxstr with
  | some text => some ((parseValue text).1 * numSecsRollingMeasure % 2 ^ 64, (parseValue text).2)
  | none =>
    if interval = 0 then none else some (v / interval * numSecsRollingMeasure % 2 ^ 64, true)

/-- `bwhist_load_bwhist_state_section`, for one of the values. -/
def loadValue (now : ℤ) (interval : ℕ) (l : Loading) (cp : Bytes) (maxstr : Option Bytes) :
    Option Loading :=
  let (v, ok) := parseValue cp
  (loadMaximum interval v maxstr).bind fun (mv, okMax) =>
    let l := { l with retval := if ok ∧ okMax then l.retval else -1 }
    if l.start < now then
      let actualIntervalLen := if l.start + interval > now then now - l.start else interval
      if actualIntervalLen = 0 then none
      else
        let seconds := actualIntervalLen.toNat
        some { l with
          start := l.start + actualIntervalLen
          array := { addSeconds l.array l.start seconds (v / seconds) with maxTotal := mv } }
    else some l

/-- The loop over the values. -/
def loadValues (now : ℤ) (interval : ℕ) (l : Loading) : List (Bytes × Option Bytes) → Option Loading
  | [] => some l
  | (cp, maxstr) :: values =>
    (loadValue now interval l cp maxstr).bind fun l => loadValues now interval l values

/-- The values with their maxima, where there are as many. -/
def Section.pairs (s : Section) (values : List Bytes) : List (Bytes × Option Bytes) :=
  match s.maxima with
  | some maxima =>
    if values.length = maxima.length then values.zip (maxima.map some)
    else values.map fun value => (value, none)
  | none => values.map fun value => (value, none)

/-- The observations are cleared after a load. -/
def clearObs (b : BwArray) : BwArray :=
  { b with obs := List.replicate numSecsRollingMeasure 0, totalObs := 0 }

/-- `bwhist_load_bwhist_state_section`. The length of the history is an int. -/
def bwhistLoadBwhistStateSection (now : ℤ) (b : BwArray) (s : Section) : Option (ℤ × BwArray) :=
  match s.values with
  | some values =>
    if now - (numSecsBwSumInterval * numTotals : ℕ) ≤ s.ends then
      let start := s.ends - (s.interval * values.length : ℤ).bmod (2 ^ 32)
      if now < start then some (0, b)
      else
        let b := { b with curObsTime := start, nextPeriod := start + numSecsBwSumInterval }
        (loadValues now s.interval ⟨0, start, b⟩ (s.pairs values)).map fun l =>
          (l.retval, clearObs l.array)
    else some (0, clearObs b)
  | none => some (0, clearObs b)

/-- The arrays, and their sections in a state file. -/
inductive ArrayName
  | write
  | read
  | writeIpv6
  | readIpv6
  | dirWrite
  | dirRead
  deriving DecidableEq

/-- `bwhist_load_state`, at the times that it takes for the sections and for the arrays that it
may make anew. -/
def bwhistLoadState (now fresh : ArrayName → ℤ) (arrays : ArrayName → BwArray)
    (state : ArrayName → Section) : Option (ℤ × (ArrayName → BwArray)) := do
  let load := fun name => bwhistLoadBwhistStateSection (now name) (arrays name) (state name)
  let w ← load .write
  let r ← load .read
  let w6 ← load .writeIpv6
  let r6 ← load .readIpv6
  let dw ← load .dirWrite
  let dr ← load .dirRead
  if w.1 < 0 ∨ r.1 < 0 ∨ w6.1 < 0 ∨ r6.1 < 0 ∨ dw.1 < 0 ∨ dr.1 < 0 then
    some (-1, fun name => bwArrayNew (fresh name))
  else
    some (0, fun
      | .write => w.2
      | .read => r.2
      | .writeIpv6 => w6.2
      | .readIpv6 => r6.2
      | .dirWrite => dw.2
      | .dirRead => dr.2)

/-! ### What a load does -/

/-- The bytes of the periods and of the current one. -/
def BwArray.inAll (b : BwArray) : ℕ := b.totals.sum + b.totalInPeriod

section Add
variable {b : BwArray}

theorem sum_set_le (l : List ℕ) (i v : ℕ) : (l.set i v).sum ≤ l.sum + v := by
  induction l generalizing i with
  | nil => simp
  | cons a l ih =>
    cases i with
    | zero =>
      rw [List.set_cons_zero, List.sum_cons, List.sum_cons]
      omega
    | succ i =>
      rw [List.set_cons_succ, List.sum_cons, List.sum_cons]
      have := ih i
      omega

section
variable (b : BwArray)

theorem advanceObs_curObsTime : (advanceObs b).curObsTime = b.curObsTime + 1 := by
  simp only [advanceObs]
  split <;> rfl

theorem advanceObs_inAll : (advanceObs b).inAll ≤ b.inAll := by
  simp only [advanceObs]
  split
  · exact sum_set_le ..
  · exact le_rfl

theorem iterate_advanceObs (k : ℕ) :
    (advanceObs^[k] b).curObsTime = b.curObsTime + k ∧ (advanceObs^[k] b).inAll ≤ b.inAll := by
  induction k with
  | zero => exact ⟨by simp, le_rfl⟩
  | succ k ih =>
    obtain ⟨htime, hall⟩ := ih
    rw [Function.iterate_succ_apply', advanceObs_curObsTime, htime]
    exact ⟨by push_cast; ring, (advanceObs_inAll _).trans hall⟩

/-- The loop stops at the second of the call. -/
theorem addObs_curObsTime (time : ℤ) (n : ℕ) :
    (addObs b time n).curObsTime = max b.curObsTime time := by
  rw [addObs]
  split
  · omega
  · have htime := (iterate_advanceObs b (time - b.curObsTime).toNat).1
    exact htime.trans (by omega)

theorem addObs_inAll (time : ℤ) (n : ℕ) : (addObs b time n).inAll ≤ b.inAll + n := by
  rw [addObs]
  split
  · omega
  · have hall := (iterate_advanceObs b (time - b.curObsTime).toNat).2
    unfold BwArray.inAll at *
    dsimp only
    omega

theorem addSeconds_spec (start : ℤ) (seconds curVal : ℕ) :
    (addSeconds b start seconds curVal).curObsTime ≤ max b.curObsTime (start + seconds) ∧
      (addSeconds b start seconds curVal).inAll ≤ b.inAll + seconds * curVal := by
  induction seconds with
  | zero => exact ⟨le_max_left .., by simp [addSeconds]⟩
  | succ seconds ih =>
    have hsucc : addSeconds b start (seconds + 1) curVal =
        addObs (addSeconds b start seconds curVal) (start + seconds) curVal := by
      rw [addSeconds, List.range_succ, List.foldl_append]
      rfl
    rw [hsucc, addObs_curObsTime]
    have hadd := addObs_inAll (addSeconds b start seconds curVal) (start + seconds) curVal
    have hmul := Nat.add_one_mul seconds curVal
    constructor
    · push_cast
      omega
    · omega

end

end Add

section Load
variable {now : ℤ} {interval : ℕ} {l : Loading} {b : BwArray} {s : Section}

/-- A value, or its maximum, is not a number. -/
def Unparsable (value : Bytes × Option Bytes) : Prop :=
  (parseValue value.1).2 = false ∨ ∃ text ∈ value.2, (parseValue text).2 = false

instance : DecidablePred Unparsable := fun _ => inferInstanceAs (Decidable (_ ∨ _))

/-- What is loaded is not after the present. -/
structure Loading.Past (now : ℤ) (l : Loading) : Prop where
  start_le : l.start ≤ now
  time_le : l.array.curObsTime ≤ now

section
variable (hinterval : 0 < interval)
include hinterval

theorem loadMaximum_spec (v : ℕ) (maxstr : Option Bytes) :
    ∃ mv okMax, loadMaximum interval v maxstr = some (mv, okMax) ∧
      (okMax = false ↔ ∃ text ∈ maxstr, (parseValue text).2 = false) := by
  cases maxstr with
  | none => exact ⟨_, true, if_neg hinterval.ne', by simp⟩
  | some text => exact ⟨_, (parseValue text).2, rfl, by simp⟩

theorem loadValue_spec (hpast : l.Past now) (value : Bytes × Option Bytes) :
    ∃ l', loadValue now interval l value.1 value.2 = some l' ∧ l'.Past now ∧
      l'.array.inAll ≤ l.array.inAll + (parseValue value.1).1 ∧
      (Unparsable value → l'.retval = -1) ∧ (¬Unparsable value → l'.retval = l.retval) := by
  obtain ⟨mv, okMax, hmaximum, hokMax⟩ :=
    loadMaximum_spec hinterval (parseValue value.1).1 value.2
  have hunparsable : Unparsable value ↔ ¬((parseValue value.1).2 = true ∧ okMax = true) := by
    rw [Unparsable, ← hokMax, not_and_or, Bool.not_eq_true, Bool.not_eq_true]
  simp only [loadValue, hmaximum, Option.bind_some]
  split
  · rename_i hlt
    generalize hlen : (if l.start + interval > now then now - l.start else (interval : ℤ)) = len
    have hlen' : 0 < len ∧ l.start + len ≤ now := by
      split at hlen <;> omega
    obtain ⟨htime, hall⟩ := addSeconds_spec l.array l.start len.toNat
      ((parseValue value.1).1 / len.toNat)
    have hmul := Nat.mul_div_le (parseValue value.1).1 len.toNat
    have hcur := hpast.time_le
    rw [if_neg (by omega)]
    refine ⟨_, rfl, ⟨hlen'.2, htime.trans ?_⟩, hall.trans (by omega), fun h => ?_, fun h => ?_⟩
    · omega
    · exact if_neg (hunparsable.mp h)
    · exact if_pos (not_not.mp (hunparsable.not.mp h))
  · refine ⟨_, rfl, ⟨hpast.start_le, hpast.time_le⟩, Nat.le_add_right .., fun h => ?_, fun h => ?_⟩
    · exact if_neg (hunparsable.mp h)
    · exact if_pos (not_not.mp (hunparsable.not.mp h))

/-- The values add no more than their sum, and one that is not a number is an error. -/
theorem loadValues_spec (hpast : l.Past now) (values : List (Bytes × Option Bytes)) :
    ∃ l', loadValues now interval l values = some l' ∧ l'.Past now ∧
      l'.array.inAll ≤ l.array.inAll + (values.map fun value => (parseValue value.1).1).sum ∧
      ((∃ value ∈ values, Unparsable value) → l'.retval = -1) ∧
      ((∀ value ∈ values, ¬Unparsable value) → l'.retval = l.retval) := by
  induction values generalizing l with
  | nil => exact ⟨l, rfl, hpast, le_rfl, by simp, fun _ => rfl⟩
  | cons value values ih =>
    obtain ⟨l', hload, hpast', hall, hbad, hgood⟩ := loadValue_spec hinterval hpast value
    obtain ⟨l'', hloads, hpast'', hall', hbad', hgood'⟩ := ih hpast'
    refine ⟨l'', ?_, hpast'', ?_, ?_, ?_⟩
    · rw [loadValues, hload]
      exact hloads
    · rw [List.map_cons, List.sum_cons]
      omega
    · rintro ⟨value', hvalue', hunparsable⟩
      by_cases hrest : ∃ value ∈ values, Unparsable value
      · exact hbad' hrest
      · rcases List.mem_cons.mp hvalue' with rfl | hin
        · rw [hgood' fun value hvalue h => hrest ⟨value, hvalue, h⟩]
          exact hbad hunparsable
        · exact absurd ⟨value', hin, hunparsable⟩ hrest
    · intro h
      obtain ⟨hvalue, hvalues⟩ := List.forall_mem_cons.mp h
      rw [hgood' hvalues, hgood hvalue]

end

/-- The values of a section, as numbers. -/
def Section.parsed (s : Section) : List ℕ :=
  (s.values.getD []).map fun value => (parseValue value).1

/-- The first second of a section. -/
def Section.start (s : Section) : ℤ :=
  s.ends - (s.interval * (s.values.getD []).length : ℤ).bmod (2 ^ 32)

/-- A section that is not too old, and does not begin in the future. -/
def Section.Examined (now : ℤ) (s : Section) : Prop :=
  now - (numSecsBwSumInterval * numTotals : ℕ) ≤ s.ends ∧ s.start ≤ now

/-- A section with a value or maximum that is not a number. -/
def Section.Malformed (s : Section) : Prop :=
  ∃ value ∈ s.pairs (s.values.getD []), Unparsable value

instance (now : ℤ) (s : Section) : Decidable (s.Examined now) := inferInstanceAs (Decidable (_ ∧ _))

instance (s : Section) : Decidable s.Malformed :=
  inferInstanceAs (Decidable (∃ value ∈ s.pairs (s.values.getD []), Unparsable value))

theorem pairs_fst (s : Section) (values : List Bytes) : (s.pairs values).map Prod.fst = values := by
  unfold Section.pairs
  have hplain : (values.map fun value => (value, (none : Option Bytes))).map Prod.fst = values := by
    rw [List.map_map]
    exact List.map_id values
  cases s.maxima with
  | none => exact hplain
  | some maxima =>
    dsimp only
    split
    · rename_i hlen
      exact List.map_fst_zip (by rw [List.length_map, hlen])
    · exact hplain

/-- What is meant by a section that has been loaded. -/
structure SectionRight (now : ℤ) (b : BwArray) (s : Section) (ret : ℤ) (b' : BwArray) : Prop where
  time : b'.curObsTime = b.curObsTime ∨ b'.curObsTime ≤ now
  totals : b'.totals.sum ≤ b.inAll + s.parsed.sum
  error : s.Examined now → s.Malformed → ret = -1
  success : ¬(s.Examined now ∧ s.Malformed) → ret = 0

theorem notLoaded_right (h : ¬(s.Examined now ∧ s.Malformed)) {b' : BwArray}
    (htime : b'.curObsTime = b.curObsTime) (htotals : b'.totals = b.totals) :
    SectionRight now b s 0 b' := by
  refine ⟨.inl htime, ?_, fun hexamined hmalformed => absurd ⟨hexamined, hmalformed⟩ h,
    fun _ => rfl⟩
  rw [htotals, BwArray.inAll]
  omega

theorem loadSection_right (now : ℤ) (b : BwArray) (hinterval : 0 < s.interval) :
    ∃ ret b', bwhistLoadBwhistStateSection now b s = some (ret, b') ∧
      SectionRight now b s ret b' := by
  unfold bwhistLoadBwhistStateSection
  cases hvalues : s.values with
  | none =>
    refine ⟨_, _, rfl, notLoaded_right ?_ rfl rfl⟩
    rintro ⟨-, value, hvalue, -⟩
    rw [hvalues] at hvalue
    have hmem := List.mem_map_of_mem (f := Prod.fst) hvalue
    rw [pairs_fst] at hmem
    cases hmem
  | some values =>
    have hstart : s.start = s.ends - (s.interval * values.length : ℤ).bmod (2 ^ 32) := by
      rw [Section.start, hvalues, Option.getD_some]
    simp only [← hstart]
    split
    · rename_i hold
      split
      · rename_i hfuture
        exact ⟨_, _, rfl, notLoaded_right (fun h => absurd h.1.2 (not_le.mpr hfuture)) rfl rfl⟩
      · rename_i hpast
        have hbegin : (Loading.mk 0 s.start
            { b with
              curObsTime := s.start
              nextPeriod := s.start + numSecsBwSumInterval }).Past now :=
          ⟨not_lt.mp hpast, not_lt.mp hpast⟩
        obtain ⟨l, hload, hlpast, hall, hbad, hgood⟩ :=
          loadValues_spec hinterval hbegin (s.pairs values)
        refine ⟨_, _, congrArg (Option.map _) hload, .inr hlpast.time_le, ?_, ?_, ?_⟩
        · have hparsed : (s.pairs values).map (fun value => (parseValue value.1).1) = s.parsed := by
            rw [Section.parsed, hvalues, Option.getD_some, ← pairs_fst s values, List.map_map,
              pairs_fst]
            rfl
          rw [hparsed] at hall
          exact (Nat.le_add_right ..).trans hall
        · rintro - ⟨value, hvalue, hunparsable⟩
          rw [hvalues] at hvalue
          exact hbad ⟨value, hvalue, hunparsable⟩
        · intro h
          refine hgood fun value hvalue hunparsable => h ⟨⟨hold, not_lt.mp hpast⟩, value, ?_,
            hunparsable⟩
          rw [hvalues]
          exact hvalue
    · rename_i hold
      exact ⟨_, _, rfl, notLoaded_right (fun h => hold h.1.1) rfl rfl⟩

end Load

section State
variable {now fresh created : ArrayName → ℤ} {arrays : ArrayName → BwArray}
  {state : ArrayName → Section} {loaded : ArrayName → BwArray}

/-- What is meant by a state that has been loaded into new arrays. -/
structure StateRight (now fresh created : ArrayName → ℤ) (state : ArrayName → Section)
    (out : Option (ℤ × (ArrayName → BwArray))) : Prop where
  sections : ∀ name, ∃ ret b,
    bwhistLoadBwhistStateSection (now name) (bwArrayNew (created name)) (state name) =
      some (ret, b) ∧
    (b.curObsTime = created name ∨ b.curObsTime ≤ now name) ∧
    b.totals.sum ≤ (state name).parsed.sum
  error : (∃ name, (state name).Examined (now name) ∧ (state name).Malformed) →
    out = some (-1, fun name => bwArrayNew (fresh name))
  success : (∀ name, ¬((state name).Examined (now name) ∧ (state name).Malformed)) →
    ∃ arrays, out = some (0, arrays) ∧ ∀ name,
      bwhistLoadBwhistStateSection (now name) (bwArrayNew (created name)) (state name) =
        some (0, arrays name)

theorem loadState_error {ret : ArrayName → ℤ} {name : ArrayName}
    (h : ∀ name, bwhistLoadBwhistStateSection (now name) (arrays name) (state name) =
      some (ret name, loaded name)) (hret : ret name < 0) :
    bwhistLoadState now fresh arrays state = some (-1, fun name => bwArrayNew (fresh name)) := by
  simp only [bwhistLoadState, h, Option.bind_eq_bind, Option.bind_some]
  exact if_pos (by cases name <;> simp [hret])

theorem loadState_success {ret : ArrayName → ℤ}
    (h : ∀ name, bwhistLoadBwhistStateSection (now name) (arrays name) (state name) =
      some (ret name, loaded name)) (hret : ∀ name, ret name = 0) :
    bwhistLoadState now fresh arrays state = some (0, loaded) := by
  have hloaded : (fun
      | .write => loaded .write
      | .read => loaded .read
      | .writeIpv6 => loaded .writeIpv6
      | .readIpv6 => loaded .readIpv6
      | .dirWrite => loaded .dirWrite
      | .dirRead => loaded .dirRead : ArrayName → BwArray) = loaded := by
    funext name
    cases name <;> rfl
  simp only [bwhistLoadState, h, Option.bind_eq_bind, Option.bind_some, hloaded]
  exact if_neg (by simp [hret])

/-- Every state with positive intervals is loaded, and a value that is not a number in a section
that is examined leaves all of the arrays new. -/
theorem bwhistLoadState_right (now fresh created : ArrayName → ℤ) (state : ArrayName → Section)
    (hinterval : ∀ name, 0 < (state name).interval) : StateRight now fresh created state
      (bwhistLoadState now fresh (fun name => bwArrayNew (created name)) state) := by
  have hsections := fun name =>
    loadSection_right (now name) (bwArrayNew (created name)) (hinterval name)
  choose ret loaded hload hright using hsections
  have hnew (name : ArrayName) : (bwArrayNew (created name)).inAll = 0 := rfl
  constructor
  · intro name
    have htotals := (hright name).totals
    rw [hnew, Nat.zero_add] at htotals
    exact ⟨ret name, loaded name, hload name, (hright name).time, htotals⟩
  · rintro ⟨name, hexamined, hmalformed⟩
    exact loadState_error hload (((hright name).error hexamined hmalformed).trans_lt (by decide))
  · intro h
    have hzero (name : ArrayName) : ret name = 0 := (hright name).success (h name)
    exact ⟨loaded, loadState_success hload hzero, fun name => by rw [hload, hzero]⟩

/-- Two values of a day each, with their maxima. -/
def twoDays (second : Bytes) : Section :=
  ⟨some [ascii "30", second], some [ascii "1", ascii "2"], 172800, 86400, by decide⟩

/-- What is in the sections is loaded, unless one of the values is not a number. -/
theorem bwhistLoadState_right_unparsable :
    (∃ arrays, bwhistLoadState (fun _ => 172800) (fun _ => 0) (fun _ => bwArrayNew 0)
        (fun _ => twoDays (ascii "60")) = some (0, arrays) ∧ (arrays .write).totals.sum ≤ 90) ∧
      bwhistLoadState (fun _ => 172800) (fun _ => 0) (fun _ => bwArrayNew 0)
        (fun name => twoDays (if name = .read then ascii "x" else ascii "60")) =
          some (-1, fun _ => bwArrayNew 0) := by
  have hloads (state : ArrayName → Section) (h : ∀ name, 0 < (state name).interval) :=
    bwhistLoadState_right (fun _ => 172800) (fun _ => 0) (fun _ => 0) state h
  have hright := hloads (fun _ => twoDays (ascii "60")) fun _ => by decide
  constructor
  · have hnumbers : ¬(twoDays (ascii "60")).Malformed := by decide +kernel
    obtain ⟨arrays, hrun, hloaded⟩ := hright.success fun _ h => hnumbers h.2
    obtain ⟨ret, b, hsection, -, htotals⟩ := hright.sections .write
    cases hsection.symm.trans (hloaded .write)
    exact ⟨arrays, hrun, htotals.trans (by decide +kernel)⟩
  · have hexamined : (twoDays (ascii "x")).Examined 172800 := by decide +kernel
    have hmalformed : (twoDays (ascii "x")).Malformed := by decide +kernel
    exact (hloads _ fun _ => Nat.succ_pos _).error ⟨.read, hexamined, hmalformed⟩

/-- A section with a value that is not a number, of a long time ago. -/
def oldSection : Section := ⟨some [ascii "x"], some [], 0, 900, clientInterval_lt⟩

/-- A section that is too old is not examined. -/
theorem bwhistLoadState_old : ¬∀ (now fresh created : ArrayName → ℤ) (state : ArrayName → Section),
      (∃ name, ∃ value ∈ (state name).values.getD [], (parseValue value).2 = false) →
      bwhistLoadState now fresh (fun name => bwArrayNew (created name)) state =
        some (-1, fun name => bwArrayNew (fresh name)) := by
  intro h
  have hload := h (fun _ => 1000000) (fun _ => 0) (fun _ => 0) (fun _ => oldSection)
    ⟨.write, ascii "x", List.mem_cons_self, by decide⟩
  have hret := congrArg (Option.map Prod.fst) hload
  exact absurd hret (by decide)

end State

end TorDaemon.Stats
