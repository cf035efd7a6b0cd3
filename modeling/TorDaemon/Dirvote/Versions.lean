import TorDaemon.Library.Tally
import TorDaemon.SharedRandom.DiskRoundTrip

/-! Version strings (`versions.c`), and the comparison that they are sorted with. Different
strings may be the same version. -/
namespace TorDaemon.Dirvote
open Library.NetworkOrder Library.Tally SharedRandom

section Parse

inductive VersionStatus
  | pre
  | rc
  | release
  deriving DecidableEq

/-- The value in the structure. -/
def VersionStatus.toUInt32 : VersionStatus → UInt32
  | .pre => 0
  | .rc => 1
  | .release => 2

/-- `tor_version_t`, whose numbers are compared as unsigned ones. -/
structure TorVersion where
  major : UInt32
  minor : UInt32
  micro : UInt32 := 0
  status : VersionStatus := .release
  patchlevel : UInt32 := 0
  statusTag : Bytes := []
  svnRevision : UInt32 := 0
  gitTag : Bytes := []

/-- What `find_whitespace` stops at. -/
def isWhitespace (c : UInt8) : Bool := c = 32 ∨ c = 9 ∨ c = 10 ∨ c = 13

/-- `eat_whitespace`, inside or outside of a comment, which goes on to the end of its line. -/
def eatWhitespace (comment : Bool) : Bytes → Bytes
  | [] => []
  | c :: s =>
    if comment then eatWhitespace (c ≠ 10) s
    else if isWhitespace c then eatWhitespace false s
    else if c = 35 then eatWhitespace true s
    else c :: s

/-- `strtol` in base 10: the number, unless there is none, and what follows it. -/
def strtol (s : Bytes) : Option (ℤ × Bytes) :=
  let s := s.dropWhile isSpace
  let negative := s.head? = some 45
  let s := if s.head? = some 45 ∨ s.head? = some 43 then s.tail else s
  let v : ℤ := decimal (s.takeWhile isDigit)
  if s.takeWhile isDigit = [] then none
  else some (if negative then -v else v, s.dropWhile isDigit)

/-- `tor_parse_long` in base 10, with what follows the number. -/
def torParseLongNext (s : Bytes) (min max : ℤ) : Option (ℤ × Bytes) :=
  (strtol s).filter fun r => min ≤ r.1 ∧ r.1 ≤ max

/-- The same without `next`, where nothing may follow. -/
def torParseLong (s : Bytes) (min max : ℤ) : Option ℤ :=
  ((torParseLongNext s min max).filter fun r => r.2 = []).map Prod.fst

theorem torParseLong_range {s : Bytes} {min max v : ℤ} (h : torParseLong s min max = some v) :
    min ≤ v ∧ v ≤ max := by
  obtain ⟨r, hr, rfl⟩ := Option.map_eq_some_iff.mp h
  have hrange := (Option.filter_eq_some_iff.mp (Option.filter_eq_some_iff.mp hr).1).2
  simpa using hrange

def int32Max : ℤ := 2 ^ 31 - 1

/-- A value of a `long`, cast to an `int`. -/
def strtolInt (s : Bytes) : UInt32 :=
  match strtol s with
  | none => 0
  | some (v, _) => UInt32.ofInt (max (-2 ^ 63) (min (2 ^ 63 - 1) v))

/-- `NUMBER` in `tor_version_parse`. -/
def versionNumber (cp : Bytes) : Option (UInt32 × Bytes) :=
  let n := decimal (cp.takeWhile isDigit)
  if cp.takeWhile isDigit = [] ∨ int32Max < n then none
  else some (UInt32.ofNat n, cp.dropWhile isDigit)

/-- `DOT`. -/
def versionDot : Bytes → Option Bytes
  | 46 :: cp => some cp
  | _ => none

/-- The revision in parentheses after the status tag. -/
def revisionTag (out : TorVersion) (cp : Bytes) : Option TorVersion :=
  if ascii "(r" <+: cp then some { out with svnRevision := strtolInt (cp.drop 2) }
  else if ascii "(git-" <+: cp then
    if 41 ∈ cp then do
      let hex := (cp.drop 5).takeWhile (· ≠ 41)
      if 40 < hex.length ∨ hex = [] ∨ hex.length % 2 = 1 then none
      let digest ← base16Decode (hex.length / 2) hex
      return { out with gitTag := digest }
    else none
  else some out

/-- From the label `status_tag` on. -/
def statusTag (out : TorVersion) (cp : Bytes) : Option TorVersion :=
  let cp := if cp.head? = some 45 ∨ cp.head? = some 46 then cp.tail else cp
  let tag := cp.takeWhile fun c => !isWhitespace c && c ≠ 35
  revisionTag { out with statusTag := tag.take 31 } (eatWhitespace false (cp.drop tag.length))

/-- What follows the third number. -/
def versionStatus (out : TorVersion) : Bytes → Option TorVersion
  | [] => some out
  | 45 :: cp => statusTag out (45 :: cp)
  | cp => do
    let (status, cp) ←
      if cp.head? = some 46 then some (.release, cp.tail)
      else if ascii "pre" <+: cp then some (.pre, cp.drop 3)
      else if ascii "rc" <+: cp then some (.rc, cp.drop 2)
      else none
    let (patchlevel, cp) ← versionNumber cp
    statusTag { out with status := status, patchlevel := patchlevel } cp

def torVersionParse (s : Bytes) : Option TorVersion := do
  let cp := if strcaseeq (s.take 4) (ascii "Tor ") then s.drop 4 else s
  let (major, cp) ← versionNumber cp
  let cp ← versionDot cp
  let (minor, cp) ← versionNumber cp
  let out : TorVersion := { major := major, minor := minor }
  match cp with
  | [] => some out
  | 45 :: cp => statusTag out (45 :: cp)
  | cp => do
    let cp ← versionDot cp
    let (micro, cp) ← versionNumber cp
    versionStatus { out with micro := micro } cp

end Parse

section Compare

/-- `CMP` in `tor_version_compare`: the sign of a difference that may have wrapped around. -/
def compareField (a b : UInt32) : Ordering :=
  if 2 ^ 31 ≤ (a - b).toNat then .lt else if a = b then .eq else .gt

def torVersionCompare (a b : TorVersion) : Ordering :=
  compareField a.major b.major |>.then <| compareField a.minor b.minor |>.then <|
  compareField a.micro b.micro |>.then <|
  compareField a.status.toUInt32 b.status.toUInt32 |>.then <|
  compareField a.patchlevel b.patchlevel |>.then <| compare a.statusTag b.statusTag |>.then <|
  compareField a.svnRevision b.svnRevision |>.then <|
  compare a.gitTag.length b.gitTag.length |>.then <| compare a.gitTag b.gitTag

/-- `compare_tor_version_str_ptr_`. -/
def compareTorVersionStr (a b : Bytes) : Ordering :=
  match torVersionParse a, torVersionParse b with
  | some va, some vb => torVersionCompare va vb
  | some _, none => .lt
  | none, some _ => .gt
  | none, none => compare a b

example : compareTorVersionStr (ascii "0.4.9.1-alpha") (ascii "0.4.9.2") = .lt := by decide

end Compare

section Methods

/-- `cmp_int_strings_`: what is no positive integer counts as zero. -/
def intString (s : Bytes) : ℤ := (torParseLong s 1 int32Max).getD 0

def cmpIntStrings (a b : Bytes) : Ordering :=
  (compare (intString a) (intString b)).then (if intString a = 0 then compare a b else .eq)

end Methods

/-! Whether the comparison of versions is an order (`versions.c`), and what is sorted and looked up
with it. -/

section VersionOrder
variable {a b v out mine : TorVersion} {cp : Bytes} {versions : List Bytes} {x y r : UInt32}

section Model

def sortVersionList (q : Sorter compareTorVersionStr) (removeDuplicates : Bool)
    (versions : List Bytes) : List Bytes :=
  if removeDuplicates then uniq compareTorVersionStr (q.sort versions) else q.sort versions

/-- `version_status_t`. -/
inductive ObsoleteStatus
  | recommended
  | old
  | new
  | newInSeries
  | unrecommended
  | empty
  deriving DecidableEq

/-- What has been found in the list of versions. -/
structure Found where
  newer : Bool := false
  older : Bool := false
  newerInSeries : Bool := false
  anyInSeries : Bool := false

def torVersionSameSeries (a b : TorVersion) : Bool :=
  a.major = b.major ∧ a.minor = b.minor ∧ a.micro = b.micro

/-- The loop of `tor_version_is_obsolete`; `none` where the version itself is found. -/
def obsoleteLoop (mine : TorVersion) (found : Found) : List Bytes → Option Found
  | [] => some found
  | cp :: versions =>
    match torVersionParse (if ascii "Tor " <+: cp then cp.drop 4 else cp) with
    | none => obsoleteLoop mine found versions
    | some other =>
      let same := torVersionSameSeries mine other
      match torVersionCompare mine other with
      | .eq => none
      | .lt => obsoleteLoop mine { found with
          anyInSeries := found.anyInSeries || same
          newer := true
          newerInSeries := found.newerInSeries || same } versions
      | .gt => obsoleteLoop mine { found with
          anyInSeries := found.anyInSeries || same
          older := true } versions

/-- `smartlist_split_string` at commas, with `SPLIT_SKIP_SPACE`. -/
def splitVersionList (versionlist : Bytes) : List Bytes := (versionlist.splitOn 44).map trim

/-- `none` where the daemon's own version cannot be parsed. -/
def torVersionIsObsolete (myversion versionlist : Bytes) : Option ObsoleteStatus :=
  (torVersionParse myversion).map fun mine =>
    if versionlist = [] then .empty
    else
      match obsoleteLoop mine {} (splitVersionList versionlist) with
      | none => .recommended
      | some found =>
        if found.anyInSeries ∧ ¬ found.newerInSeries ∧ found.newer then .newInSeries
        else if found.newer ∧ ¬ found.older then .old
        else if found.older ∧ ¬ found.newer then .new
        else .unrecommended

end Model

section Ordered

/-- The fields that are compared before the revision. -/
def TorVersion.release (v : TorVersion) : UInt32 × UInt32 × UInt32 × VersionStatus × UInt32 × Bytes :=
  (v.major, v.minor, v.micro, v.status, v.patchlevel, v.statusTag)

/-- What the callers of the comparison rely on. -/
structure VersionsOrdered (versions : List Bytes) : Prop where
  preorder : Consistent torVersionCompare (versions.filterMap torVersionParse)
  perm : ∀ q : Sorter compareTorVersionStr, (sortVersionList q false versions).Perm versions
  sorted : ∀ (q : Sorter compareTorVersionStr) (removeDuplicates : Bool),
    (sortVersionList q removeDuplicates versions).Pairwise fun a b => (compareTorVersionStr a b).isLE
  obsolete : ∀ (mine : Bytes) (versions' : List Bytes), versions.Perm versions' →
    torVersionIsObsolete mine ([44].intercalate versions) =
      torVersionIsObsolete mine ([44].intercalate versions')

/-- The revisions of versions that are otherwise the same are within half the range of an `int` from
one of them on. -/
def HalfRange (versions : List Bytes) : Prop :=
  ∀ release, ∃ r : UInt32, ∀ v ∈ versions.filterMap torVersionParse, v.release = release →
    (v.svnRevision - r).toNat < 2 ^ 31

end Ordered

section Fields

theorem compareField_eq_lt : compareField x y = .lt ↔ 2 ^ 31 ≤ (x - y).toNat := by
  unfold compareField
  by_cases h : 2 ^ 31 ≤ (x - y).toNat
  · rw [if_pos h]
    exact iff_of_true rfl h
  · rw [if_neg h]
    refine iff_of_false ?_ h
    split <;> simp

theorem compareField_eq_eq : compareField x y = .eq ↔ x = y := by
  unfold compareField
  by_cases h : 2 ^ 31 ≤ (x - y).toNat
  · rw [if_pos h]
    refine iff_of_false (by simp) ?_
    rintro rfl
    simp at h
  · rw [if_neg h]
    split <;> simp_all

/-- Within half the range the wrapped difference has the sign of the true one. -/
theorem compareField_eq_compare (hx : (x - r).toNat < 2 ^ 31) (hy : (y - r).toNat < 2 ^ 31) :
    compareField x y = compare (x - r).toNat (y - r).toNat := by
  have hsub : (x - y).toNat = (2 ^ 32 - (y - r).toNat + (x - r).toNat) % 2 ^ 32 := by
    simp only [UInt32.toNat_sub]
    have := y.toNat_lt
    omega
  have heq : (x - r).toNat = (y - r).toNat ↔ x = y := by
    rw [UInt32.toNat_inj, ← UInt32.toNat_inj, ← UInt32.toNat_inj, UInt32.toNat_sub,
      UInt32.toNat_sub]
    have := x.toNat_lt
    have := y.toNat_lt
    omega
  unfold compareField
  rcases lt_trichotomy (x - r).toNat (y - r).toNat with h | h | h
  · rw [if_pos (by omega), Nat.compare_eq_lt.mpr h]
  · rw [if_neg (by omega), if_pos (heq.mp h), Nat.compare_eq_eq.mpr h]
  · rw [if_neg (by omega), if_neg fun hxy => h.ne' (heq.mpr hxy), Nat.compare_eq_gt.mpr h]

/-- Numbers as `tor_version_parse` takes them. -/
structure TorVersion.Numbered (v : TorVersion) : Prop where
  major_lt : v.major.toNat < 2 ^ 31
  minor_lt : v.minor.toNat < 2 ^ 31
  micro_lt : v.micro.toNat < 2 ^ 31
  patchlevel_lt : v.patchlevel.toNat < 2 ^ 31

theorem versionNumber_lt {rest : Bytes} (h : versionNumber cp = some (x, rest)) :
    x.toNat < 2 ^ 31 := by
  simp only [versionNumber] at h
  split at h
  · cases h
  case isFalse hnot =>
    obtain ⟨-, hmax⟩ := not_or.mp hnot
    obtain ⟨rfl, -⟩ := Prod.mk.inj (Option.some.inj h)
    unfold int32Max at hmax
    rw [UInt32.toNat_ofNat']
    omega

section
variable (hout : out.Numbered)
include hout

theorem revisionTag_numbered (h : revisionTag out cp = some v) : v.Numbered := by
  obtain ⟨hmajor, hminor, hmicro, hpatch⟩ := hout
  unfold revisionTag at h
  split at h
  · cases h
    exact ⟨hmajor, hminor, hmicro, hpatch⟩
  split at h
  · split at h
    · simp only [Option.bind_eq_bind, Option.pure_def] at h
      split at h
      · cases h
      · obtain ⟨digest, -, h⟩ := Option.bind_eq_some_iff.mp h
        cases h
        exact ⟨hmajor, hminor, hmicro, hpatch⟩
    · cases h
  · cases h
    exact ⟨hmajor, hminor, hmicro, hpatch⟩

theorem statusTag_numbered (h : statusTag out cp = some v) : v.Numbered := by
  obtain ⟨hmajor, hminor, hmicro, hpatch⟩ := hout
  refine revisionTag_numbered ?_ h
  exact ⟨hmajor, hminor, hmicro, hpatch⟩

theorem versionStatus_numbered (h : versionStatus out cp = some v) : v.Numbered := by
  obtain ⟨hmajor, hminor, hmicro, hpatch⟩ := hout
  have hrest : ∀ (status : VersionStatus) (cp : Bytes),
      ((versionNumber cp).bind fun (patchlevel, cp) =>
        statusTag { out with status := status, patchlevel := patchlevel } cp) = some v →
      v.Numbered := by
    intro status cp h
    obtain ⟨⟨patchlevel, rest⟩, hnumber, h⟩ := Option.bind_eq_some_iff.mp h
    refine statusTag_numbered ?_ h
    exact ⟨hmajor, hminor, hmicro, versionNumber_lt hnumber⟩
  unfold versionStatus at h
  split at h
  · cases h
    exact ⟨hmajor, hminor, hmicro, hpatch⟩
  · refine statusTag_numbered ?_ h
    exact ⟨hmajor, hminor, hmicro, hpatch⟩
  · simp only [Option.bind_eq_bind] at h
    split at h
    · exact hrest _ _ h
    split at h
    · exact hrest _ _ h
    split at h
    · exact hrest _ _ h
    · cases h

end

theorem torVersionParse_numbered {s : Bytes} (h : torVersionParse s = some v) : v.Numbered := by
  have hzero : (0 : UInt32).toNat < 2 ^ 31 := by decide
  obtain ⟨⟨major, cp₁⟩, hmajor, h⟩ := Option.bind_eq_some_iff.mp h
  obtain ⟨cp₂, -, h⟩ := Option.bind_eq_some_iff.mp h
  obtain ⟨⟨minor, cp₃⟩, hminor, h⟩ := Option.bind_eq_some_iff.mp h
  have hmajorLt := versionNumber_lt hmajor
  have hminorLt := versionNumber_lt hminor
  dsimp only at h
  split at h
  · cases h
    exact ⟨hmajorLt, hminorLt, hzero, hzero⟩
  · refine statusTag_numbered ?_ h
    exact ⟨hmajorLt, hminorLt, hzero, hzero⟩
  · obtain ⟨cp₄, -, h⟩ := Option.bind_eq_some_iff.mp h
    obtain ⟨⟨micro, cp₅⟩, hmicro, h⟩ := Option.bind_eq_some_iff.mp h
    refine versionStatus_numbered ?_ h
    exact ⟨hmajorLt, hminorLt, versionNumber_lt hmicro, hzero⟩

end Fields

section Order

/-- The order of the versions, where revisions are counted from `base` on. -/
def versionOrder (base : UInt32 × UInt32 × UInt32 × VersionStatus × UInt32 × Bytes → UInt32) :
    TorVersion → TorVersion → Ordering :=
  compareLex (compareOn fun v => v.major.toNat) <| compareLex (compareOn fun v => v.minor.toNat) <|
  compareLex (compareOn fun v => v.micro.toNat) <|
  compareLex (compareOn fun v => v.status.toUInt32.toNat) <|
  compareLex (compareOn fun v => v.patchlevel.toNat) <| compareLex (compareOn (·.statusTag)) <|
  compareLex (compareOn fun v => (v.svnRevision - base v.release).toNat) <|
  compareLex (compareOn fun v => v.gitTag.length) (compareOn (·.gitTag))

instance (base) : Std.TransCmp (versionOrder base) := by
  unfold versionOrder
  infer_instance

theorem then_congr {o o' p p' : Ordering} (h : o = o') (h' : o = .eq → p = p') :
    o.then p = o'.then p' := by
  subst h
  cases o with
  | lt => rfl
  | gt => rfl
  | eq => exact h' rfl

theorem compareField_number (hx : x.toNat < 2 ^ 31) (hy : y.toNat < 2 ^ 31) :
    compareField x y = compare x.toNat y.toNat := by
  have h := compareField_eq_compare (r := 0) (by simpa using hx) (by simpa using hy)
  simpa using h

theorem torVersionCompare_eq {base} (ha : a.Numbered) (hb : b.Numbered)
    (hra : (a.svnRevision - base a.release).toNat < 2 ^ 31)
    (hrb : (b.svnRevision - base b.release).toNat < 2 ^ 31) :
    torVersionCompare a b = versionOrder base a b := by
  have hstatus : ∀ s : VersionStatus, s.toUInt32.toNat < 2 ^ 31 := by
    intro s
    cases s <;> decide
  refine then_congr (compareField_number ha.major_lt hb.major_lt) fun hmajor => ?_
  refine then_congr (compareField_number ha.minor_lt hb.minor_lt) fun hminor => ?_
  refine then_congr (compareField_number ha.micro_lt hb.micro_lt) fun hmicro => ?_
  refine then_congr (compareField_number (hstatus _) (hstatus _)) fun hst => ?_
  refine then_congr (compareField_number ha.patchlevel_lt hb.patchlevel_lt) fun hpatch => ?_
  refine then_congr rfl fun htag => ?_
  have hrelease : a.release = b.release := by
    have hstatusEq : a.status = b.status := by
      have h := compareField_eq_eq.mp hst
      cases ha : a.status <;> cases hb : b.status <;> simp_all [VersionStatus.toUInt32]
    simp only [TorVersion.release, Prod.mk.injEq]
    exact ⟨compareField_eq_eq.mp hmajor, compareField_eq_eq.mp hminor, compareField_eq_eq.mp hmicro,
      hstatusEq, compareField_eq_eq.mp hpatch, Std.LawfulEqOrd.eq_of_compare htag⟩
  rw [← hrelease] at hrb
  refine then_congr ?_ fun _ => rfl
  rw [compareField_eq_compare hra hrb, compareOn, hrelease]

end Order

section Preorder

/-- The list has such a base for each release. -/
theorem consistent_of_halfRange (h : HalfRange versions) :
    Consistent torVersionCompare (versions.filterMap torVersionParse) := by
  choose base hbase using h
  have hnumbered : ∀ v ∈ versions.filterMap torVersionParse, v.Numbered := by
    intro v hv
    obtain ⟨s, -, hs⟩ := List.mem_filterMap.mp hv
    exact torVersionParse_numbered hs
  have heq : ∀ a ∈ versions.filterMap torVersionParse, ∀ b ∈ versions.filterMap torVersionParse,
      torVersionCompare a b = versionOrder base a b := fun a ha b hb =>
    torVersionCompare_eq (hnumbered a ha) (hnumbered b hb) (hbase _ a ha rfl) (hbase _ b hb rfl)
  constructor
  · intro a ha b hb
    rw [heq a ha b hb, heq b hb a ha]
    exact Std.OrientedCmp.eq_swap
  · intro a ha b hb c hc
    rw [heq a ha b hb, heq b hb c hc, heq a ha c hc]
    exact Std.TransCmp.isLE_trans

theorem torVersionCompare_of_release (h : a.release = b.release) :
    torVersionCompare a b = (compareField a.svnRevision b.svnRevision).then
      ((compare a.gitTag.length b.gitTag.length).then (compare a.gitTag b.gitTag)) := by
  simp only [TorVersion.release, Prod.mk.injEq] at h
  obtain ⟨hmajor, hminor, hmicro, hstatus, hpatch, htag⟩ := h
  have hself : ∀ x, compareField x x = .eq := fun x => compareField_eq_eq.mpr rfl
  have htagSelf : compare b.statusTag b.statusTag = .eq := Std.ReflOrd.compare_self
  rw [torVersionCompare, hmajor, hminor, hmicro, hstatus, hpatch, htag, hself, hself, hself, hself,
    hself, htagSelf]
  rfl

theorem halfRange_of_consistent
    (h : Consistent torVersionCompare (versions.filterMap torVersionParse)) : HalfRange versions := by
  intro release
  let group := (versions.filterMap torVersionParse).filter fun v => v.release = release
  have hgroup : Consistent torVersionCompare group :=
    h.of_subset fun v hv => List.mem_of_mem_filter hv
  have hsorted := (stableSorter torVersionCompare).sorted group hgroup
  have hperm := (stableSorter torVersionCompare).perm group
  cases hsort : (stableSorter torVersionCompare).sort group with
  | nil =>
    refine ⟨0, fun v hv hrelease => ?_⟩
    have hmem : v ∈ group := List.mem_filter.mpr ⟨hv, by simpa using hrelease⟩
    rw [← hperm.mem_iff, hsort] at hmem
    simp at hmem
  | cons least rest =>
    refine ⟨least.svnRevision, fun v hv hrelease => ?_⟩
    have hmem : v ∈ group := List.mem_filter.mpr ⟨hv, by simpa using hrelease⟩
    have hleast : least ∈ group := by
      rw [← hperm.mem_iff, hsort]
      exact .head _
    have hsame : least.release = v.release := by
      have hl := (List.mem_filter.mp hleast).2
      rw [hrelease]
      simpa using hl
    have hle : (torVersionCompare least v).isLE := by
      rw [hsort] at hsorted
      rw [← hperm.mem_iff, hsort] at hmem
      rcases List.mem_cons.mp hmem with rfl | hmem
      · have hswap := hgroup.swap v hleast v hleast
        cases hcmp : torVersionCompare v v <;> simp [hcmp] at hswap ⊢
      · exact (List.pairwise_cons.mp hsorted).1 v hmem
    have hswap := hgroup.swap least hleast v hmem
    rw [torVersionCompare_of_release hsame] at hle hswap
    rw [torVersionCompare_of_release hsame.symm] at hswap
    by_contra hfar
    rw [compareField_eq_lt.mpr (not_lt.mp hfar)] at hswap
    cases hcmp : (compareField least.svnRevision v.svnRevision).then
      ((compare least.gitTag.length v.gitTag.length).then (compare least.gitTag v.gitTag)) with
    | gt => simp [hcmp] at hle
    | lt => simp [hcmp] at hswap
    | eq => simp [hcmp] at hswap

end Preorder

section Strings

/-- Strings that are no versions come after those that are, in their own order. -/
theorem consistent_str (h : Consistent torVersionCompare (versions.filterMap torVersionParse)) :
    Consistent compareTorVersionStr versions := by
  have hmem : ∀ s ∈ versions, ∀ v, torVersionParse s = some v →
      v ∈ versions.filterMap torVersionParse :=
    fun s hs v hv => List.mem_filterMap.mpr ⟨s, hs, hv⟩
  unfold compareTorVersionStr
  constructor
  · intro s hs s' hs'
    cases hv : torVersionParse s <;> cases hv' : torVersionParse s'
    · exact Std.OrientedCmp.eq_swap
    · rfl
    · rfl
    · exact h.swap _ (hmem s hs _ hv) _ (hmem s' hs' _ hv')
  · intro s hs s' hs' s'' hs'' h₁ h₂
    cases hv : torVersionParse s with
    | none =>
      cases hv' : torVersionParse s' with
      | none =>
        cases hv'' : torVersionParse s'' with
        | none =>
          simp only [hv, hv', hv''] at h₁ h₂ ⊢
          exact Std.TransOrd.isLE_trans h₁ h₂
        | some v'' => simp [hv', hv''] at h₂
      | some v' => simp [hv, hv'] at h₁
    | some v =>
      cases hv'' : torVersionParse s'' with
      | none => rfl
      | some v'' =>
        cases hv' : torVersionParse s' with
        | none => simp [hv', hv''] at h₂
        | some v' =>
          simp only [hv, hv', hv''] at h₁ h₂ ⊢
          exact h.trans _ (hmem s hs _ hv) _ (hmem s' hs' _ hv') _ (hmem s'' hs'' _ hv'') h₁ h₂

theorem sortVersionList_sorted (h : Consistent compareTorVersionStr versions)
    (q : Sorter compareTorVersionStr) (removeDuplicates : Bool) :
    (sortVersionList q removeDuplicates versions).Pairwise
      fun a b => (compareTorVersionStr a b).isLE := by
  unfold sortVersionList
  split
  · exact (q.sorted versions h).sublist (uniq_sublist _)
  · exact q.sorted versions h

end Strings

section Obsolete

/-- The entries of the list may be met in any order. -/
theorem obsoleteLoop_perm {entries entries' : List Bytes} (hperm : entries.Perm entries')
    (found : Found) : obsoleteLoop mine found entries = obsoleteLoop mine found entries' := by
  induction hperm generalizing found with
  | nil => rfl
  | cons s _ ih => simp only [obsoleteLoop, ih]
  | swap s s' l =>
    simp only [obsoleteLoop]
    generalize torVersionParse (if ascii "Tor " <+: s then s.drop 4 else s) = p
    generalize torVersionParse (if ascii "Tor " <+: s' then s'.drop 4 else s') = p'
    cases p with
    | none => rfl
    | some v =>
      cases p' with
      | none => rfl
      | some v' =>
        cases hcmp : torVersionCompare mine v <;> cases hcmp' : torVersionCompare mine v' <;>
          simp [hcmp, hcmp', Bool.or_right_comm]
  | trans _ _ ih₁ ih₂ => exact (ih₁ found).trans (ih₂ found)

theorem splitVersionList_join {entries : List Bytes} (h : entries ≠ []) :
    splitVersionList ([44].intercalate entries) = entries.flatMap splitVersionList := by
  induction entries with
  | nil => exact absurd rfl h
  | cons s entries ih =>
    cases entries with
    | nil => simp [List.intercalate]
    | cons s' l =>
      rw [List.intercalate_cons_cons, List.append_assoc, List.singleton_append, List.flatMap_cons, ← ih (List.cons_ne_nil s' l), splitVersionList,
        List.splitOn_append_cons_self, List.map_append]
      rfl

theorem intercalate_eq_nil_iff {entries : List Bytes} :
    [44].intercalate entries = [] ↔ entries = [] ∨ entries = [[]] := by
  cases entries with
  | nil => simp [List.intercalate]
  | cons s entries =>
    cases entries with
    | nil => simp [List.intercalate]
    | cons s' l =>
      simp

/-- The verdict on a version does not depend on the order of the list, whatever the revisions. -/
theorem torVersionIsObsolete_perm {versions' : List Bytes} (mine : Bytes)
    (hperm : versions.Perm versions') : torVersionIsObsolete mine ([44].intercalate versions) =
      torVersionIsObsolete mine ([44].intercalate versions') := by
  by_cases hnil : versions = []
  · subst hnil
    rw [hperm.nil_eq]
  have hnil' : versions' ≠ [] := by
    rintro rfl
    exact hnil hperm.eq_nil
  have hempty : [44].intercalate versions = [] ↔ [44].intercalate versions' = [] := by
    rw [intercalate_eq_nil_iff, intercalate_eq_nil_iff, or_iff_right hnil, or_iff_right hnil']
    constructor
    · rintro rfl
      exact List.singleton_perm.mp hperm |>.symm
    · rintro rfl
      exact List.perm_singleton.mp hperm
  unfold torVersionIsObsolete
  congr 1
  funext v
  rw [splitVersionList_join hnil, splitVersionList_join hnil',
    obsoleteLoop_perm (hperm.flatMap_right _)]
  simp only [hempty]

end Obsolete

section Main

/-- The versions are in an order if and only if the revisions of each release are in half a
range. -/
theorem versionsOrdered_iff (versions : List Bytes) :
    VersionsOrdered versions ↔ HalfRange versions := by
  constructor
  · intro h
    exact halfRange_of_consistent h.preorder
  · intro h
    have hpreorder := consistent_of_halfRange h
    have hstr := consistent_str hpreorder
    exact ⟨hpreorder, fun q => q.perm versions, sortVersionList_sorted hstr,
      fun mine _ => torVersionIsObsolete_perm mine⟩

/-- Two revisions of one release, half a range apart. -/
def farRevisions : List Bytes := [ascii "0.4.9.11 (r0)", ascii "0.4.9.11 (r2147483648)"]

theorem farRevisions_not_ordered : ¬ ∀ versions, VersionsOrdered versions := by
  intro h
  obtain ⟨hswap, -⟩ := (h farRevisions).preorder
  have hparse : (torVersionParse (ascii "0.4.9.11 (r0)")).isSome := by decide +kernel
  have hparse' : (torVersionParse (ascii "0.4.9.11 (r2147483648)")).isSome := by decide +kernel
  obtain ⟨v, hv⟩ := Option.isSome_iff_exists.mp hparse
  obtain ⟨v', hv'⟩ := Option.isSome_iff_exists.mp hparse'
  have hcmp : compareTorVersionStr (ascii "0.4.9.11 (r0)") (ascii "0.4.9.11 (r2147483648)") = .lt := by
    decide +kernel
  have hcmp' : compareTorVersionStr (ascii "0.4.9.11 (r2147483648)") (ascii "0.4.9.11 (r0)") = .lt := by
    decide +kernel
  simp only [compareTorVersionStr, hv, hv'] at hcmp hcmp'
  have heq := hswap v (List.mem_filterMap.mpr ⟨_, .head _, hv⟩) v'
    (List.mem_filterMap.mpr ⟨_, .tail _ (.head _), hv'⟩)
  rw [hcmp, hcmp'] at heq
  simp at heq

end Main

end VersionOrder

end TorDaemon.Dirvote
