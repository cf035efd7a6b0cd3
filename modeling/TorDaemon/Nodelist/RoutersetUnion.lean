import TorDaemon.Dirparse.PolicyParse

/-! The text of a set of relays, and the union of two sets, which parses that text into another
set. The patterns of both are one list then, of which the first that settles about a relay is
followed, so that an "accept" of the first set hides patterns of the second. -/
namespace TorDaemon.Nodelist
open Library Library.NetworkOrder Policies SharedRandom

/-! ### Patterns -/

section Patterns
variable {addr : TorAddr} {port : ℕ} {policy policy' : List AddrPolicy}

/-- A pattern puts an end to the lookup of an address and a port. With one of them unknown a
pattern that may accept is enough, but one that rejects must do so for certain. -/
def Settles (e : AddrPolicy) (x : TorAddr × ℕ) : Prop :=
  if x.1.isNull = true then
    e.CoversPort x.2 ∧ (e.policyType = .accept ∨ e.maskbits = 0)
  else if x.2 = 0 then
    e.CoversAddr x.1 ∧ (e.policyType = .accept ∨ e.prtMin ≤ 1 ∧ 65535 ≤ e.prtMax)
  else e.Covers x

instance (e : AddrPolicy) (x : TorAddr × ℕ) : Decidable (Settles e x) :=
  inferInstanceAs (Decidable (ite _ _ _))

/-- The type of the first pattern that settles. -/
def settled (policy : List AddrPolicy) (x : TorAddr × ℕ) : Option PolicyType :=
  DecisionList.decision Settles (fun e => some e.policyType) none x policy

theorem settled_nil (x : TorAddr × ℕ) : settled [] x = none := rfl

theorem settled_cons (e : AddrPolicy) (policy : List AddrPolicy) (x : TorAddr × ℕ) :
    settled (e :: policy) x = if Settles e x then some e.policyType else settled policy x := rfl

theorem settled_append (policy policy' : List AddrPolicy) (x : TorAddr × ℕ) :
    settled (policy ++ policy') x = (settled policy x).or (settled policy' x) := by
  induction policy with
  | nil => rfl
  | cons e policy ih =>
    rw [List.cons_append, settled_cons, settled_cons, ih]
    split <;> rfl

/-- A lookup that remembers the patterns that may match, and ends at one that matches for
certain. -/
structure Scans (covers certain : AddrPolicy → Prop) [DecidablePred covers] [DecidablePred certain]
    (loop : Bool → Bool → List AddrPolicy → AddrPolicyResult) : Prop where
  nil : ∀ accept reject, loop accept reject [] = defaultMatch reject
  cons : ∀ accept reject e policy, loop accept reject (e :: policy) =
    if covers e then
      if certain e then definiteMatch accept reject e.policyType
      else match e.policyType with
        | .reject => loop accept true policy
        | .accept => loop true reject policy
    else loop accept reject policy

theorem noportLoop_scans (addr : TorAddr) : Scans
    (fun e => torAddrCompareMasked addr e.addr e.maskbits = 0)
    (fun e => e.prtMin ≤ 1 ∧ e.prtMax ≥ 65535) (noportLoop addr) :=
  ⟨fun _ _ => rfl, fun _ _ _ _ => rfl⟩

theorem unknownLoop_scans (port : ℕ) : Scans (fun e => e.prtMin ≤ port ∧ port ≤ e.prtMax)
    (fun e => e.maskbits = 0) (unknownLoop port) :=
  ⟨fun _ _ => rfl, fun _ _ _ _ => rfl⟩

section Scans
variable {covers certain : AddrPolicy → Prop} [DecidablePred covers] [DecidablePred certain]
  {loop : Bool → Bool → List AddrPolicy → AddrPolicyResult}

/-- Nothing is rejected for certain behind a pattern that may accept. -/
theorem Scans.doubt (h : Scans covers certain loop) (reject : Bool) (policy : List AddrPolicy) :
    loop true reject policy ≠ .rejected := by
  induction policy generalizing reject with
  | nil => cases reject <;> simp [h.nil, defaultMatch]
  | cons e policy ih =>
    rw [h.cons]
    split
    · split
      · cases e.policyType <;> cases reject <;> simp [definiteMatch]
      · cases e.policyType
        · exact ih reject
        · exact ih true
    · exact ih reject

theorem Scans.rejected (h : Scans covers certain loop) (x : TorAddr × ℕ)
    (hsettles : ∀ e, Settles e x ↔ covers e ∧ (e.policyType = .accept ∨ certain e))
    (reject : Bool) (policy : List AddrPolicy) :
    loop false reject policy = .rejected ↔ settled policy x = some .reject := by
  induction policy generalizing reject with
  | nil => cases reject <;> simp [h.nil, defaultMatch, settled_nil]
  | cons e policy ih =>
    rw [h.cons, settled_cons]
    by_cases hcovers : covers e
    · rw [if_pos hcovers]
      by_cases hcertain : certain e
      · rw [if_pos hcertain, if_pos ((hsettles e).mpr ⟨hcovers, .inr hcertain⟩)]
        cases e.policyType <;> cases reject <;> simp [definiteMatch]
      · rw [if_neg hcertain]
        cases htype : e.policyType with
        | accept =>
          rw [if_pos ((hsettles e).mpr ⟨hcovers, .inl htype⟩)]
          simp [h.doubt]
        | reject =>
          rw [if_neg fun hs => ((hsettles e).mp hs).2.elim (by simp [htype]) hcertain]
          exact ih true
    · rw [if_neg hcovers, if_neg fun hs => hcovers ((hsettles e).mp hs).1]
      exact ih reject

end Scans

theorem compareKnown_rejected (hnull : addr.isNull = false) (hport : port ≠ 0)
    (policy : List AddrPolicy) : compareKnownTorAddrToAddrPolicy addr port policy = .rejected ↔
      settled policy (addr, port) = some .reject := by
  induction policy with
  | nil => simp [compareKnownTorAddrToAddrPolicy, settled_nil]
  | cons e policy ih =>
    have hsettles : Settles e (addr, port) ↔ e.CoversAddr addr ∧ e.CoversPort port := by
      simp [Settles, hnull, hport, AddrPolicy.Covers]
    rw [compareKnownTorAddrToAddrPolicy, settled_cons]
    by_cases haddr : e.CoversAddr addr
    · have hcovers := torAddrCompareMasked_eq_zero.mpr haddr
      rw [if_pos hcovers]
      by_cases hcport : port ≥ e.prtMin ∧ port ≤ e.prtMax
      · rw [if_pos hcport, if_pos (hsettles.mpr ⟨haddr, hcport⟩)]
        cases e.policyType <;> simp [PolicyType.result]
      · rw [if_neg hcport, if_neg fun h => hcport (hsettles.mp h).2]
        exact ih
    · have hcovers := mt torAddrCompareMasked_eq_zero.mp haddr
      rw [if_neg hcovers, if_neg fun h => haddr (hsettles.mp h).1]
      exact ih

/-- Nothing at all is known, so that every policy rejects. -/
def Unknown (x : TorAddr × ℕ) : Prop := x.1.isNull = true ∧ x.2 = 0

theorem compare_rejected (addr : TorAddr) (port : ℕ) (policy : List AddrPolicy) :
    compareTorAddrToAddrPolicy (some addr) port (some policy) = .rejected ↔
      Unknown (addr, port) ∨ settled policy (addr, port) = some .reject := by
  rw [compareTorAddrToAddrPolicy]
  cases hnull : addr.isNull with
  | true =>
    have hfilter : (some addr).filter (fun addr => !addr.isNull) = none := by
      rw [Option.filter_some, hnull]
      rfl
    by_cases hport : port = 0
    · simp [hfilter, hnull, hport, Unknown]
    · have hunknown := (unknownLoop_scans port).rejected (addr, port)
        (by simp [Settles, hnull, AddrPolicy.CoversPort]) false policy
      simpa [hfilter, hnull, hport, Unknown, compareUnknownTorAddrToAddrPolicy] using hunknown
  | false =>
    have hfilter : (some addr).filter (fun addr => !addr.isNull) = some addr := by
      rw [Option.filter_some, hnull]
      rfl
    by_cases hport : port = 0
    · subst hport
      simpa [hfilter, hnull, Unknown, compareKnownTorAddrToAddrPolicyNoport] using
        (noportLoop_scans addr).rejected (addr, 0)
          (by simp [Settles, hnull, torAddrCompareMasked_eq_zero, AddrPolicy.CoversAddr]) false policy
    · simpa [hfilter, hnull, hport, Unknown] using compareKnown_rejected hnull hport policy

end Patterns

/-! ### Entries -/

section Entries
variable {geoip : Geoip} {parseItem : ParseItem} {nick s : Bytes} {words : List Bytes}
  {target : Routerset}

/-- What an entry of a list is. -/
inductive Entry
  | digest (digests : List Bytes)
  | name (name : Bytes)
  | country (countryname : Bytes)
  | pattern (p : Pattern)
  | dropped (malformed : Bool)

def Entry.of (parseItem : ParseItem) (nick : Bytes) : Entry :=
  if isLegalHexdigest nick then .digest (base16Decode 20 (withoutDollar nick)).toList
  else if isLegalNickname nick then .name (nick.map toLower)
  else
    match routersetGetCountryname nick with
    | some countryname => .country countryname
    | none =>
      if 46 ∈ nick ∨ 58 ∈ nick ∨ 42 ∈ nick then
        match parseItem nick with
        | (some p, _) => .pattern p
        | (none, malformed) => .dropped malformed
      else .dropped true

def Entry.digests : Entry → List Bytes
  | .digest digests => digests
  | _ => []

def Entry.names : Entry → List Bytes
  | .name n => [n]
  | _ => []

def Entry.countryNames : Entry → List Bytes
  | .country countryname => [countryname]
  | _ => []

def Entry.patterns : Entry → List Pattern
  | .pattern p => [p]
  | _ => []

def Entry.isKept : Entry → Bool
  | .dropped _ => false
  | _ => true

def Entry.isMalformed : Entry → Bool
  | .dropped malformed => malformed
  | _ => false

/-- The words in the order in which the loop comes to them. -/
def visited (parseItem : ParseItem) : ℕ → List Bytes → List Bytes
  | turns + 1, nick :: rest =>
    nick :: visited parseItem turns
      (if (Entry.of parseItem nick).isKept then rest else delCurrent rest)
  | _, _ => []

/-- The entries of a text, in that order. -/
def entriesOf (parseItem : ParseItem) (s : Bytes) : List Bytes :=
  visited parseItem (splitAtCommas s).length (splitAtCommas s)

theorem delCurrent_perm (rest : List Bytes) : (delCurrent rest).Perm rest := by
  cases rest using List.reverseRecOn with
  | nil => exact .nil
  | append_singleton rest last =>
    rw [delCurrent, List.getLast?_concat, List.dropLast_concat]
    exact (List.perm_append_singleton last rest).symm

/-- The loop comes to each word once. -/
theorem visited_perm (parseItem : ParseItem) (words : List Bytes) :
    (visited parseItem words.length words).Perm words := by
  generalize hturns : words.length = turns
  induction turns generalizing words with
  | zero =>
    rw [List.length_eq_zero_iff.mp hturns]
    exact .nil
  | succ turns ih =>
    cases words with
    | nil => cases hturns
    | cons nick rest =>
      have hlength := Nat.succ.inj hturns
      rw [visited]
      refine .cons nick ?_
      split
      · exact ih rest hlength
      · have hperm := delCurrent_perm rest
        exact (ih (delCurrent rest) (hperm.length_eq.trans hlength)).trans hperm

theorem visited_of_kept {words : List Bytes}
    (h : ∀ w ∈ words, (Entry.of parseItem w).isKept = true) :
    visited parseItem words.length words = words := by
  induction words with
  | nil => rfl
  | cons nick rest ih =>
    rw [List.length_cons, visited, if_pos (h nick List.mem_cons_self),
      ih fun w hw => h w (List.mem_cons_of_mem _ hw)]

/-- The set with what the words are, in the order of the words. -/
def Routerset.with (parseItem : ParseItem) (target : Routerset) (words : List Bytes) : Routerset :=
  { target with
    list := target.list ++ words.filter fun w => (Entry.of parseItem w).isKept
    names := target.names ++ words.flatMap fun w => (Entry.of parseItem w).names
    digests := target.digests ++ words.flatMap fun w => (Entry.of parseItem w).digests
    policies := target.policies ++ words.flatMap fun w => (Entry.of parseItem w).patterns
    countryNames := target.countryNames ++ words.flatMap fun w => (Entry.of parseItem w).countryNames }

section
variable (target : Routerset)

theorem with_cons (nick : Bytes) (words : List Bytes) :
    (target.with parseItem [nick]).with parseItem words =
      target.with parseItem (nick :: words) := by
  simp only [Routerset.with, List.append_assoc, Routerset.mk.injEq, List.flatMap_cons,
    List.flatMap_nil, List.append_nil, and_true]
  cases hkept : (Entry.of parseItem nick).isKept <;> simp [hkept]

theorem routersetParseEntry_eq (r : ℤ) (addedCountries : Bool) (nick : Bytes) (rest : List Bytes) :
    routersetParseEntry parseItem (target, r, addedCountries) nick rest =
      ((target.with parseItem [nick], if (Entry.of parseItem nick).isMalformed then -1 else r,
        addedCountries || (Entry.of parseItem nick).countryNames ≠ []),
        if (Entry.of parseItem nick).isKept then rest else delCurrent rest) := by
  unfold routersetParseEntry Routerset.with Entry.of
  by_cases hhex : isLegalHexdigest nick = true
  · simp [hhex, Entry.isKept, Entry.names, Entry.digests, Entry.patterns, Entry.countryNames,
      Entry.isMalformed]
  by_cases hname : isLegalNickname nick = true
  · simp [hhex, hname, Entry.isKept, Entry.names, Entry.digests, Entry.patterns,
      Entry.countryNames, Entry.isMalformed]
  cases hcountry : routersetGetCountryname nick with
  | some countryname =>
    simp [hhex, hname, hcountry, Entry.isKept, Entry.names, Entry.digests, Entry.patterns,
      Entry.countryNames, Entry.isMalformed]
  | none =>
    by_cases hpattern : 46 ∈ nick ∨ 58 ∈ nick ∨ 42 ∈ nick
    · rcases hitem : parseItem nick with ⟨item, malformed⟩
      cases item <;> cases malformed <;>
        simp [hhex, hname, hcountry, hpattern, hitem, Entry.isKept, Entry.names, Entry.digests,
          Entry.patterns, Entry.countryNames, Entry.isMalformed]
    · simp [hhex, hname, hcountry, hpattern, Entry.isKept, Entry.names, Entry.digests,
        Entry.patterns, Entry.countryNames, Entry.isMalformed]

theorem routersetParseLoop_eq (turns : ℕ) (r : ℤ) (addedCountries : Bool) (words : List Bytes) :
    routersetParseLoop parseItem turns (target, r, addedCountries) words =
      (target.with parseItem (visited parseItem turns words),
        if (visited parseItem turns words).any fun w => (Entry.of parseItem w).isMalformed then -1
        else r,
        addedCountries ||
          (visited parseItem turns words).any fun w => (Entry.of parseItem w).countryNames ≠ []) := by
  induction turns generalizing target r addedCountries words with
  | zero => simp [routersetParseLoop, visited, Routerset.with]
  | succ turns ih =>
    cases words with
    | nil => simp [routersetParseLoop, visited, Routerset.with]
    | cons nick rest =>
      rw [routersetParseLoop, visited, routersetParseEntry_eq]
      dsimp only
      rw [ih, with_cons]
      cases hmalformed : (Entry.of parseItem nick).isMalformed <;> simp [hmalformed, Bool.or_assoc]

theorem policyExpandUnspec_self {policies : List Pattern}
    (h : ∀ p ∈ policies, ¬(p.policy.addr.family = .unspec ∧ ¬p.isPrivate)) :
    policyExpandUnspec policies = policies := by
  induction policies with
  | nil => rfl
  | cons p policies ih =>
    have hrest := ih fun p hp => h p (List.mem_cons_of_mem _ hp)
    rw [policyExpandUnspec] at hrest ⊢
    rw [List.flatMap_cons, if_neg (h p List.mem_cons_self), hrest, List.singleton_append]

theorem policyExpandUnspec_again (policies : List Pattern) :
    policyExpandUnspec (policyExpandUnspec policies) = policyExpandUnspec policies := by
  refine policyExpandUnspec_self fun p hp => ?_
  obtain ⟨p', -, hp⟩ := List.mem_flatMap.mp hp
  split at hp
  · rintro ⟨hfamily, -⟩
    rcases List.mem_pair.mp hp with rfl | rfl <;> cases hfamily
  · rename_i hno
    rwa [List.mem_singleton.mp hp]

def hasCountry (parseItem : ParseItem) (words : List Bytes) : Bool :=
  words.any fun w => (Entry.of parseItem w).countryNames ≠ []

def hasMalformed (parseItem : ParseItem) (words : List Bytes) : Bool :=
  words.any fun w => (Entry.of parseItem w).isMalformed

/-- A set whose patterns are expanded. -/
def Routerset.expanded (set : Routerset) : Routerset :=
  { set with policies := policyExpandUnspec set.policies }

theorem routersetParse_eq (s : Bytes) : routersetParse geoip parseItem target s =
      (if hasCountry parseItem (entriesOf parseItem s) then
          routersetRefreshCountries geoip (target.with parseItem (entriesOf parseItem s)).expanded
        else (target.with parseItem (entriesOf parseItem s)).expanded,
        if hasMalformed parseItem (entriesOf parseItem s) then -1 else 0) := by
  rw [routersetParse, routersetParseLoop_eq]
  rfl

/-- The words that are kept in the list of a set. -/
def kept (parseItem : ParseItem) (words : List Bytes) : List Bytes :=
  words.filter fun w => (Entry.of parseItem w).isKept

theorem flatMap_kept {f : Entry → List α} (h : ∀ malformed, f (.dropped malformed) = [])
    (words : List Bytes) : (kept parseItem words).flatMap (fun w => f (Entry.of parseItem w)) =
      words.flatMap fun w => f (Entry.of parseItem w) := by
  induction words with
  | nil => rfl
  | cons w words ih =>
    rw [kept, List.flatMap_cons]
    cases hentry : Entry.of parseItem w with
    | dropped malformed =>
      rw [List.filter_cons_of_neg (by simp [hentry, Entry.isKept]), h, List.nil_append]
      exact ih
    | _ =>
      rw [List.filter_cons_of_pos (by simp [hentry, Entry.isKept]), List.flatMap_cons, hentry]
      exact congrArg _ ih

theorem with_kept (words : List Bytes) :
    target.with parseItem (kept parseItem words) = target.with parseItem words := by
  have hkept : kept parseItem (kept parseItem words) = kept parseItem words := by
    simp [kept, List.filter_filter]
  have hlist : ((kept parseItem words).filter fun w => (Entry.of parseItem w).isKept) =
      words.filter fun w => (Entry.of parseItem w).isKept := hkept
  rw [Routerset.with, hlist, flatMap_kept (f := Entry.names) fun _ => rfl,
    flatMap_kept (f := Entry.digests) fun _ => rfl, flatMap_kept (f := Entry.patterns) fun _ => rfl,
    flatMap_kept (f := Entry.countryNames) fun _ => rfl]
  rfl

end

theorem hasCountry_iff : hasCountry parseItem words = true ↔
    (words.flatMap fun w => (Entry.of parseItem w).countryNames) ≠ [] := by
  simp [hasCountry]

theorem hasCountry_kept (words : List Bytes) :
    hasCountry parseItem (kept parseItem words) = hasCountry parseItem words := by
  rw [Bool.eq_iff_iff, hasCountry_iff, hasCountry_iff,
    flatMap_kept (f := Entry.countryNames) fun _ => rfl]

theorem hasMalformed_kept (words : List Bytes) :
    hasMalformed parseItem (kept parseItem words) = false := by
  rw [hasMalformed, List.any_eq_false]
  intro w hw
  have hkept := (List.mem_filter.mp hw).2
  cases hentry : Entry.of parseItem w <;> simp [hentry, Entry.isKept, Entry.isMalformed] at hkept ⊢

/-- What is split off at commas. -/
structure IsEntry (w : Bytes) : Prop where
  nonempty : w ≠ []
  plain : 44 ∉ w
  trimmed : trim w = w

theorem isEntry_of_mem (h : nick ∈ splitAtCommas s) : IsEntry nick := by
  obtain ⟨hmem, hne⟩ := List.mem_filter.mp h
  obtain ⟨u, hu, rfl⟩ := List.mem_map.mp hmem
  exact ⟨by simpa using hne, fun hcomma => not_mem_splitOn hu ((trim_sublist u).mem hcomma),
    trim_trim u⟩

theorem splitAtCommas_intercalate (h : ∀ w ∈ words, IsEntry w) :
    splitAtCommas ([44].intercalate words) = words := by
  by_cases hne : words = []
  · subst hne
    rfl
  · rw [splitAtCommas, List.splitOn_intercalate 44 (fun w hw => (h w hw).plain) hne]
    have htrim : words.map trim = words :=
      (List.map_congr_left fun w hw => (h w hw).trimmed).trans (List.map_id' _)
    rw [htrim, List.filter_eq_self]
    intro w hw
    simpa using (h w hw).nonempty

theorem list_parse (s : Bytes) : (routersetParse geoip parseItem routersetNew s).1.list =
    kept parseItem (entriesOf parseItem s) := by
  rw [routersetParse_eq]
  split <;> rfl

/-- The text of a set has the entries that were kept, in their places. -/
theorem entriesOf_toString (s : Bytes) :
    entriesOf parseItem (routersetToString (some (routersetParse geoip parseItem routersetNew s).1)) =
      kept parseItem (entriesOf parseItem s) := by
  have hwords : splitAtCommas
      (routersetToString (some (routersetParse geoip parseItem routersetNew s).1)) =
        kept parseItem (entriesOf parseItem s) := by
    rw [routersetToString, list_parse]
    exact splitAtCommas_intercalate fun w hw =>
      isEntry_of_mem ((visited_perm parseItem _).mem_iff.mp (List.mem_filter.mp hw).1)
  rw [entriesOf, hwords]
  exact visited_of_kept fun w hw => (List.mem_filter.mp hw).2

theorem routersetParse_toString (target : Routerset) (s : Bytes) :
    routersetParse geoip parseItem target
        (routersetToString (some (routersetParse geoip parseItem routersetNew s).1)) =
      ((routersetParse geoip parseItem target s).1, 0) := by
  rw [routersetParse_eq, entriesOf_toString, with_kept, hasCountry_kept, hasMalformed_kept,
    if_neg Bool.false_ne_true, routersetParse_eq]

end Entries

/-! ### Members -/

section Members
variable {geoip : Geoip} {parseItem : ParseItem} {set a b : Routerset}

/-- What is known of a relay that is asked for. -/
structure Asked where
  addr : TorAddr
  orport : ℕ
  second : Option (TorAddr × ℕ)
  nickname : Bytes
  idDigest : Bytes
  country : ℤ

def Asked.addresses (q : Asked) : List (TorAddr × ℕ) := (q.addr, q.orport) :: q.second.toList

section
variable (geoip : Geoip)

/-- The country of a relay, which is looked up if it is not given. -/
def Asked.countryCode (q : Asked) : ℤ :=
  if q.country < 0 then geoip.getCountryByAddr q.addr else q.country

def Contains (set : Routerset) (q : Asked) : Prop :=
  routersetContains2 geoip (some set) q.addr q.orport q.second q.nickname q.idDigest q.country ≠ 0

/-- A set names a relay, or its identity or its country. -/
def Listed (set : Routerset) (q : Asked) : Prop :=
  q.nickname.map toLower ∈ set.names ∨ q.idDigest ∈ set.digests ∨
    ∃ countries ∈ set.countries, 0 ≤ q.countryCode geoip ∧
      countries[(q.countryCode geoip).toNat]? = some true

theorem contains_iff (set : Routerset) (q : Asked) : Contains geoip set q ↔
      Listed geoip set q ∨ ∃ x ∈ q.addresses, rejects set x.1 x.2 = true := by
  obtain ⟨addr, orport, second, nickname, idDigest, country⟩ := q
  unfold Contains Listed routersetContains2
  dsimp only [Asked.addresses, Asked.countryCode]
  by_cases hname : nickname.map toLower ∈ set.names
  · simp [hname]
  by_cases hdigest : idDigest ∈ set.digests
  · simp [hname, hdigest]
  cases hfirst : rejects set addr orport with
  | true => simp [hname, hdigest, hfirst]
  | false =>
    cases second with
    | none =>
      cases hcountries : set.countries with
      | none => simp [hname, hdigest, hfirst]
      | some countries => simp [hname, hdigest, hfirst]
    | some x =>
      cases hsecond : rejects set x.1 x.2 with
      | true => simp [hname, hdigest, hfirst, hsecond]
      | false =>
        cases hcountries : set.countries with
        | none => simp [hname, hdigest, hfirst, hsecond]
        | some countries => simp [hname, hdigest, hfirst, hsecond]

/-- The countries of a set after the tables were looked at. -/
def countriesOf (countryNames : List Bytes) : Option (List Bool) :=
  (routersetRefreshCountries geoip { routersetNew with countryNames := countryNames }).countries

end

theorem getElem?_foldl_set {f : List Bool → Bytes → List Bool}
    (hf : ∀ bits name, f bits name = (geoip.getCountry name).elim bits fun cc => bits.set cc true)
    (names : List Bytes) (bits : List Bool) (i : ℕ) : (names.foldl f bits)[i]? = some true ↔
      bits[i]? = some true ∨ i < bits.length ∧ ∃ name ∈ names, geoip.getCountry name = some i := by
  induction names generalizing bits with
  | nil => simp
  | cons name names ih =>
    rw [List.foldl_cons, ih, hf]
    cases hcountry : geoip.getCountry name with
    | none => simp [hcountry]
    | some cc =>
      simp only [Option.elim_some, List.length_set, List.getElem?_set, List.mem_cons,
        exists_eq_or_imp, hcountry, Option.some.injEq]
      by_cases hcc : cc = i
      · subst hcc
        by_cases hlt : cc < bits.length <;> simp [hlt]
      · simp [hcc]

theorem mem_countriesOf (geoip : Geoip) (names : List Bytes) (i : ℕ) :
    (∃ countries ∈ countriesOf geoip names, countries[i]? = some true) ↔
      geoip.isLoaded = true ∧ i < geoip.nCountries ∧
        ∃ name ∈ names, geoip.getCountry name = some i := by
  rw [countriesOf, routersetRefreshCountries]
  cases hloaded : geoip.isLoaded with
  | false => simp
  | true =>
    simp only [if_true, Option.mem_some_iff, exists_eq_left', true_and]
    rw [getElem?_foldl_set fun bits name => by cases geoip.getCountry name <;> rfl]
    simp [List.getElem?_replicate]

/-- The countries of a set are those of its names. -/
def Fresh (geoip : Geoip) (set : Routerset) : Prop :=
  set.countries = if set.countryNames = [] then none else countriesOf geoip set.countryNames

theorem Fresh.mem_countries (h : Fresh geoip set) (i : ℕ) :
    (∃ countries ∈ set.countries, countries[i]? = some true) ↔
      geoip.isLoaded = true ∧ i < geoip.nCountries ∧
        ∃ name ∈ set.countryNames, geoip.getCountry name = some i := by
  rw [h]
  split
  · rename_i hnil
    simp [hnil]
  · exact mem_countriesOf geoip set.countryNames i

theorem fresh_parse (h : Fresh geoip set) (s : Bytes) :
    Fresh geoip (routersetParse geoip parseItem set s).1 := by
  rw [routersetParse_eq]
  split
  · rename_i hcountry
    have hne : (set.with parseItem (entriesOf parseItem s)).expanded.countryNames ≠ [] := fun hnil =>
      hasCountry_iff.mp hcountry (List.append_eq_nil_iff.mp hnil).2
    exact (if_neg hne).symm
  · rename_i hcountry
    rw [hasCountry_iff, not_not] at hcountry
    have hnames : (set.with parseItem (entriesOf parseItem s)).expanded.countryNames =
        set.countryNames := by
      change set.countryNames ++ _ = set.countryNames
      rw [hcountry, List.append_nil]
    rw [Fresh, hnames]
    exact h

/-- A set with what two sets have. -/
structure IsUnion (a b set : Routerset) : Prop where
  names : set.names = a.names ++ b.names
  digests : set.digests = a.digests ++ b.digests
  policies : set.policies = a.policies ++ b.policies
  countryNames : set.countryNames = a.countryNames ++ b.countryNames

theorem isUnion_parse (geoip : Geoip) (parseItem : ParseItem)
    (ha : policyExpandUnspec a.policies = a.policies) (s : Bytes) :
    IsUnion a (routersetParse geoip parseItem routersetNew s).1
      (routersetParse geoip parseItem a s).1 := by
  have hpolicies : policyExpandUnspec (a.policies ++
      (entriesOf parseItem s).flatMap fun w => (Entry.of parseItem w).patterns) = a.policies ++
        policyExpandUnspec ([] ++
          (entriesOf parseItem s).flatMap fun w => (Entry.of parseItem w).patterns) := by
    exact List.flatMap_append.trans (congrArg (· ++ _) ha)
  rw [routersetParse_eq, routersetParse_eq]
  split <;> exact ⟨rfl, rfl, hpolicies, rfl⟩

theorem IsUnion.listed (h : IsUnion a b set) (ha : Fresh geoip a) (hb : Fresh geoip b)
    (hset : Fresh geoip set) (q : Asked) :
    Listed geoip set q ↔ Listed geoip a q ∨ Listed geoip b q := by
  have hcountry (set : Routerset) : (∃ countries ∈ set.countries, 0 ≤ q.countryCode geoip ∧
      countries[(q.countryCode geoip).toNat]? = some true) ↔ 0 ≤ q.countryCode geoip ∧
        ∃ countries ∈ set.countries, countries[(q.countryCode geoip).toNat]? = some true := by
    constructor
    · rintro ⟨countries, hmem, hcode, hbit⟩
      exact ⟨hcode, countries, hmem, hbit⟩
    · rintro ⟨hcode, countries, hmem, hbit⟩
      exact ⟨countries, hmem, hcode, hbit⟩
  simp only [Listed, hcountry, ha.mem_countries, hb.mem_countries, hset.mem_countries, h.names,
    h.digests, h.countryNames, List.mem_append, or_and_right, exists_or, and_or_left]
  rw [or_or_or_comm (a := _ ∈ a.digests), or_or_or_comm]

theorem rejects_iff (set : Routerset) (x : TorAddr × ℕ) : rejects set x.1 x.2 = true ↔
    Unknown x ∨ settled (set.policies.map Pattern.policy) x = some .reject := by
  rw [rejects, decide_eq_true_eq, compare_rejected]

/-- A pattern of the second set is reached where none of the first settles. -/
theorem IsUnion.rejects_iff (h : IsUnion a b set) (x : TorAddr × ℕ) : rejects set x.1 x.2 = true ↔
    rejects a x.1 x.2 = true ∨
      settled (a.policies.map Pattern.policy) x = none ∧ rejects b x.1 x.2 = true := by
  simp only [Nodelist.rejects_iff, h.policies, List.map_append, settled_append]
  cases settled (a.policies.map Pattern.policy) x with
  | none => simp
  | some policyType => simp

/-- The second set has a relay only by addresses for which an "accept" of the first set comes
first. -/
structure Hides (geoip : Geoip) (a b : Routerset) (q : Asked) : Prop where
  first : ¬Listed geoip a q
  second : ¬Listed geoip b q
  rejected : ∃ x ∈ q.addresses, rejects b x.1 x.2 = true
  accepted : ∀ x ∈ q.addresses, rejects b x.1 x.2 = true →
    settled (a.policies.map Pattern.policy) x = some .accept
  unrejected : ∀ x ∈ q.addresses, rejects a x.1 x.2 = false

/-- The union has the relays of both sets, but for those that the first set hides. -/
theorem IsUnion.contains_iff (h : IsUnion a b set) (ha : Fresh geoip a) (hb : Fresh geoip b)
    (hset : Fresh geoip set) (q : Asked) :
    (Contains geoip set q ↔ Contains geoip a q ∨ Contains geoip b q) ↔ ¬Hides geoip a b q := by
  rw [Nodelist.contains_iff, Nodelist.contains_iff, Nodelist.contains_iff, h.listed ha hb hset]
  constructor
  · rintro hsame ⟨hfirst, hsecond, ⟨x, hx, hreject⟩, haccept, hunrejected⟩
    rcases hsame.mpr (.inr (.inr ⟨x, hx, hreject⟩)) with hlisted | ⟨y, hy, hunion⟩
    · exact hlisted.elim hfirst hsecond
    · rcases (h.rejects_iff y).mp hunion with hunion | ⟨hnone, hunion⟩
      · rw [hunrejected y hy] at hunion
        cases hunion
      · rw [haccept y hy hunion] at hnone
        cases hnone
  · intro hshown
    constructor
    · rintro ((hlisted | hlisted) | ⟨x, hx, hunion⟩)
      · exact .inl (.inl hlisted)
      · exact .inr (.inl hlisted)
      · rcases (h.rejects_iff x).mp hunion with hunion | ⟨-, hunion⟩
        · exact .inl (.inr ⟨x, hx, hunion⟩)
        · exact .inr (.inr ⟨x, hx, hunion⟩)
    · rintro ((hlisted | ⟨x, hx, hreject⟩) | (hlisted | hreject))
      · exact .inl (.inl hlisted)
      · exact .inr ⟨x, hx, (h.rejects_iff x).mpr (.inl hreject)⟩
      · exact .inl (.inr hlisted)
      · by_contra hnone
        rw [not_or, not_or] at hnone
        obtain ⟨⟨hfirst, hsecond⟩, hunion⟩ := hnone
        have hno (x : TorAddr × ℕ) (hx : x ∈ q.addresses) := fun hreject =>
          hunion ⟨x, hx, (h.rejects_iff x).mpr hreject⟩
        refine hshown ⟨hfirst, hsecond, hreject, fun x hx hb => ?_, fun x hx => ?_⟩
        · cases hsettled : settled (a.policies.map Pattern.policy) x with
          | none => exact absurd (.inr ⟨hsettled, hb⟩) (hno x hx)
          | some policyType =>
            cases policyType with
            | accept => rfl
            | reject =>
              exact absurd (.inl ((Nodelist.rejects_iff a x).mpr (.inr hsettled))) (hno x hx)
        · rw [← Bool.not_eq_true]
          exact fun hreject => hno x hx (.inl hreject)

end Members

theorem fresh_new (geoip : Geoip) : Fresh geoip routersetNew := rfl

/-- The text of a set is parsed as the set, and the union of two sets has the relays of both
exactly where the first hides none of the second. -/
theorem routersetUnion_iff (geoip : Geoip) (parseItem : ParseItem) (s t : Bytes) :
    let a := (routersetParse geoip parseItem routersetNew s).1
    let b := (routersetParse geoip parseItem routersetNew t).1
    routersetParse geoip parseItem routersetNew (routersetToString (some a)) = (a, 0) ∧
      ∀ q, (Contains geoip (routersetUnion geoip parseItem a (some b)) q ↔
        Contains geoip a q ∨ Contains geoip b q) ↔ ¬Hides geoip a b q := by
  refine ⟨routersetParse_toString routersetNew s, fun q => ?_⟩
  have hexpanded : policyExpandUnspec (routersetParse geoip parseItem routersetNew s).1.policies =
      (routersetParse geoip parseItem routersetNew s).1.policies := by
    rw [routersetParse_eq]
    split <;> exact policyExpandUnspec_again _
  have hunion := isUnion_parse geoip parseItem hexpanded t
  rw [routersetUnion, routersetParse_toString]
  exact hunion.contains_iff (fresh_parse (fresh_new geoip) s) (fresh_parse (fresh_new geoip) t)
    (fresh_parse (fresh_parse (fresh_new geoip) s) t) q

/-- A relay at 1.2.3.4. -/
def askedRelay : Asked := ⟨.inet 0x01020304, 9001, none, ascii "relay", List.replicate 20 1, -1⟩

/-- The relay is in the second set, but not in the union of "accept 1.2.3.4" with it. -/
theorem routersetUnion_hidden :
    let a := (routersetParse noGeoip Dirparse.routersetItem routersetNew (ascii "accept 1.2.3.4"))
    let b := (routersetParse noGeoip Dirparse.routersetItem routersetNew (ascii "1.2.3.4"))
    a.2 = 0 ∧ b.2 = 0 ∧ Contains noGeoip b.1 askedRelay ∧
      ¬Contains noGeoip (routersetUnion noGeoip Dirparse.routersetItem a.1 (some b.1))
        askedRelay := by
  unfold Contains
  decide +kernel

end TorDaemon.Nodelist
