import TorDaemon.Library.Framing
import TorDaemon.Policies.Addresses
import TorDaemon.Relay.Codec

/-! The answers in a RESOLVED message (`resolved_cell_parse`). A message is the bytes that its
length counts; a read of any others, or a failed assertion, is `none`. -/
namespace TorDaemon.Edge
open Library.NetworkOrder Library.Framing Policies Relay

section Code

def resolvedTypeHostname : UInt8 := 0

def resolvedTypeIpv4 : UInt8 := 4

def resolvedTypeIpv6 : UInt8 := 6

def resolvedTypeErrorTransient : UInt8 := 0xF0

def resolvedTypeError : UInt8 := 0xF1

/-- `address_ttl_t`. Of the host name it is the allocated block. -/
structure AddressTtl where
  addr : TorAddr
  hostname : Option Bytes
  ttl : Int32
  deriving DecidableEq

/-- The `n` bytes at `cp`. -/
def getBytes (body : Bytes) (cp n : ℕ) : Option { b : Bytes // b.length = n } :=
  if h : cp + n ≤ body.length then
    some ⟨(body.drop cp).take n, by rw [List.length_take, List.length_drop]; omega⟩
  else none

/-- `ntohl(get_uint32(cp))` -/
def getUint32 (body : Bytes) (cp : ℕ) : Option UInt32 :=
  (getBytes body cp 4).map fun b => UInt32.ofNat (ofBigEndian b.val)

def torMemdupNulterm (b : Bytes) : Bytes := b ++ [0]

/-- The variables of the loop. -/
structure Answers where
  cp : ℕ
  remaining : ℕ
  errcode : UInt8
  addrs : List AddressTtl

/-- The end of a pass, with the assertion that what was read had remained. -/
def Answers.advance (s : Answers) (cp : ℕ) (errcode : UInt8) (addrs : List AddressTtl) :
    Option (Except Unit Answers) :=
  if cp - s.cp ≤ s.remaining then
    some (.ok { cp, remaining := s.remaining - (cp - s.cp), errcode, addrs })
  else none

/-- What a pass of the loop does after the type and the length. -/
def resolvedAnswer (body : Bytes) (s : Answers) (answerType : UInt8) (answerLen cp : ℕ) :
    Option (Except Unit Answers) :=
  if s.remaining < 2 + answerLen + 4 then some (.error ())
  else if answerType = resolvedTypeIpv4 then
    if answerLen ≠ 4 then some (.error ())
    else do
      let addr ← getUint32 body cp
      let ttl ← getUint32 body (cp + 4)
      s.advance (cp + 4 + 4) s.errcode (s.addrs ++ [⟨.inet addr.toBitVec, none, ttl.toInt32⟩])
  else if answerType = resolvedTypeIpv6 then
    if answerLen ≠ 16 then some (.error ())
    else do
      let addr ← getBytes body cp 16
      let ttl ← getUint32 body (cp + 16)
      s.advance (cp + 16 + 4) s.errcode (s.addrs ++ [⟨.inet6 addr, none, ttl.toInt32⟩])
  else if answerType = resolvedTypeHostname then
    if answerLen = 0 then some (.error ())
    else do
      let name ← getBytes body cp answerLen
      let ttl ← getUint32 body (cp + answerLen)
      s.advance (cp + answerLen + 4) s.errcode
        (s.addrs ++ [⟨.unspec, some (torMemdupNulterm name.val), ttl.toInt32⟩])
  else if answerType = resolvedTypeErrorTransient ∨ answerType = resolvedTypeError then
    s.advance (cp + (answerLen + 4)) answerType s.addrs
  else s.advance (cp + (answerLen + 4)) s.errcode s.addrs

/-- One pass of the loop; an error is `goto err`. -/
def resolvedPass (body : Bytes) (s : Answers) : Option (Except Unit Answers) :=
  if s.remaining < 2 then some (.error ())
  else do
    let answerType ← body[s.cp]?
    let answerLen ← body[s.cp + 1]?
    resolvedAnswer body s answerType answerLen.toNat (s.cp + 2)

/-- The loop, for a number of passes. -/
def resolvedLoop (body : Bytes) : ℕ → Answers → Option (Except Unit Answers)
  | 0, s => if s.remaining = 0 then some (.ok s) else none
  | fuel + 1, s =>
    if s.remaining = 0 then some (.ok s)
    else
      match resolvedPass body s with
      | none => none
      | some (.error ()) => some (.error ())
      | some (.ok s') => resolvedLoop body fuel s'

/-- What the caller has after the call. -/
structure Resolved where
  ret : ℤ
  addressesOut : List AddressTtl
  errcodeOut : UInt8
  deriving DecidableEq

def resolvedCellParse (body : Bytes) (addressesOut : List AddressTtl) : Option Resolved :=
  if relayPayloadSizeMax < body.length then some ⟨-1, addressesOut, 0⟩
  else
    match resolvedLoop body body.length ⟨0, body.length, 0, []⟩ with
    | none => none
    | some (.error ()) => some ⟨-1, addressesOut, 0⟩
    | some (.ok s) =>
      some ⟨0, addressesOut ++ s.addrs, if s.errcode ≠ 0 ∧ s.addrs.length = 0 then s.errcode else 0⟩

end Code

/-! ### Entries -/

variable {body pre l rest : Bytes} {cp n : ℕ} {e : Entry} {es : List Entry} {s : Answers}

/-- An entry of a message. A byte counts its value. -/
structure Entry where
  type : UInt8
  value : Bytes
  ttl : UInt32
  value_lt : value.length < 256

namespace Entry
variable (e : Entry)

def encode : Bytes :=
  e.type :: UInt8.ofNat e.value.length :: (e.value ++ bigEndian 4 e.ttl.toNat)

/-- The value is as long as its type asks for. -/
structure Legal : Prop where
  ipv4 : e.type = resolvedTypeIpv4 → e.value.length = 4
  ipv6 : e.type = resolvedTypeIpv6 → e.value.length = 16
  hostname : e.type = resolvedTypeHostname → e.value.length ≠ 0

/-- The address or the host name that an entry gives. -/
def answer : Option (TorAddr × Option Bytes) :=
  if e.type = resolvedTypeIpv4 then some (.inet (BitVec.ofNat 32 (ofBigEndian e.value)), none)
  else if e.type = resolvedTypeIpv6 then
    if h : e.value.length = 16 then some (.inet6 ⟨e.value, h⟩, none) else none
  else if e.type = resolvedTypeHostname then some (.unspec, some (torMemdupNulterm e.value))
  else none

def isError : Bool := e.type = resolvedTypeErrorTransient ∨ e.type = resolvedTypeError

/-- What is kept of an entry: the time to live is an `int`. -/
def addressTtl : Option AddressTtl := e.answer.map fun a => ⟨a.1, a.2, e.ttl.toInt32⟩

end Entry

/-- The message is those entries, all of them legal. -/
structure Message (es : List Entry) (body : Bytes) : Prop where
  legal : ∀ e ∈ es, e.Legal
  body_eq : body = es.flatMap Entry.encode

/-- The type of the last error. -/
def lastError (es : List Entry) : UInt8 := ((es.filter Entry.isError).getLast?.map Entry.type).getD 0

/-- The answers of the entries are there, in their order and with their times to live, and
the last error where there is no answer. -/
structure Reports (es : List Entry) (before : List AddressTtl) (r : Resolved) : Prop where
  answers : ∃ new, r.addressesOut = before ++ new ∧
    new.map (fun a => (a.addr, a.hostname, a.ttl.toInt)) =
      es.filterMap fun e => e.answer.map fun a => (a.1, a.2, (e.ttl.toNat : ℤ))
  errcode : r.errcodeOut = if (es.filterMap Entry.answer).isEmpty then lastError es else 0

/-- The call accepts the messages only, reports all that they say, and leaves the list as it is
where it fails. -/
def ParsesExactly (body : Bytes) : Prop :=
  ∀ before, ∃ r, resolvedCellParse body before = some r ∧ (r.ret = 0 ∨ r.ret = -1) ∧
    (r.ret = 0 ↔ ∃ es, Message es body) ∧ (∀ es, Message es body → Reports es before r) ∧
    (r.ret = -1 → r.addressesOut = before)

section Entries

theorem Entry.encode_length (e : Entry) : e.encode.length = 2 + e.value.length + 4 := by
  simp only [encode, List.length_cons, List.length_append, bigEndian_length]
  omega

theorem ofBigEndian_ttl (ttl : UInt32) : UInt32.ofNat (ofBigEndian (bigEndian 4 ttl.toNat)) = ttl := by
  have hlt := ttl.toNat_lt
  rw [ofBigEndian_bigEndian, Nat.mod_eq_of_lt (by omega), UInt32.ofNat_toNat]

theorem encode_selfDelimiting : SelfDelimiting Entry.encode where
  ne_nil := by
    intro e hnil
    cases hnil
  split := by
    rintro ⟨type, value, ttl, hvalue⟩ ⟨type', value', ttl', hvalue'⟩ rest rest' heq
    simp only [Entry.encode, List.cons_append, List.append_assoc, List.cons.injEq] at heq
    obtain ⟨rfl, hlen, heq⟩ := heq
    have hlength : value.length = value'.length := by
      have htoNat := congrArg UInt8.toNat hlen
      simpa [Nat.mod_eq_of_lt hvalue, Nat.mod_eq_of_lt hvalue'] using htoNat
    obtain ⟨rfl, htail⟩ := List.append_inj heq hlength
    obtain ⟨httl, rfl⟩ := List.append_inj htail (by rw [bigEndian_length, bigEndian_length])
    have httl' : ttl = ttl' := by rw [← ofBigEndian_ttl ttl, httl, ofBigEndian_ttl]
    subst httl'
    exact ⟨rfl, rfl⟩

theorem Entry.legal_ipv4 (h : e.type = resolvedTypeIpv4) : e.Legal ↔ e.value.length = 4 :=
  ⟨fun hlegal => hlegal.ipv4 h, fun hlen => {
    ipv4 := fun _ => hlen
    ipv6 := fun htype => absurd (h.symm.trans htype) (by decide)
    hostname := fun htype => absurd (h.symm.trans htype) (by decide) }⟩

theorem Entry.legal_ipv6 (h : e.type = resolvedTypeIpv6) : e.Legal ↔ e.value.length = 16 :=
  ⟨fun hlegal => hlegal.ipv6 h, fun hlen => {
    ipv4 := fun htype => absurd (h.symm.trans htype) (by decide)
    ipv6 := fun _ => hlen
    hostname := fun htype => absurd (h.symm.trans htype) (by decide) }⟩

theorem Entry.legal_hostname (h : e.type = resolvedTypeHostname) : e.Legal ↔ e.value.length ≠ 0 :=
  ⟨fun hlegal => hlegal.hostname h, fun hlen => {
    ipv4 := fun htype => absurd (h.symm.trans htype) (by decide)
    ipv6 := fun htype => absurd (h.symm.trans htype) (by decide)
    hostname := fun _ => hlen }⟩

/-- A front that is long enough is an entry. -/
theorem exists_entry {type len : UInt8} (hlen : len.toNat + 4 ≤ l.length) :
    ∃ e rest, type :: len :: l = Entry.encode e ++ rest ∧ e.type = type ∧
      e.value.length = len.toNat := by
  have hvalue : (l.take len.toNat).length = len.toNat := by
    rw [List.length_take]
    omega
  have hfour : ((l.drop len.toNat).take 4).length = 4 := by
    rw [List.length_take, List.length_drop]
    omega
  have hlt := ofBigEndian_lt ((l.drop len.toNat).take 4)
  rw [hfour] at hlt
  have hbytes : bigEndian 4 (UInt32.ofNat (ofBigEndian ((l.drop len.toNat).take 4))).toNat =
      (l.drop len.toNat).take 4 := by
    apply ofBigEndian_inj (by rw [bigEndian_length, hfour])
    rw [ofBigEndian_bigEndian, UInt32.toNat_ofNat']
    omega
  refine ⟨⟨type, l.take len.toNat, UInt32.ofNat (ofBigEndian ((l.drop len.toNat).take 4)),
    by rw [hvalue]; exact len.toNat_lt⟩, (l.drop len.toNat).drop 4, ?_, rfl, hvalue⟩
  simp only [Entry.encode, hvalue, hbytes, UInt8.ofNat_toNat, List.cons_append, List.append_assoc,
    List.take_append_drop]

end Entries

section Passes

theorem getBytes_eq {value : Bytes} (hbody : body = pre ++ (value ++ rest)) (hcp : cp = pre.length)
    (hn : value.length = n) : getBytes body cp n = some ⟨value, hn⟩ := by
  subst hbody hcp hn
  rw [getBytes, dif_pos (by rw [List.length_append, List.length_append]; omega)]
  simp

theorem getUint32_eq {ttl : UInt32} (hbody : body = pre ++ (bigEndian 4 ttl.toNat ++ rest))
    (hcp : cp = pre.length) : getUint32 body cp = some ttl := by
  rw [getUint32, getBytes_eq hbody hcp (bigEndian_length 4 _), Option.map_some, ofBigEndian_ttl]

/-- The rest of the message, from the cursor on. -/
structure Answers.At (body : Bytes) (s : Answers) (pre l : Bytes) : Prop where
  body_eq : body = pre ++ l
  cp : s.cp = pre.length
  remaining : s.remaining = l.length

/-- The state after an entry. -/
def Answers.after (s : Answers) (e : Entry) : Answers where
  cp := s.cp + e.encode.length
  remaining := s.remaining - e.encode.length
  errcode := if e.isError then e.type else s.errcode
  addrs := s.addrs ++ e.addressTtl.toList

theorem Answers.At.next (h : s.At body pre (e.encode ++ rest)) :
    (s.after e).At body (pre ++ e.encode) rest where
  body_eq := by rw [h.body_eq, List.append_assoc]
  cp := by simp only [Answers.after, h.cp, List.length_append]
  remaining := by
    simp only [Answers.after, h.remaining, List.length_append]
    omega

theorem resolvedPass_cons {type len : UInt8} (h : s.At body pre (type :: len :: l)) :
    resolvedPass body s = resolvedAnswer body s type len.toNat (s.cp + 2) := by
  have htwo : ¬ s.remaining < 2 := by
    rw [h.remaining, List.length_cons, List.length_cons]
    omega
  have htype : body[s.cp]? = some type := by simp [h.body_eq, h.cp]
  have hlen : body[s.cp + 1]? = some len := by simp [h.body_eq, h.cp]
  simp [resolvedPass, htwo, htype, hlen]

theorem Answers.At.advance {errcode : UInt8} {addrs : List AddressTtl}
    (h : s.At body pre (e.encode ++ rest)) (hcp : cp = s.cp + e.encode.length)
    (herrcode : errcode = (s.after e).errcode) (haddrs : addrs = (s.after e).addrs) :
    s.advance cp errcode addrs = some (.ok (s.after e)) := by
  have hle : e.encode.length ≤ s.remaining := by
    rw [h.remaining, List.length_append]
    omega
  subst hcp herrcode haddrs
  rw [Answers.advance, Nat.add_sub_cancel_left, if_pos hle]
  rfl

theorem resolvedPass_encode (h : s.At body pre (e.encode ++ rest)) :
    (e.Legal → resolvedPass body s = some (.ok (s.after e))) ∧
      (¬ e.Legal → resolvedPass body s = some (.error ())) := by
  have hpass := resolvedPass_cons h
  have hlength := e.encode_length
  have hcp := h.cp
  have hvalue : (UInt8.ofNat e.value.length).toNat = e.value.length := by
    rw [UInt8.toNat_ofNat', Nat.mod_eq_of_lt e.value_lt]
  have hbody : body = (pre ++ [e.type, UInt8.ofNat e.value.length]) ++
      (e.value ++ (bigEndian 4 e.ttl.toNat ++ rest)) := by
    rw [h.body_eq, Entry.encode]
    simp
  have hbody' : body = ((pre ++ [e.type, UInt8.ofNat e.value.length]) ++ e.value) ++
      (bigEndian 4 e.ttl.toNat ++ rest) := by
    rw [hbody]
    simp
  have hfits : ¬ s.remaining < 2 + e.value.length + 4 := by
    rw [h.remaining, List.length_append]
    omega
  have hget {k : ℕ} (hk : e.value.length = k) : getBytes body (s.cp + 2) k = some ⟨e.value, hk⟩ :=
    getBytes_eq hbody (by simp [hcp]) hk
  have httl {k : ℕ} (hk : e.value.length = k) : getUint32 body (s.cp + 2 + k) = some e.ttl :=
    getUint32_eq hbody' (by simp [hcp, hk]; omega)
  have hattached (hnone : e.answer = none) : s.addrs = (s.after e).addrs := by
    simp [Answers.after, Entry.addressTtl, hnone]
  have hgiven {a : TorAddr × Option Bytes} (hsome : e.answer = some a) :
      s.addrs ++ [⟨a.1, a.2, e.ttl.toInt32⟩] = (s.after e).addrs := by
    simp [Answers.after, Entry.addressTtl, hsome]
  have herrcode (hno : e.isError = false) : s.errcode = (s.after e).errcode := by
    simp [Answers.after, hno]
  rw [hpass, hvalue, resolvedAnswer, if_neg hfits]
  by_cases hipv4 : e.type = resolvedTypeIpv4
  · have hno : e.isError = false := by simp only [Entry.isError, hipv4]; decide
    rw [if_pos hipv4, e.legal_ipv4 hipv4]
    by_cases hfour : e.value.length = 4
    · have haddr : getUint32 body (s.cp + 2) = some (UInt32.ofNat (ofBigEndian e.value)) := by
        rw [getUint32, hget hfour, Option.map_some]
      have hanswer : e.answer =
          some (.inet (UInt32.ofNat (ofBigEndian e.value)).toBitVec, none) := by
        rw [Entry.answer, if_pos hipv4]
        rfl
      rw [if_neg (not_not.mpr hfour), haddr, httl hfour]
      exact ⟨fun _ => h.advance (by omega) (herrcode hno) (hgiven hanswer), absurd hfour⟩
    · rw [if_pos hfour]
      exact ⟨fun hlen => absurd hlen hfour, fun _ => rfl⟩
  · rw [if_neg hipv4]
    by_cases hipv6 : e.type = resolvedTypeIpv6
    · have hno : e.isError = false := by simp only [Entry.isError, hipv6]; decide
      rw [if_pos hipv6, e.legal_ipv6 hipv6]
      by_cases hsixteen : e.value.length = 16
      · have hanswer : e.answer = some (.inet6 ⟨e.value, hsixteen⟩, none) := by
          rw [Entry.answer, if_neg hipv4, if_pos hipv6, dif_pos hsixteen]
        rw [if_neg (not_not.mpr hsixteen), hget hsixteen, httl hsixteen]
        exact ⟨fun _ => h.advance (by omega) (herrcode hno) (hgiven hanswer), absurd hsixteen⟩
      · rw [if_pos hsixteen]
        exact ⟨fun hlen => absurd hlen hsixteen, fun _ => rfl⟩
    · rw [if_neg hipv6]
      by_cases hhostname : e.type = resolvedTypeHostname
      · have hno : e.isError = false := by simp only [Entry.isError, hhostname]; decide
        have hanswer : e.answer = some (.unspec, some (torMemdupNulterm e.value)) := by
          rw [Entry.answer, if_neg hipv4, if_neg hipv6, if_pos hhostname]
        rw [if_pos hhostname, e.legal_hostname hhostname, not_not]
        by_cases hzero : e.value.length = 0
        · rw [if_pos hzero]
          exact ⟨fun hlen => absurd hzero hlen, fun _ => rfl⟩
        · rw [if_neg hzero, hget rfl, httl rfl]
          exact ⟨fun _ => h.advance (by omega) (herrcode hno) (hgiven hanswer),
            fun hlen => absurd hlen hzero⟩
      · have hlegal : e.Legal := ⟨fun h => absurd h hipv4, fun h => absurd h hipv6,
          fun h => absurd h hhostname⟩
        have hanswer : e.answer = none := by
          rw [Entry.answer, if_neg hipv4, if_neg hipv6, if_neg hhostname]
        refine ⟨fun _ => ?_, absurd hlegal⟩
        split_ifs with herror
        · exact h.advance (by omega) (by simp [Answers.after, Entry.isError, herror])
            (hattached hanswer)
        · exact h.advance (by omega) (herrcode (decide_eq_false herror)) (hattached hanswer)

/-- A text that does not start with an entry is an error. -/
theorem resolvedPass_short (h : s.At body pre l) (hshort : ∀ e rest, l ≠ Entry.encode e ++ rest) :
    resolvedPass body s = some (.error ()) := by
  have htwo (hlt : l.length < 2) : resolvedPass body s = some (.error ()) := by
    rw [resolvedPass, if_pos (by rw [h.remaining]; exact hlt)]
  rcases l with _ | ⟨type, _ | ⟨len, l⟩⟩
  · exact htwo (by simp)
  · exact htwo (by simp)
  · have hfew : l.length < len.toNat + 4 := by
      by_contra hlen
      obtain ⟨e, rest, heq, -⟩ := @exists_entry l type len (Nat.le_of_not_lt hlen)
      exact hshort e rest heq
    rw [resolvedPass_cons h, resolvedAnswer, if_pos]
    rw [h.remaining, List.length_cons, List.length_cons]
    omega

end Passes

section Runs

/-- The error code after some entries. -/
def errcodeAfter (errcode : UInt8) (es : List Entry) : UInt8 :=
  es.foldl (fun errcode e => if e.isError then e.type else errcode) errcode

theorem errcodeAfter_zero (es : List Entry) : errcodeAfter 0 es = lastError es := by
  induction es using List.reverseRecOn with
  | nil => rfl
  | append_singleton es e ih =>
    rw [errcodeAfter, List.foldl_append, List.foldl_cons, List.foldl_nil, ← errcodeAfter, ih]
    cases herror : e.isError <;> simp [lastError, List.filter_append, herror]

theorem Message.nil_iff : Message es [] ↔ es = [] := by
  constructor
  · intro h
    have hnil : es.flatMap Entry.encode = [].flatMap Entry.encode := h.body_eq.symm
    exact encode_selfDelimiting.flatMap_inj hnil
  · rintro rfl
    exact ⟨by simp, rfl⟩

theorem Message.cons (he : e.Legal) (h : Message es rest) : Message (e :: es) (e.encode ++ rest) where
  legal := List.forall_mem_cons.mpr ⟨he, h.legal⟩
  body_eq := by rw [List.flatMap_cons, ← h.body_eq]

theorem Message.tail (h : Message es (e.encode ++ rest)) :
    e.Legal ∧ ∃ es', es = e :: es' ∧ Message es' rest := by
  obtain ⟨es', rfl, hrest⟩ := encode_selfDelimiting.exists_cons h.body_eq
  obtain ⟨he, hes⟩ := List.forall_mem_cons.mp h.legal
  exact ⟨he, es', rfl, hes, hrest⟩

theorem Message.unique {es' : List Entry} (h : Message es body) (h' : Message es' body) : es = es' :=
  encode_selfDelimiting.flatMap_inj (h.body_eq.symm.trans h'.body_eq)

theorem resolvedLoop_spec {fuel : ℕ} (h : s.At body pre l) (hfuel : l.length ≤ fuel) :
    (∃ es s', Message es l ∧ resolvedLoop body fuel s = some (.ok s') ∧
      s'.errcode = errcodeAfter s.errcode es ∧
      s'.addrs = s.addrs ++ es.filterMap Entry.addressTtl) ∨
      (¬ ∃ es, Message es l) ∧ resolvedLoop body fuel s = some (.error ()) := by
  induction fuel generalizing s pre l with
  | zero =>
    obtain rfl := List.length_eq_zero_iff.mp (Nat.le_zero.mp hfuel)
    exact .inl ⟨[], s, Message.nil_iff.mpr rfl, if_pos h.remaining, rfl, by simp⟩
  | succ fuel ih =>
    rw [resolvedLoop, h.remaining]
    by_cases hnil : l.length = 0
    · obtain rfl := List.length_eq_zero_iff.mp hnil
      exact .inl ⟨[], s, Message.nil_iff.mpr rfl, if_pos rfl, rfl, by simp⟩
    · rw [if_neg hnil]
      by_cases hentry : ∃ e rest, l = Entry.encode e ++ rest
      · obtain ⟨e, rest, rfl⟩ := hentry
        by_cases hlegal : e.Legal
        · have hlength := e.encode_length
          rw [List.length_append] at hfuel
          rw [(resolvedPass_encode h).1 hlegal]
          obtain ⟨es, s', hes, hrun, herrcode, haddrs⟩ | ⟨hnone, hrun⟩ :=
            ih h.next (by omega)
          · refine .inl ⟨e :: es, s', hes.cons hlegal, hrun, herrcode, ?_⟩
            rw [haddrs, Answers.after, List.append_assoc]
            cases hkept : e.addressTtl <;> simp [hkept]
          · refine .inr ⟨?_, hrun⟩
            rintro ⟨es, hes⟩
            obtain ⟨-, es', -, hes'⟩ := hes.tail
            exact hnone ⟨es', hes'⟩
        · rw [(resolvedPass_encode h).2 hlegal]
          refine .inr ⟨?_, rfl⟩
          rintro ⟨es, hes⟩
          exact hlegal hes.tail.1
      · push Not at hentry
        rw [resolvedPass_short h hentry]
        refine .inr ⟨?_, rfl⟩
        rintro ⟨es, hes⟩
        cases es with
        | nil => exact hnil (by rw [hes.body_eq]; rfl)
        | cons e es => exact hentry e _ hes.body_eq

end Runs

section Results

theorem toInt_toInt32 (ttl : UInt32) : ttl.toInt32.toInt = (ttl.toNat : ℤ) ↔ ttl.toNat < 2 ^ 31 := by
  have hint : ttl.toInt32.toInt = (ttl.toBitVec).toInt := rfl
  rw [hint, BitVec.toInt_eq_toNat_cond, UInt32.toNat_toBitVec]
  split_ifs <;> omega

theorem Entry.Legal.answer_isSome (h : e.Legal) : e.answer.isSome ↔
    e.type ∈ [resolvedTypeHostname, resolvedTypeIpv4, resolvedTypeIpv6] := by
  simp only [Entry.answer, List.mem_cons, List.not_mem_nil, or_false]
  split_ifs with hipv4 hipv6 hsixteen hhostname
  · simp [hipv4]
  · simp [hipv6]
  · exact absurd (h.ipv6 hipv6) hsixteen
  · simp [hhostname]
  · simp [hipv4, hipv6, hhostname]

/-- The times to live are kept when those of the answers are below the range. -/
theorem addressTtl_map (es : List Entry) :
    (es.filterMap Entry.addressTtl).map (fun a => (a.addr, a.hostname, a.ttl.toInt)) =
        (es.filterMap fun e => e.answer.map fun a => (a.1, a.2, (e.ttl.toNat : ℤ))) ↔
      ∀ e ∈ es, e.answer.isSome → e.ttl.toNat < 2 ^ 31 := by
  induction es with
  | nil => simp
  | cons e es ih =>
    cases hanswer : e.answer with
    | none => simpa [Entry.addressTtl, hanswer] using ih
    | some a => simp [Entry.addressTtl, hanswer, ih, toInt_toInt32]

theorem addressTtl_isEmpty (es : List Entry) :
    (es.filterMap Entry.addressTtl).length = 0 ↔ (es.filterMap Entry.answer).isEmpty := by
  simp [Entry.addressTtl]

/-- A message that fits is reported, except that the times to live are kept as an `int`. -/
theorem resolvedCellParse_message (h : Message es body) (hlen : body.length ≤ relayPayloadSizeMax)
    (before : List AddressTtl) :
    resolvedCellParse body before = some ⟨0, before ++ es.filterMap Entry.addressTtl,
      if (es.filterMap Entry.answer).isEmpty then lastError es else 0⟩ := by
  have hstart : Answers.At body ⟨0, body.length, 0, []⟩ [] body := ⟨rfl, rfl, rfl⟩
  rw [resolvedCellParse, if_neg (Nat.not_lt.mpr hlen)]
  obtain ⟨es', s, hes', hrun, herrcode, haddrs⟩ | ⟨hnone, -⟩ := resolvedLoop_spec hstart le_rfl
  · obtain rfl := h.unique hes'
    rw [hrun]
    simp only [haddrs, herrcode, errcodeAfter_zero, List.nil_append, ← addressTtl_isEmpty]
    congr 2
    by_cases hempty : (es.filterMap Entry.addressTtl).length = 0
    · by_cases hzero : lastError es = 0 <;> simp [hempty, hzero]
    · simp [hempty]
  · exact absurd ⟨es, h⟩ hnone

theorem resolvedCellParse_error (h : relayPayloadSizeMax < body.length ∨ ¬ ∃ es, Message es body)
    (before : List AddressTtl) : resolvedCellParse body before = some ⟨-1, before, 0⟩ := by
  have hstart : Answers.At body ⟨0, body.length, 0, []⟩ [] body := ⟨rfl, rfl, rfl⟩
  by_cases hlen : relayPayloadSizeMax < body.length
  · rw [resolvedCellParse, if_pos hlen]
  · rw [resolvedCellParse, if_neg hlen]
    obtain ⟨es, s, hes, -⟩ | ⟨-, hrun⟩ := resolvedLoop_spec hstart le_rfl
    · exact absurd ⟨es, hes⟩ (h.resolve_left hlen)
    · rw [hrun]

/-- The call does what it is for exactly where the message fits in a cell and the answers have
times to live that an `int` can hold. -/
theorem resolvedCellParse_exact (body : Bytes) :
    ParsesExactly body ↔ ∀ es, Message es body → body.length ≤ relayPayloadSizeMax ∧
      ∀ e ∈ es, e.type ∈ [resolvedTypeHostname, resolvedTypeIpv4, resolvedTypeIpv6] →
        e.ttl.toNat < 2 ^ 31 := by
  constructor
  · intro h es hes
    obtain ⟨r, hr, -, hret, hreports, -⟩ := h []
    have hlen : body.length ≤ relayPayloadSizeMax := by
      by_contra hlong
      rw [resolvedCellParse_error (.inl (Nat.lt_of_not_le hlong)), Option.some.injEq] at hr
      have hzero := hret.mpr ⟨es, hes⟩
      rw [← hr] at hzero
      exact absurd hzero (by decide)
    refine ⟨hlen, ?_⟩
    rw [resolvedCellParse_message hes hlen, Option.some.injEq] at hr
    obtain ⟨new, hnew, hview⟩ := (hreports es hes).answers
    rw [← hr] at hnew
    obtain rfl : es.filterMap Entry.addressTtl = new := by simpa using hnew
    intro e he htype
    exact (addressTtl_map es).mp hview e he ((hes.legal e he).answer_isSome.mpr htype)
  · intro h before
    by_cases hmessage : ∃ es, Message es body
    · obtain ⟨es, hes⟩ := hmessage
      obtain ⟨hlen, httl⟩ := h es hes
      refine ⟨_, resolvedCellParse_message hes hlen before, .inl rfl, ⟨fun _ => ⟨es, hes⟩,
        fun _ => rfl⟩, ?_, fun hret => absurd hret (by simp)⟩
      intro es' hes'
      obtain rfl := hes.unique hes'
      refine ⟨⟨_, rfl, (addressTtl_map es).mpr ?_⟩, rfl⟩
      intro e he hsome
      exact httl e he ((hes.legal e he).answer_isSome.mp hsome)
    · refine ⟨_, resolvedCellParse_error (.inr hmessage) before, .inr rfl,
        ⟨fun hret => absurd hret (by simp), fun hsome => absurd hsome hmessage⟩, ?_, fun _ => rfl⟩
      intro es hes
      exact absurd ⟨es, hes⟩ hmessage

/-- A time to live of 2^31 seconds is reported as a negative one. -/
theorem resolvedCellParse_negative_ttl : ¬ ParsesExactly [4, 4, 127, 0, 2, 10, 0x80, 0, 0, 0] := by
  intro h
  have hmessage : Message [⟨4, [127, 0, 2, 10], 0x80000000, by decide⟩]
      [4, 4, 127, 0, 2, 10, 0x80, 0, 0, 0] := by
    refine ⟨?_, by decide⟩
    intro e he
    rw [List.mem_singleton.mp he]
    exact ⟨fun _ => rfl, fun h => absurd h (by decide), fun h => absurd h (by decide)⟩
  have hrun : resolvedCellParse [4, 4, 127, 0, 2, 10, 0x80, 0, 0, 0] [] =
      some ⟨0, [⟨.inet 0x7f00020a, none, -0x80000000⟩], 0⟩ := by decide
  obtain ⟨r, hr, -, -, hreports, -⟩ := h []
  obtain ⟨new, hnew, hview⟩ := (hreports _ hmessage).answers
  rw [hrun, Option.some.injEq] at hr
  rw [← hr, List.nil_append] at hnew
  rw [← hnew] at hview
  exact absurd hview (by decide)

end Results

end TorDaemon.Edge
