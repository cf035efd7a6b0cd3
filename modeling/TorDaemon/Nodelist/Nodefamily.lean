import TorDaemon.Library.Interning
import TorDaemon.Nodelist.RoutersetNodes

/-! The families that relays declare (`nodefamily.c`). A family is held once, as the sorted
members that its text stands for, and shared by all that ask for it. -/
namespace TorDaemon.Nodelist
open Library Library.NetworkOrder Library.Sorting SharedRandom
open Keypin (Digest digestLen)

/-! ### Members -/

def nodefamilyMemberLen : ℕ := 1 + digestLen

def nodefamilyByRsaId : UInt8 := 0

def nodefamilyByNickname : UInt8 := 1

/-- An encoded member: a tag, and a digest or a nickname with zeros behind it. -/
abbrev Member := Digest nodefamilyMemberLen

theorem nickname_fits {name : Bytes} (h : isLegalNickname name = true) :
    (name.map toLower).length < digestLen := by
  have hlen := isLegalNickname_length h
  unfold maxNicknameLen at hlen
  rw [List.length_map, digestLen]
  omega

theorem nickname_length {name : Bytes} (h : name.length < digestLen) :
    (nodefamilyByNickname :: (name ++ List.replicate (digestLen - name.length) 0)).length =
      nodefamilyMemberLen := by
  simp only [List.length_cons, List.length_append, List.length_replicate, nodefamilyMemberLen]
  omega

def Member.nickname (name : Bytes) (h : name.length < digestLen) : Member :=
  ⟨nodefamilyByNickname :: (name ++ List.replicate (digestLen - name.length) 0), nickname_length h⟩

def Member.rsaId (digest : Digest digestLen) : Member :=
  ⟨nodefamilyByRsaId :: digest.val, by
    rw [List.length_cons, digest.property, nodefamilyMemberLen, Nat.add_comm]⟩

def compareMembers (a b : Member) : Ordering := compare a.val b.val

instance : Std.TransCmp compareMembers where
  eq_swap := Std.OrientedOrd.eq_swap
  isLE_trans := Std.TransOrd.isLE_trans

/-! ### Making a family -/

/-- What the loop over the member strings has come to. -/
structure Filled where
  familyMembers : List Member
  nBadElements : ℕ
  unrecognizedOut : List Bytes

/-- What one member string is encoded as. The length that is asserted is part of a nickname. -/
def encodeMember (cp : Bytes) : Option Member :=
  if h : isLegalNickname cp = true then some (.nickname (cp.map toLower) (nickname_fits h))
  else if isLegalHexdigest cp = true then
    (hexDigestNicknameDecode cp).bind fun decoded =>
      (ofLength digestLen decoded.1).map Member.rsaId
  else none

/-- One round of the loop. -/
def fillMember (tmp : Filled) (cp : Bytes) : Filled :=
  match encodeMember cp with
  | some member => { tmp with familyMembers := tmp.familyMembers ++ [member] }
  | none =>
    let unrecognized := if isLegalHexdigest cp = true then [] else [cp]
    { tmp with
      nBadElements := tmp.nBadElements + 1
      unrecognizedOut := tmp.unrecognizedOut ++ unrecognized }

/-- The loop that removes duplicates. The index stays where a member was removed. -/
def removeDuplicates (i : ℕ) (members : List Member) : List Member :=
  if h : i + 1 < members.length then
    if members[i] = members[i + 1] then removeDuplicates i (members.eraseIdx i)
    else removeDuplicates (i + 1) members
  else members
termination_by members.length - i
decreasing_by
  · rw [List.length_eraseIdx_of_lt (Nat.lt_of_succ_lt h)]
    omega
  · omega

def nfRejectMalformed : UInt32 := 2

/-- The counts of references have this many values. -/
def refcntModulus : ℕ := 2 ^ 32

/-- `nodefamily_t`, with the place where it is. The table has its count. -/
structure Nodefamily where
  addr : ℕ
  familyMembers : List Member

/-- `the_node_families`. Members have one length, so that lists of them are equal if their
numbers and their bytes are. -/
abbrev NodefamilyMap := Interning.Pool (List Member)

/-- `nodefamily_from_members`: the family, and the members that were not recognized. The outer
`none` is a size that an `int` does not hold. -/
def nodefamilyFromMembers (qsort : Qsort compareMembers) (map : NodefamilyMap)
    (members : List Bytes) (rsaIdSelf : Option (Digest digestLen)) (flags : UInt32) :
    Option (NodefamilyMap × Option Nodefamily × List Bytes) :=
  let nSelf := if rsaIdSelf.isSome then 1 else 0
  if intMax < (members.length + nSelf) * nodefamilyMemberLen then none
  else
    let tmp := members.foldl fillMember ⟨[], 0, []⟩
    if tmp.nBadElements ≠ 0 ∧ flags &&& nfRejectMalformed ≠ 0 then
      some (map, none, tmp.unrecognizedOut)
    else
      let familyMembers := tmp.familyMembers ++ (rsaIdSelf.map Member.rsaId).toList
      let familyMembers := removeDuplicates 0 (qsort.sort familyMembers)
      let found := Interning.intern refcntModulus map familyMembers
      some (found.1, some ⟨found.2, familyMembers⟩, tmp.unrecognizedOut)

def nodefamilyFree (map : NodefamilyMap) (family : Option Nodefamily) : NodefamilyMap :=
  match family with
  | none => map
  | some family => Interning.release refcntModulus map family.addr

/-! ### Texts -/

/-- `smartlist_split_string` with no separator, `SPLIT_SKIP_SPACE` and `SPLIT_IGNORE_BLANK`. -/
def splitFields (str : Bytes) : List Bytes :=
  let cp := str.dropWhile isSpace
  let field := (cp.takeWhile fun c => !isBlank c).rdropWhile isSpace
  let fields := if field = [] then [] else [field]
  let rest := cp.dropWhile fun c => !isBlank c
  if rest = [] then fields else fields ++ splitFields (rest.tail.dropWhile isBlank)
termination_by str.length
decreasing_by
  rename_i hrest
  have hcp : cp.length ≤ str.length := Scanner.dropWhile_length_le isSpace str
  have hend : rest.length ≤ cp.length := Scanner.dropWhile_length_le _ cp
  have hnext := Scanner.dropWhile_length_le isBlank rest.tail
  have hpos := List.length_pos_iff.mpr hrest
  rw [List.length_tail] at hnext
  change (rest.tail.dropWhile isBlank).length < str.length
  omega

def nodefamilyParse (qsort : Qsort compareMembers) (map : NodefamilyMap) (s : Bytes)
    (rsaIdSelf : Option (Digest digestLen)) (flags : UInt32) :
    Option (NodefamilyMap × Option Nodefamily) :=
  (nodefamilyFromMembers qsort map (splitFields s) rsaIdSelf flags).map fun result =>
    (result.1, result.2.1)

/-- `tor_strupper` -/
def toUpper (c : UInt8) : UInt8 := if 97 ≤ c ∧ c ≤ 122 then c - 32 else c

/-- What is written for a member. A tag that is neither of the two is not written. -/
def formatMember (member : Member) : Option Bytes :=
  let ptr := member.val
  if ptr.head? = some nodefamilyByNickname then some (ptr.tail.takeWhile fun c => c ≠ 0)
  else if ptr.head? = some nodefamilyByRsaId then
    some ((36 :: base16Encode (ptr.tail.take digestLen)).map toUpper)
  else none

def nodefamilyFormat (family : Option Nodefamily) : Bytes :=
  match family with
  | none => []
  | some family => Scanner.joined 32 (family.familyMembers.filterMap formatMember)

/-- `compare_string_ptrs_` -/
def compareStrings (a b : Bytes) : Ordering := compare a b

def nodefamilyCanonicalize (qsort : Qsort compareMembers) (sortStrings : Qsort compareStrings)
    (map : NodefamilyMap) (s : Bytes) (rsaIdSelf : Option (Digest digestLen)) (flags : UInt32) :
    Option (NodefamilyMap × Bytes) :=
  (nodefamilyFromMembers qsort map (splitFields s) rsaIdSelf flags).map fun result =>
    let formatted := nodefamilyFormat result.2.1
    let resultMembers := sortStrings.sort (result.2.2 ++ splitFields formatted)
    (nodefamilyFree result.1 result.2.1, Scanner.joined 32 resultMembers)

end TorDaemon.Nodelist
