import TorDaemon.Encoding.Base64

/-! PEM blocks, as they are written and as they are read (`pem.c`). A type is held without its
terminating NUL. An assertion that fails, or a read or a write outside of a buffer, is `none`. -/
namespace TorDaemon.Encoding.Pem
open Library.NetworkOrder Library.FixedBuffer Library.Scanner
open SharedRandom (ascii)

section Codec

/-- `tor_snprintf` of a text. The length that is returned is an int. -/
def torSnprintf (size : ℕ) (text : Bytes) : Option Bytes :=
  if size ≤ sizeTCeiling ∧ text.length < size ∧ text.length ≤ intMax then some text else none

/-- `tor_asprintf`, which does not return when it fails. -/
def torAsprintf (text : Bytes) : Option Bytes := if text.length ≤ intMax then some text else none

def pemEncodedSize (srcLen : ℕ) (objtype : Bytes) : Option ℕ := do
  return (ascii "-----BEGIN -----\n").length + (ascii "-----END -----\n").length +
    objtype.length * 2 + (← base64EncodeSize srcLen true) + 1

def beginMark (objtype : Bytes) : Bytes := ascii "-----BEGIN " ++ objtype ++ ascii "-----"

def endMark (objtype : Bytes) : Bytes := ascii "\n-----END " ++ objtype ++ ascii "-----"

def endLine (objtype : Bytes) : Bytes := ascii "-----END " ++ objtype ++ ascii "-----\n"

/-- `pem_encode`, with what is in the buffer then. -/
def pemEncode (destlen : ℕ) (src objtype : Bytes) : Option Returned :=
  match torSnprintf destlen (beginMark objtype ++ [10]) with
  | none => some .error
  | some dest => do
    let offset := strlen dest
    match ← base64Encode (destlen - offset) src true with
    | .error => return .error
    | .ok n body =>
      let offset := offset + n.toNat
      if destlen < offset then return .error
      else
        match torSnprintf (destlen - offset) (endLine objtype) with
        | none => return .error
        | some text =>
          let dest := (dest ++ body).take offset ++ (text ++ [0]) ++
            (dest ++ body).drop (offset + (text ++ [0]).length)
          if strlen dest + 1 ≤ (← pemEncodedSize src.length objtype) then return .ok 0 dest
          else none

def isWhitespace (c : UInt8) : Bool := c = 32 || c = 9 || c = 10 || c = 13

/-- `eat_whitespace_eos`, inside or outside of a comment. -/
def eatWhitespaceEos (comment : Bool) : Bytes → Bytes
  | [] => []
  | c :: s =>
    if comment ∧ c ≠ 0 ∧ c ≠ 10 then eatWhitespaceEos true s
    else if isWhitespace c then eatWhitespaceEos false s
    else if c = 35 then eatWhitespaceEos true s
    else c :: s

def isSpaceNoNl (c : UInt8) : Bool := c = 32 || c = 9 || c = 13

/-- `pem_decode`. Nothing that follows the mark at the end is looked at. -/
def pemDecode (destlen : ℕ) (src objtype : Bytes) : Option Returned := do
  let src := eatWhitespaceEos false src
  let tag ← torAsprintf (beginMark objtype)
  if ¬tag <+: src then return .error
  else
    let src := (src.drop tag.length).dropWhile isSpaceNoNl
    if src.head? ≠ some 10 then return .error
    else
      let tag ← torAsprintf (endMark objtype)
      match src.dropInfix? tag with
      | none => return .error
      | some (body, _) => base64Decode destlen body

end Codec

section Blocks
variable {objtype other src body rest : Bytes} {destlen : ℕ}

/-- A block of a type, up to the first mark of its end. -/
def Block (objtype src body : Bytes) : Prop :=
  ∃ spaces rest after, eatWhitespaceEos false src = beginMark objtype ++ (spaces ++ rest) ∧
    (∀ c ∈ spaces, isSpaceNoNl c = true) ∧ rest.head? = some 10 ∧
      rest = body ++ endMark objtype ++ after ∧
        ∀ body' after', rest = body' ++ endMark objtype ++ after' → body.length ≤ body'.length

theorem dropInfix?_mark {l i p s : Bytes} : l.dropInfix? i = some (p, s) ↔
    l = p ++ i ++ s ∧ ∀ p' s', l = p' ++ i ++ s' → p.length ≤ p'.length := by
  rw [List.dropInfix?_eq_some_iff]
  simp only [beq_iff_eq]
  constructor
  · rintro ⟨⟨i', hl, rfl⟩, hfirst⟩
    exact ⟨hl, fun p' s' hl' => hfirst p' i' s' hl' rfl⟩
  · rintro ⟨hl, hfirst⟩
    refine ⟨⟨i, hl, rfl⟩, ?_⟩
    rintro p' i' s' hl' rfl
    exact hfirst p' s' hl'

theorem length_beginMark (objtype : Bytes) : (beginMark objtype).length = objtype.length + 16 := by
  have hfirst : (ascii "-----BEGIN ").length = 11 := by decide
  have hlast : (ascii "-----").length = 5 := by decide
  rw [beginMark, List.length_append, List.length_append, hfirst, hlast]
  omega

theorem length_endMark (objtype : Bytes) : (endMark objtype).length = objtype.length + 15 := by
  have hfirst : (ascii "\n-----END ").length = 10 := by decide
  have hlast : (ascii "-----").length = 5 := by decide
  rw [endMark, List.length_append, List.length_append, hfirst, hlast]
  omega

section
variable (hlen : objtype.length + 16 ≤ intMax)
include hlen

theorem torAsprintf_beginMark : torAsprintf (beginMark objtype) = some (beginMark objtype) :=
  if_pos (by rw [length_beginMark]; exact hlen)

theorem torAsprintf_endMark : torAsprintf (endMark objtype) = some (endMark objtype) :=
  if_pos (by rw [length_endMark]; omega)

theorem pemDecode_block (h : Block objtype src body) :
    pemDecode destlen src objtype = base64Decode destlen body := by
  obtain ⟨spaces, rest, after, hsrc, hspaces, hline, hrest, hfirst⟩ := h
  have hstop : ∀ c ∈ rest.head?, isSpaceNoNl c = false := by
    intro c hc
    rw [hline] at hc
    cases hc
    rfl
  have hmark := dropInfix?_mark.mpr ⟨hrest, hfirst⟩
  simp only [pemDecode, torAsprintf_beginMark hlen, torAsprintf_endMark hlen, hsrc,
    List.drop_left, (span_append hspaces hstop).2, hline, hmark, Option.bind_eq_bind,
    Option.bind_some]
  simp

theorem pemDecode_noBlock
    (h : ∀ body, ¬Block objtype src body) : pemDecode destlen src objtype = some .error := by
  simp only [pemDecode, torAsprintf_beginMark hlen, torAsprintf_endMark hlen, Option.bind_eq_bind,
    Option.bind_some]
  by_cases hbegin : beginMark objtype <+: eatWhitespaceEos false src
  case neg => simp [hbegin]
  obtain ⟨t, ht⟩ := hbegin
  rw [← ht, List.drop_left, if_neg (not_not.mpr (List.prefix_append _ t))]
  by_cases hline : (t.dropWhile isSpaceNoNl).head? = some 10
  case neg => exact if_pos hline
  rw [if_neg (not_not.mpr hline)]
  cases hmark : (t.dropWhile isSpaceNoNl).dropInfix? (endMark objtype) with
  | none => rfl
  | some result =>
    obtain ⟨body, after⟩ := result
    obtain ⟨hrest, hfirst⟩ := dropInfix?_mark.mp hmark
    refine absurd ?_ (h body)
    refine ⟨t.takeWhile isSpaceNoNl, _, after, ?_, mem_takeWhile_pos isSpaceNoNl t, hline, hrest,
      hfirst⟩
    rw [List.takeWhile_append_dropWhile, ht]

theorem pemDecode_inBounds (destlen : ℕ) (src : Bytes) :
    ∃ result, pemDecode destlen src objtype = some result := by
  by_cases h : ∃ body, Block objtype src body
  · obtain ⟨body, hbody⟩ := h
    rw [pemDecode_block hlen hbody]
    exact base64Decode_inBounds
  · exact ⟨.error, pemDecode_noBlock hlen fun body hbody => h ⟨body, hbody⟩⟩

end

theorem rdropWhile_mark (t : Bytes) {s : Bytes} (hs : ∀ c ∈ s, isSpaceNoNl c = true) :
    (t ++ ascii "-----" ++ s).rdropWhile isSpaceNoNl = t ++ ascii "-----" := by
  induction s using List.reverseRecOn with
  | nil =>
    have hdashes : t ++ ascii "-----" = t ++ ascii "----" ++ [45] := by
      rw [List.append_assoc]
      rfl
    rw [List.append_nil, hdashes, List.rdropWhile_concat_neg _ _ _ (by decide)]
  | append_singleton s c ih =>
    rw [← List.append_assoc, List.rdropWhile_concat_pos _ _ _ (hs c (by simp))]
    exact ih fun c hc => hs c (List.mem_append_left _ hc)

theorem Block.type_eq {body' : Bytes} (htype : 10 ∉ objtype) (hother : 10 ∉ other)
    (h : Block objtype src body) (h' : Block other src body') : objtype = other := by
  obtain ⟨spaces, rest, -, hsrc, hspaces, hline, -, -⟩ := h
  obtain ⟨spaces', rest', -, hsrc', hspaces', hline', -, -⟩ := h'
  obtain ⟨z, rfl⟩ := List.head?_eq_some_iff.mp hline
  obtain ⟨z', rfl⟩ := List.head?_eq_some_iff.mp hline'
  have hno (t : Bytes) (ht : 10 ∉ t) (s : Bytes) (hs : ∀ c ∈ s, isSpaceNoNl c = true) :
      10 ∉ t ++ ascii "-----" ++ s := by
    have hdash : 10 ∉ ascii "-----" := by decide
    have hspace : 10 ∉ s := fun hmem => absurd (hs 10 hmem) (by decide)
    simp [ht, hdash, hspace]
  rw [hsrc] at hsrc'
  simp only [beginMark, List.append_assoc, List.append_cancel_left_eq] at hsrc'
  simp only [← List.append_assoc] at hsrc'
  have hline := (append_cons_inj (hno objtype htype spaces hspaces)
    (hno other hother spaces' hspaces') hsrc').1
  have hmarks := congrArg (List.rdropWhile isSpaceNoNl) hline
  rw [rdropWhile_mark _ hspaces, rdropWhile_mark _ hspaces'] at hmarks
  exact List.append_cancel_right hmarks

end Blocks

section RoundTrip
variable {objtype src before after : Bytes} {destlen size : ℕ}

/-- The text of a block. -/
def pemText (objtype src : Bytes) : Bytes :=
  beginMark objtype ++ [10] ++ base64Text true src ++ endLine objtype

theorem eatWhitespaceEos_suffix (comment : Bool) (s : Bytes) : eatWhitespaceEos comment s <:+ s := by
  induction s generalizing comment with
  | nil => exact List.suffix_refl []
  | cons c s ih =>
    rw [eatWhitespaceEos]
    split_ifs
    · exact (ih true).trans (List.suffix_cons c s)
    · exact (ih false).trans (List.suffix_cons c s)
    · exact (ih true).trans (List.suffix_cons c s)
    · exact List.suffix_refl _

theorem eatWhitespaceEos_append {c : UInt8} (hbefore : ∀ c ∈ before, isWhitespace c = true)
    (hc : isWhitespace c = false) (hcomment : c ≠ 35) (s : Bytes) :
    eatWhitespaceEos false (before ++ c :: s) = c :: s := by
  induction before with
  | nil =>
    simp [eatWhitespaceEos, hc, hcomment]
  | cons b before ih =>
    have hb := hbefore b (.head _)
    have hrest := ih fun c hc => hbefore c (.tail _ hc)
    simp [eatWhitespaceEos, hb, hrest]

theorem mem_base64Text {c : UInt8} (h : c ∈ base64Text true src) :
    c = 10 ∨ c ∈ Keypin.base64Encode src := by
  by_cases hc : c = 10
  · exact .inl hc
  · right
    rw [← filter_base64Text true src]
    exact List.mem_filter.mpr ⟨h, by simpa using hc⟩

theorem zero_not_mem_base64Text (src : Bytes) : 0 ∉ base64Text true src := by
  intro h
  rcases mem_base64Text h with hc | hc
  · cases hc
  · exact (base64Encode_ne hc).2 rfl

theorem dash_not_mem_base64Text (src : Bytes) : 45 ∉ base64Text true src := by
  have htable : ∀ v : Fin 64, Keypin.base64EncodeTable v ≠ 45 := by decide
  intro h
  rcases mem_base64Text h with hc | hc
  · cases hc
  · rw [Keypin.base64Encode_eq, List.mem_append] at hc
    rcases hc with hc | hc
    · obtain ⟨v, hv, heq⟩ := List.mem_map.mp hc
      exact htable ⟨v, Keypin.sextets_lt src v hv⟩ heq
    · exact absurd (List.eq_of_mem_replicate hc) (by decide)

theorem base64Text_ends (src : Bytes) : ∃ body, [10] ++ base64Text true src = body ++ [10] := by
  by_cases hnil : base64Text true src = []
  · exact ⟨[], by rw [hnil]; rfl⟩
  · have hpos := List.length_pos_iff.mpr hnil
    have hend : (base64Text true src)[(base64Text true src).length - 1]? = some 10 :=
      (base64Text_newline (by omega)).mpr ⟨rfl, .inr (by omega)⟩
    rw [← List.getLast?_eq_getElem?] at hend
    obtain ⟨text, htext⟩ := List.getLast?_eq_some_iff.mp hend
    exact ⟨[10] ++ text, by rw [htext, List.append_assoc]⟩

/-- What is written for a string is a block, with blanks before it and anything behind. -/
theorem pemText_block (objtype src : Bytes) : ∃ body,
    body.filter (· ≠ 10) = Keypin.base64Encode src ∧
      ∀ before after, (∀ c ∈ before, isWhitespace c = true) →
        Block objtype (before ++ pemText objtype src ++ after) body := by
  obtain ⟨body, hbody⟩ := base64Text_ends src
  have hfilter : body.filter (· ≠ 10) = Keypin.base64Encode src := by
    have hfilter := congrArg (List.filter (· ≠ 10)) hbody
    rw [List.filter_append, List.filter_append, filter_base64Text] at hfilter
    simpa using hfilter.symm
  refine ⟨body, hfilter, fun before after hbefore => ?_⟩
  have hmark : [10] ++ endLine objtype = endMark objtype ++ [10] := by
    have hfirst : [10] ++ ascii "-----END " = ascii "\n-----END " := by decide
    have hlast : ascii "-----\n" = ascii "-----" ++ [10] := by decide
    rw [endLine, endMark, hlast, ← hfirst]
    simp
  have hrest : [10] ++ base64Text true src ++ (endLine objtype ++ after) =
      body ++ endMark objtype ++ ([10] ++ after) := by
    rw [hbody, List.append_assoc, ← List.append_assoc [10], hmark]
    simp
  refine ⟨[], [10] ++ base64Text true src ++ (endLine objtype ++ after), [10] ++ after, ?_, ?_,
    rfl, hrest, ?_⟩
  · have hbegin : beginMark objtype = 45 :: (ascii "----BEGIN " ++ objtype ++ ascii "-----") := rfl
    have htext : before ++ pemText objtype src ++ after =
        before ++ 45 :: (ascii "----BEGIN " ++ objtype ++ ascii "-----" ++
          ([10] ++ base64Text true src ++ (endLine objtype ++ after))) := by
      rw [pemText, hbegin]
      simp
    rw [htext, eatWhitespaceEos_append hbefore rfl (by decide), hbegin]
    simp
  · exact fun c hc => absurd hc List.not_mem_nil
  · -- A mark has a dash behind its line feed, and there is none before the end of the body.
    intro body' after' heq
    by_contra hlt
    have hlength := congrArg List.length hbody
    rw [List.length_append, List.length_append, List.length_singleton] at hlength
    have hdash : ([10] ++ base64Text true src)[body'.length + 1]? = some 45 := by
      have hlt' : body'.length + 1 < ([10] ++ base64Text true src).length := by
        rw [List.length_append, List.length_singleton]
        omega
      have hleft : ([10] ++ base64Text true src ++ (endLine objtype ++ after))[body'.length + 1]? =
          ([10] ++ base64Text true src)[body'.length + 1]? := List.getElem?_append_left hlt'
      rw [← hleft, heq, List.append_assoc, List.getElem?_append_right (by omega),
        Nat.add_sub_cancel_left]
      rfl
    have hmem := List.mem_of_getElem? hdash
    rw [List.mem_append] at hmem
    rcases hmem with hmem | hmem
    · exact absurd hmem (by decide)
    · exact dash_not_mem_base64Text src hmem

theorem length_endLine (objtype : Bytes) : (endLine objtype).length = objtype.length + 15 := by
  have hfirst : (ascii "-----END ").length = 9 := by decide
  have hlast : (ascii "-----\n").length = 6 := by decide
  rw [endLine, List.length_append, List.length_append, hfirst, hlast]
  omega

theorem pemEncodedSize_eq (hsize : pemEncodedSize src.length objtype = some size) :
    base64EncodeSize src.length true = some (base64Text true src).length ∧
      size = objtype.length * 2 + (base64Text true src).length + 33 := by
  cases henclen : base64EncodeSize src.length true with
  | none => simp [pemEncodedSize, henclen] at hsize
  | some enclen =>
    have hbegin : (ascii "-----BEGIN -----\n").length = 17 := by decide
    have hend : (ascii "-----END -----\n").length = 15 := by decide
    simp only [pemEncodedSize, henclen, hbegin, hend, Option.bind_eq_bind, Option.bind_some,
      Option.pure_def, Option.some.injEq] at hsize
    rw [length_base64Text henclen, ← hsize]
    exact ⟨rfl, by omega⟩

theorem length_pemText (hsize : pemEncodedSize src.length objtype = some size) :
    (pemText objtype src ++ [0]).length = size := by
  rw [(pemEncodedSize_eq hsize).2, pemText]
  simp only [List.length_append, List.length_singleton, length_beginMark, length_endLine]
  omega

theorem zero_not_mem_pemText (hzero : 0 ∉ objtype) : 0 ∉ pemText objtype src := by
  have hbegin : 0 ∉ ascii "-----BEGIN " := by decide
  have hend : 0 ∉ ascii "-----END " := by decide
  have hdash : 0 ∉ ascii "-----" := by decide
  have hline : 0 ∉ ascii "-----\n" := by decide
  have hbody := zero_not_mem_base64Text src
  simp [pemText, beginMark, endLine, hbegin, hend, hdash, hline, hbody, hzero]

theorem strlen_append {s t : Bytes} (hs : 0 ∉ s) (ht : ∀ c ∈ t.head?, c = 0) :
    strlen (s ++ t) = s.length := by
  have hall : ∀ c ∈ s, decide (c ≠ 0) = true := by
    intro c hc
    have hne : c ≠ 0 := fun h => hs (h ▸ hc)
    simpa using hne
  have hstop : ∀ c ∈ t.head?, decide (c ≠ 0) = false := fun c hc => by simp [ht c hc]
  rw [strlen, (span_append hall hstop).1]

theorem pemEncode_eq (hsize : pemEncodedSize src.length objtype = some size)
    (hlen : objtype.length + 17 ≤ intMax) (hzero : 0 ∉ objtype) :
    pemEncode size src objtype = some (.ok 0 (pemText objtype src ++ [0])) := by
  obtain ⟨henclen, hsum⟩ := pemEncodedSize_eq hsize
  have henclen' := base64EncodeSize_le henclen
  have hint : intMax = 2 ^ 31 - 1 := rfl
  have hceiling : sizeTCeiling = 2 ^ 63 - 1 - 16 := rfl
  have hno : 0 ∉ pemText objtype src := zero_not_mem_pemText hzero
  generalize hfirst : beginMark objtype ++ [10] = first
  have hlength : first.length = objtype.length + 17 := by
    rw [← hfirst, List.length_append, length_beginMark, List.length_singleton]
  have htext : pemText objtype src = first ++ base64Text true src ++ endLine objtype := by
    rw [pemText, hfirst]
  have hstrlen : strlen first = objtype.length + 17 := by
    rw [← List.append_nil first, strlen_append _ (by simp), hlength]
    rw [htext] at hno
    simp only [List.mem_append, not_or] at hno
    exact hno.1.1
  have hbegin : torSnprintf size first = some first := if_pos (by omega)
  have hroom : (base64Text true src).length + 1 ≤ size - (objtype.length + 17) := by omega
  have hbody := base64Encode_eq henclen hroom (by omega)
  have hend : torSnprintf (size - (objtype.length + 17 + (base64Text true src).length))
      (endLine objtype) = some (endLine objtype) :=
    if_pos (by rw [length_endLine]; omega)
  have hlengths : (first ++ base64Text true src).length =
      objtype.length + 17 + (base64Text true src).length := by
    rw [List.length_append, hlength]
  have hbuffer : first ++ contents (size - (objtype.length + 17)) 0 (base64Text true src) =
      first ++ base64Text true src ++ List.replicate (objtype.length + 16) 0 := by
    rw [contents, ← List.append_assoc]
    congr 2
    omega
  have hdrop : (first ++ base64Text true src ++ List.replicate (objtype.length + 16) 0).drop
      (objtype.length + 17 + (base64Text true src).length + (endLine objtype ++ [0]).length) = [] := by
    apply List.drop_eq_nil_of_le
    rw [List.length_append, hlengths, List.length_replicate, List.length_append, length_endLine,
      List.length_singleton]
  have hwritten : strlen (pemText objtype src ++ [0]) + 1 ≤ size := by
    rw [strlen_append hno (by simp), ← length_pemText hsize, List.length_append,
      List.length_singleton]
  rw [pemEncode, hfirst, hbegin]
  simp only [hstrlen, hbody, Option.bind_eq_bind, Option.bind_some, Int.toNat_natCast]
  rw [if_neg (by omega), hend]
  simp only [hbuffer, hdrop, hsize, Option.bind_some, List.append_nil]
  rw [← hlengths, List.take_left, ← List.append_assoc, ← htext, if_pos hwritten]
  rfl

/-- What is promised for a type: what is written for a string, and what is made of a text. -/
structure PemCodec (objtype : Bytes) : Prop where
  roundTrip : ∀ src size, pemEncodedSize src.length objtype = some size → ∃ text,
    (text ++ [0]).length = size ∧ 0 ∉ text ∧
      pemEncode size src objtype = some (.ok 0 (text ++ [0])) ∧
        ∀ before after destlen, (∀ c ∈ before, isWhitespace c = true) → src.length ≤ destlen →
          destlen ≤ intMax → pemDecode destlen (before ++ text ++ after) objtype =
            some (.ok src.length (contents destlen 0 src))
  inBounds : ∀ destlen src, ∃ result, pemDecode destlen src objtype = some result
  otherType : ∀ destlen src other body, 10 ∉ other → other ≠ objtype → Block other src body →
    pemDecode destlen src objtype = some .error
  noEnd : ∀ destlen src, ¬endMark objtype <:+: src → pemDecode destlen src objtype = some .error
  noBase64 : ∀ destlen src body, Block objtype src body →
    (∃ c ∈ body.takeWhile (· ≠ base64Padding), c ∉ base64Allowed) →
      pemDecode destlen src objtype = some .error

theorem pem_codec (htype : 10 ∉ objtype) (hzero : 0 ∉ objtype)
    (hlen : objtype.length + 17 ≤ intMax) : PemCodec objtype where
  roundTrip := by
    intro src size hsize
    refine ⟨pemText objtype src, length_pemText hsize, zero_not_mem_pemText hzero,
      pemEncode_eq hsize hlen hzero, ?_⟩
    intro before after destlen hbefore hroom hdest
    obtain ⟨body, hbody, hblock⟩ := pemText_block objtype src
    rw [pemDecode_block (by omega) (hblock before after hbefore)]
    exact base64Decode_lines hbody hroom hdest
  inBounds := pemDecode_inBounds (by omega)
  otherType := by
    intro destlen src other body hother hne hblock
    exact pemDecode_noBlock (by omega) fun body' hblock' =>
      hne (hblock.type_eq hother htype hblock')
  noEnd := by
    intro destlen src hend
    refine pemDecode_noBlock (by omega) fun body hblock => hend ?_
    obtain ⟨spaces, rest, after, hsrc, -, -, hrest, -⟩ := hblock
    have hmark : endMark objtype <:+: eatWhitespaceEos false src := by
      refine ⟨beginMark objtype ++ (spaces ++ body), after, ?_⟩
      rw [hsrc, hrest]
      simp
    exact hmark.trans (eatWhitespaceEos_suffix false src).isInfix
  noBase64 := by
    intro destlen src body hblock hillegal
    rw [pemDecode_block (by omega) hblock]
    exact base64Decode_refused hillegal

theorem pem_codec_key : PemCodec (ascii "RSA KEY") :=
  pem_codec (by decide) (by decide) (by decide)

/-- A body that goes on behind its padding is not refused, and there are sizes that are not
written: of a string and of a type. -/
theorem pem_exceptions :
    pemDecode 4 (ascii "-----BEGIN X-----\nQQ==!\n-----END X-----\n") (ascii "X") =
      some (.ok 1 [65, 0, 0, 0]) ∧
    pemEncodedSize (2 ^ 31 - 1) (ascii "X") = none ∧
    ∀ size, pemEncode size [] (List.replicate (2 ^ 31) 65) = some .error := by
  refine ⟨by decide, by decide, fun size => ?_⟩
  have hlength : ¬(beginMark (List.replicate (2 ^ 31) 65) ++ [10]).length ≤ intMax := by
    rw [List.length_append, length_beginMark, List.length_replicate, intMax]
    omega
  rw [pemEncode, torSnprintf, if_neg fun h => hlength h.2.2]

end RoundTrip

end TorDaemon.Encoding.Pem
