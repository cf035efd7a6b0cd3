import TorDaemon.Buffers.Contents
import TorDaemon.Library.Occurrence

/-! `buf_find_string_offset` finds the first occurrence. A search that gets to the end of the
bytes while the string matches goes on into an empty tail, whose memory was not written. -/
namespace TorDaemon.Buffers
open Library.NetworkOrder Library.Occurrence
variable {c : Chunk} {chunks rest : List Chunk} {b : Buf} {p : BufPos} {q s : Bytes} {ch : UInt8}
  {j k : ℕ}

/-- The position in the bytes of the buffer. -/
def BufPos.offset (p : BufPos) : ℕ := p.chunkPos + p.pos

/-- A position in a buffer that holds the bytes `q`. -/
structure BufPos.At (p : BufPos) (q : Bytes) : Prop where
  rest : contents p.chunks = q.drop p.chunkPos
  le : p.chunkPos ≤ q.length
  inside : ∀ c chunks, p.chunks = c :: chunks → p.pos < c.data.length ∨ c.data = [] ∧ p.pos = 0
  nonempty : ∀ c ∈ p.chunks.dropLast, c.data ≠ []

/-- The tail is not empty. -/
def TailFilled (chunks : List Chunk) : Prop := ∀ tail ∈ chunks.getLast?, tail.data ≠ []

section Positions

section
variable (h : contents (c :: rest) = q.drop k)
include h

theorem getElem?_chunk (hj : j < c.data.length) : q[k + j]? = c.data[j]? := by
  rw [← List.getElem?_drop, ← h, contents_cons, List.getElem?_append_left hj]

theorem drop_chunk : contents rest = q.drop (k + c.data.length) := by
  rw [← List.drop_drop, ← h, contents_cons, List.drop_left]

theorem length_chunk (hk : k ≤ q.length) :
    k + c.data.length + (contents rest).length = q.length := by
  have hlen := congrArg List.length h
  rw [contents_cons, List.length_append, List.length_drop] at hlen
  omega

end

theorem BufPos.At.chunk (h : p.At q) (hlt : p.offset < q.length) :
    ∃ c chunks, p.chunks = c :: chunks ∧ p.pos < c.data.length := by
  have hrest := h.rest
  have hlen := congrArg List.length hrest
  rw [List.length_drop] at hlen
  unfold BufPos.offset at hlt
  cases hchunks : p.chunks with
  | nil =>
    rw [hchunks, contents_nil, List.length_nil] at hlen
    omega
  | cons c chunks =>
    refine ⟨c, chunks, rfl, ?_⟩
    rcases h.inside c chunks hchunks with hpos | ⟨hempty, hpos⟩
    · exact hpos
    · -- only the tail may be empty, and then nothing is left
      cases chunks with
      | nil =>
        rw [hchunks] at hlen
        simp [hempty] at hlen
        omega
      | cons d chunks => exact absurd hempty (h.nonempty c (by simp [hchunks]))

/-- Where the bytes have ended there is an empty tail. -/
theorem BufPos.At.not_tailFilled (h : p.At q) (hne : p.chunks ≠ []) (hend : q.length ≤ p.offset) :
    ¬ TailFilled p.chunks := by
  intro hfilled
  have hrest := h.rest
  unfold BufPos.offset at hend
  cases hchunks : p.chunks with
  | nil => exact hne hchunks
  | cons c chunks =>
    rw [hchunks] at hrest hfilled
    have hlen := length_chunk hrest h.le
    rcases h.inside c chunks hchunks with hpos | ⟨hempty, -⟩
    · omega
    · cases chunks with
      | nil => exact hfilled c rfl hempty
      | cons d chunks => exact h.nonempty c (by simp [hchunks]) hempty

theorem bufPosInit_at (h : b.Ok) : (bufPosInit b).At b.contents := by
  refine ⟨rfl, Nat.zero_le _, fun c chunks _ => ?_, h.nonempty⟩
  by_cases hempty : c.data = []
  · exact .inr ⟨hempty, rfl⟩
  · exact .inl (List.length_pos_iff.mpr hempty)

theorem bufPosInc_ok (h : p.At q) (hlt : p.offset < q.length) (hbound : q.length ≤ bufMaxLen) :
    bufPosInc p = some none ∧ p.offset + 1 = q.length ∨
      ∃ p', bufPosInc p = some (some p') ∧ p'.At q ∧ p'.offset = p.offset + 1 ∧
        (TailFilled p.chunks → TailFilled p'.chunks) ∧ p'.chunks ≠ [] := by
  obtain ⟨c, chunks, hchunks, hpos⟩ := h.chunk hlt
  have hrest := h.rest
  have hnonempty := h.nonempty
  rw [hchunks] at hrest hnonempty
  have hlen := length_chunk hrest h.le
  unfold bufPosInc BufPos.offset at *
  rw [hchunks]
  simp only
  rw [if_neg (by omega)]
  by_cases hend : p.pos + 1 = c.data.length
  · rw [if_pos hend]
    cases chunks with
    | nil =>
      rw [contents_nil, List.length_nil] at hlen
      exact .inl ⟨if_pos rfl, by omega⟩
    | cons d chunks =>
      refine .inr ⟨⟨d :: chunks, 0, p.chunkPos + c.data.length⟩, if_neg (by simp), ?_, ?_, ?_, ?_⟩
      · refine ⟨drop_chunk hrest, by simp only; omega, fun e chunks' heq => ?_, ?_⟩
        · by_cases hempty : e.data = []
          · exact .inr ⟨hempty, rfl⟩
          · exact .inl (List.length_pos_iff.mpr hempty)
        · intro e he
          exact hnonempty e (.tail _ he)
      · simp only
        omega
      · intro htail tail hmem
        exact htail tail (by rwa [List.getLast?_cons_cons])
      · simp
  · rw [if_neg hend]
    refine .inr ⟨⟨c :: chunks, p.pos + 1, p.chunkPos⟩, rfl, ⟨hrest, h.le, ?_, hnonempty⟩, ?_, id,
      by simp⟩
    · intro e chunks' heq
      cases heq
      exact .inl (by simp only; omega)
    · simp only
      omega

end Positions

section Find

variable (ch) in
/-- The next place of a character, from a position in the first chunk. -/
theorem findInChunks_ok {pos chunkPos : ℕ} (hrest : contents chunks = q.drop chunkPos)
    (hle : chunkPos ≤ q.length) (hnonempty : ∀ c ∈ chunks.dropLast, c.data ≠ [])
    (hpos : ∀ c ∈ chunks.head?, pos ≤ c.data.length) (hbound : q.length ≤ bufMaxLen) :
    findInChunks ch chunks pos chunkPos = some none ∧
        (∀ i, chunkPos + pos ≤ i → q[i]? ≠ some ch) ∨
      ∃ p, findInChunks ch chunks pos chunkPos = some (some p) ∧ p.At q ∧
        chunkPos + pos ≤ p.offset ∧ q[p.offset]? = some ch ∧
        (∀ i, chunkPos + pos ≤ i → i < p.offset → q[i]? ≠ some ch) ∧
        (TailFilled chunks → TailFilled p.chunks) := by
  induction chunks generalizing pos chunkPos with
  | nil =>
    refine .inl ⟨rfl, fun i hi => ?_⟩
    have hlen := congrArg List.length hrest
    rw [contents_nil, List.length_nil, List.length_drop] at hlen
    rw [List.getElem?_eq_none (by omega)]
    simp
  | cons c chunks ih =>
    have hlen := length_chunk hrest hle
    rw [findInChunks]
    cases hfind : (c.data.drop pos).findIdx? fun b => decide (b = ch) with
    | some k =>
      obtain ⟨hk, hfound, hbefore⟩ := List.findIdx?_eq_some_iff_getElem.mp hfind
      rw [List.length_drop] at hk
      refine .inr ⟨⟨c :: chunks, pos + k, chunkPos⟩, ?_, ⟨hrest, hle, ?_, hnonempty⟩, ?_, ?_, ?_, id⟩
      · exact if_neg (by omega)
      · intro d chunks' heq
        cases heq
        exact .inl (by simp only; omega)
      · simp only [BufPos.offset]
        omega
      · simp only [BufPos.offset]
        rw [getElem?_chunk hrest (by omega), ← List.getElem?_drop, List.getElem?_eq_getElem
          (by rw [List.length_drop]; omega)]
        simpa using hfound
      · intro i hi hlt
        simp only [BufPos.offset] at hlt
        obtain ⟨j, rfl⟩ := Nat.exists_eq_add_of_le hi
        have hj : j < k := by omega
        have hother := hbefore j hj
        rw [Nat.add_assoc, getElem?_chunk hrest (by omega), ← List.getElem?_drop,
          List.getElem?_eq_getElem (by rw [List.length_drop]; omega)]
        simpa using hother
    | none =>
      have hnot : ∀ x ∈ c.data.drop pos, x ≠ ch := by
        intro x hx
        simpa using List.findIdx?_eq_none_iff.mp hfind x hx
      have hskip : ∀ i, chunkPos + pos ≤ i → i < chunkPos + c.data.length → q[i]? ≠ some ch := by
        intro i hi hlt hch
        obtain ⟨j, rfl⟩ := Nat.exists_eq_add_of_le hi
        rw [Nat.add_assoc, getElem?_chunk hrest (by omega), ← List.getElem?_drop] at hch
        exact hnot ch (List.mem_of_getElem? hch) rfl
      have htail : ∀ d ∈ chunks.dropLast, d.data ≠ [] := by
        intro d hd
        apply hnonempty d
        cases chunks with
        | nil => simp at hd
        | cons e chunks => exact .tail _ hd
      have hstart : pos ≤ c.data.length := hpos c rfl
      rcases @ih 0 _ (drop_chunk hrest) (by omega) htail (fun _ _ => Nat.zero_le _) with
        ⟨hnone, hrestnot⟩ | ⟨p, hp, hat, hge, hfound, hbefore, hfilled⟩
      · refine .inl ⟨hnone, fun i hi => ?_⟩
        by_cases hin : i < chunkPos + c.data.length
        · exact hskip i hi hin
        · exact hrestnot i (by omega)
      · refine .inr ⟨p, hp, hat, by omega, hfound, fun i hi hlt => ?_, fun htail => ?_⟩
        · by_cases hin : i < chunkPos + c.data.length
          · exact hskip i hi hin
          · exact hbefore i (by omega) hlt
        · apply hfilled
          intro tail hmem
          apply htail tail
          cases chunks with
          | nil => simp at hmem
          | cons e chunks => rwa [List.getLast?_cons_cons]

variable (ch) in
theorem bufFindPosOfChar_ok (h : p.At q) (hbound : q.length ≤ bufMaxLen) :
    bufFindPosOfChar ch p = some none ∧ (∀ i, p.offset ≤ i → q[i]? ≠ some ch) ∨
      ∃ p', bufFindPosOfChar ch p = some (some p') ∧ p'.At q ∧ p.offset ≤ p'.offset ∧
        q[p'.offset]? = some ch ∧ (∀ i, p.offset ≤ i → i < p'.offset → q[i]? ≠ some ch) ∧
        (TailFilled p.chunks → TailFilled p'.chunks) := by
  have hpos : ∀ c ∈ p.chunks.head?, p.pos ≤ c.data.length := by
    intro c hc
    obtain ⟨chunks, hchunks⟩ : ∃ chunks, p.chunks = c :: chunks := List.head?_eq_some_iff.mp hc
    rcases h.inside c chunks hchunks with hlt | ⟨-, hzero⟩ <;> omega
  have hfind := findInChunks_ok ch h.rest h.le h.nonempty hpos hbound
  have heq : bufFindPosOfChar ch p = findInChunks ch p.chunks p.pos p.chunkPos := by
    unfold bufFindPosOfChar
    cases hchunks : p.chunks with
    | nil => rfl
    | cons c chunks =>
      simp only
      rw [if_neg]
      rcases h.inside c chunks hchunks with hlt | ⟨hempty, hzero⟩
      · have hne : c.data ≠ [] := List.ne_nil_of_length_pos (by omega)
        rw [if_neg hne]
        omega
      · rw [if_pos hempty]
        exact not_not.mpr hzero
  rw [heq]
  exact hfind

/-- The bytes from the offset on are the beginning of the string, and more of it would follow. -/
def Torn (s q : Bytes) (k : ℕ) : Prop := q.drop k <+: s ∧ ¬ s <+: q.drop k

theorem drop_eq_cons (h : q[k]? = some ch) : q.drop k = ch :: q.drop (k + 1) := by
  obtain ⟨hk, hget⟩ := List.getElem?_eq_some_iff.mp h
  rw [List.drop_eq_getElem_cons hk, hget]

theorem matchLoop_ok (h : p.At q) (hlt : p.offset < q.length) (hbound : q.length ≤ bufMaxLen)
    (hend : TailFilled p.chunks ∨ ¬ Torn s q p.offset) :
    matchLoop s p = some (decide (OccursAt s q p.offset)) := by
  induction s generalizing p with
  | nil => simp [matchLoop, OccursAt]
  | cons ch s ih =>
    obtain ⟨c, chunks, hchunks, hpos⟩ := h.chunk hlt
    have hrest := h.rest
    rw [hchunks] at hrest
    obtain ⟨b, hb⟩ : ∃ b, c.data[p.pos]? = some b := ⟨_, List.getElem?_eq_getElem hpos⟩
    have hq : q[p.offset]? = some b := (getElem?_chunk hrest hpos).trans hb
    have hdrop := drop_eq_cons hq
    rw [matchLoop]
    simp only [hchunks, List.head?_cons, Option.bind_eq_bind, Option.bind_some, hb]
    by_cases hne : b ≠ ch
    · rw [if_pos hne]
      have hnot : ¬ OccursAt (ch :: s) q p.offset := by
        rw [OccursAt, hdrop, List.cons_prefix_cons]
        exact fun hocc => hne hocc.1.symm
      simp [hnot]
    · obtain rfl : b = ch := not_not.mp hne
      rw [if_neg hne]
      have hocc : OccursAt (b :: s) q p.offset ↔ OccursAt s q (p.offset + 1) := by
        rw [OccursAt, hdrop, List.cons_prefix_cons]
        exact and_iff_right rfl
      have htorn : Torn (b :: s) q p.offset ↔ Torn s q (p.offset + 1) := by
        rw [Torn, Torn, hdrop, List.cons_prefix_cons, List.cons_prefix_cons]
        simp
      by_cases hnil : s = []
      · subst hnil
        have hhere : OccursAt [b] q p.offset := hocc.mpr List.nil_prefix
        rw [if_pos rfl, decide_eq_true hhere]
        rfl
      · rw [if_neg hnil]
        rcases bufPosInc_ok h hlt hbound with ⟨hinc, hlast⟩ |
          ⟨p', hinc, hat, hoffset, hfilled, hne'⟩
        · have hnot : ¬ OccursAt (b :: s) q p.offset := by
            rw [hocc]
            intro hocc
            have hle := hocc.length_le hnil
            have hpos := List.length_pos_iff.mpr hnil
            omega
          simp [hinc, hnot]
        · simp only [hinc, Option.bind_some]
          have hsame : decide (OccursAt (b :: s) q p.offset) = decide (OccursAt s q p'.offset) :=
            decide_eq_decide.mpr (by rw [hoffset]; exact hocc)
          rw [hsame]
          by_cases hlt' : p'.offset < q.length
          · refine ih hat hlt' ?_
            rw [hoffset]
            exact hend.imp hfilled (mt htorn.mpr)
          · -- the end of the bytes has been reached within the string
            rcases hend with hend | hend
            · exact absurd (hfilled hend) (hat.not_tailFilled hne' (by omega))
            · refine absurd ⟨?_, ?_⟩ hend
              · rw [hdrop, List.drop_of_length_le (by omega)]
                exact List.cons_prefix_cons.mpr ⟨rfl, List.nil_prefix⟩
              · intro hocc'
                have hle := hocc'.length_le
                have hpos := List.length_pos_iff.mpr hnil
                rw [List.length_cons, List.length_drop] at hle
                omega

/-- The result is that of a search in the bytes, unless it has come to an empty tail while the
string still matched. -/
theorem findLoop_ok {fuel : ℕ} (hs : s ≠ []) (h : p.At q) (hpassed : Passed s q p.offset)
    (hbound : q.length ≤ bufMaxLen) (hfuel : q.length < fuel + p.offset) (hfuel' : 0 < fuel)
    (hend : TailFilled p.chunks ∨ ∀ k < q.length, Passed s q k → ¬ Torn s q k) :
    findLoop s fuel p = some (match firstOffset s q with
      | some k => (k : ℤ)
      | none => -1) := by
  induction fuel generalizing p with
  | zero => omega
  | succ fuel ih =>
    rw [findLoop]
    have hhead : s.head? = some (s.headD 0) := by
      cases s with
      | nil => exact absurd rfl hs
      | cons ch s => rfl
    rcases bufFindPosOfChar_ok (s.headD 0) h hbound with ⟨hfind, hnot⟩ |
      ⟨p', hfind, hat, hge, hfound, hbefore, hfilled⟩
    · have hnone : firstOffset s q = none := by
        refine Passed.firstOffset_none (k := q.length) ?_ hs (Nat.le_refl _)
        apply hpassed.skip hs
        intro i hi _
        rw [hhead]
        exact hnot i hi
      simp only [hfind, hnone, Option.bind_eq_bind, Option.bind_some]
      rfl
    · have hpassed' : Passed s q p'.offset := by
        apply hpassed.skip hs
        intro i hi hlt
        rw [hhead]
        exact hbefore i hi hlt
      have hlt : p'.offset < q.length := (List.getElem?_eq_some_iff.mp hfound).1
      have hmatch := matchLoop_ok (s := s) hat hlt hbound
        (hend.imp hfilled fun hend => hend _ hlt hpassed')
      simp only [hfind, Option.bind_eq_bind, Option.bind_some, bufMatchesAtPos, hmatch]
      by_cases hocc : OccursAt s q p'.offset
      · have hoffset : ¬ bufMaxLen < p'.chunkPos + p'.pos := by
          unfold BufPos.offset at hlt
          omega
        rw [hpassed'.firstOffset_some hs hocc, decide_eq_true hocc, if_pos rfl, if_neg hoffset]
        rfl
      · rw [decide_eq_false hocc, if_neg (by simp)]
        rcases bufPosInc_ok hat hlt hbound with ⟨hinc, hlast⟩ | ⟨p'', hinc, hat', hoffset, hfilled', -⟩
        · have hnone : firstOffset s q = none :=
            (hpassed'.succ hocc).firstOffset_none hs (by omega)
          simp [hinc, hnone]
        · simp only [hinc, Option.bind_some]
          refine ih hat' ?_ (by omega) (by omega) ?_
          · rw [hoffset]
            exact hpassed'.succ hocc
          · exact hend.imp_left fun htail => hfilled' (hfilled htail)

/-- A buffer in which the string can be searched for: the search does not come to an empty tail
while the string still matches. -/
def Searchable (b : Buf) (s : Bytes) : Prop :=
  s ≠ [] ∧ (TailFilled b.chunks ∨
    ∀ k < b.contents.length, Passed s b.contents k → ¬ Torn s b.contents k)

theorem bufFindStringOffset_ok (h : b.Ok) (hs : Searchable b s) :
    bufFindStringOffset b s = some (match firstOffset s b.contents with
      | some k => (k : ℤ)
      | none => -1) := by
  have hbound := h.bound
  have hdatalen := h.datalen
  refine findLoop_ok hs.1 (bufPosInit_at h) (Passed.zero _ _) (by omega) ?_ (by omega) hs.2
  omega

end Find

end TorDaemon.Buffers
