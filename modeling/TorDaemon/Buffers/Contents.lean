import Mathlib.Algebra.BigOperators.Group.List.Basic
import Mathlib.Data.List.ModifyLast
import TorDaemon.Buffers.Pool

/-! What each function on a buffer does to the bytes in it. `rest` is what the chunks of other
buffers have allocated. -/
namespace TorDaemon.Buffers
open Library.NetworkOrder
variable {c : Chunk} {chunks : List Chunk} {b b' : Buf} {rest n len : ℕ} {bytes string : Bytes}

/-- The bytes of the chunks in their order. -/
def contents (chunks : List Chunk) : Bytes := chunks.flatMap Chunk.data

def Buf.contents (b : Buf) : Bytes := Buffers.contents b.chunks

def allocated (chunks : List Chunk) : ℕ := (chunks.map fun c => chunkAllocSize c.memlen).sum

/-- A chunk that its memory holds. An empty one has room for a read. -/
structure Chunk.Ok (c : Chunk) : Prop where
  fits : c.offset + c.data.length ≤ c.memlen
  alloc : c.dbgAlloc = chunkAllocSize c.memlen
  room : c.data = [] → minReadLen ≤ c.remainingCapacity

/-- A buffer in which only the tail may be empty. -/
structure Buf.Ok (b : Buf) : Prop where
  datalen : b.datalen = b.contents.length
  bound : b.datalen ≤ bufMaxLen
  chunks : ∀ c ∈ b.chunks, c.Ok
  nonempty : ∀ c ∈ b.chunks.dropLast, c.data ≠ []
  defaultSize : minChunkAlloc ≤ b.defaultChunkSize

section Lists

@[simp] theorem contents_nil : contents [] = [] := rfl

@[simp] theorem contents_cons (c : Chunk) (chunks : List Chunk) :
    contents (c :: chunks) = c.data ++ contents chunks := rfl

@[simp] theorem contents_append (l l' : List Chunk) :
    contents (l ++ l') = contents l ++ contents l' := List.flatMap_append

@[simp] theorem allocated_nil : allocated [] = 0 := rfl

@[simp] theorem allocated_cons (c : Chunk) (chunks : List Chunk) :
    allocated (c :: chunks) = chunkAllocSize c.memlen + allocated chunks := by simp [allocated]

@[simp] theorem allocated_append (l l' : List Chunk) :
    allocated (l ++ l') = allocated l + allocated l' := by simp [allocated]

theorem bufAllocation_eq (b : Buf) : bufAllocation b = allocated b.chunks := rfl

theorem Buf.Ok.assertOk (h : b.Ok) : bufAssertOk b = true := by
  have hsum : ∀ l : List Chunk, (l.map fun c => c.data.length).sum = (Buffers.contents l).length := by
    intro l
    induction l with
    | nil => rfl
    | cons c l ih => simp [ih]
  have hlen : ∀ c ∈ b.chunks, c.data.length ≤ b.contents.length := by
    intro c hc
    obtain ⟨l, l', hl⟩ := List.append_of_mem hc
    simp only [Buf.contents, hl, contents_append, contents_cons, List.length_append]
    omega
  simp only [bufAssertOk, decide_eq_true_eq]
  refine ⟨h.datalen.trans (hsum _).symm, fun c hc => ?_⟩
  have hfits := (h.chunks c hc).fits
  have hbound := h.bound
  have hdatalen := h.datalen
  have hle := hlen c hc
  omega

theorem exists_tail (h : b.chunks ≠ []) : ∃ init tail, b.chunks = init ++ [tail] :=
  ⟨b.chunks.dropLast, b.chunks.getLast h, (List.dropLast_append_getLast h).symm⟩

theorem bufSlack_append {init : List Chunk} {tail : Chunk} (h : b.chunks = init ++ [tail]) :
    bufSlack b = tail.remainingCapacity := by
  simp [bufSlack, h]

theorem chunks_ne_nil_of_slack (h : 0 < bufSlack b) : b.chunks ≠ [] := by
  intro hnil
  simp [bufSlack, hnil] at h

/-- Where there is no room to read into, the tail is not empty either. -/
theorem Buf.Ok.all_nonempty (h : b.Ok) (hslack : bufSlack b < minReadLen) :
    ∀ c ∈ b.chunks, c.data ≠ [] := by
  intro c hc
  obtain ⟨init, tail, hchunks⟩ := exists_tail (List.ne_nil_of_mem hc)
  rw [hchunks] at hc
  rcases List.mem_append.mp hc with hinit | htail
  · exact h.nonempty c (by simpa [hchunks] using hinit)
  · obtain rfl := List.mem_singleton.mp htail
    intro hempty
    have hroom := (h.chunks c (by simp [hchunks])).room hempty
    rw [bufSlack_append hchunks] at hslack
    omega

end Lists

section Allocate

theorem bufChunkFree_eq (h : c.Ok) (rest : ℕ) :
    bufChunkFree (chunkAllocSize c.memlen + rest) c = some rest := by
  rw [bufChunkFree, if_neg (not_not.mpr h.alloc.symm), if_neg (by omega), Nat.add_sub_cancel_left]

theorem doubleUntil_eq {target fuel sz : ℕ} (hsz : chunkOverhead ≤ sz)
    (h : chunkAllocSize target ≤ sz * 2 ^ fuel) :
    ∃ r, doubleUntil target (fuel + 1) sz = some r ∧ chunkAllocSize target ≤ r ∧ sz ≤ r := by
  unfold chunkAllocSize at h ⊢
  induction fuel generalizing sz with
  | zero =>
    rw [Nat.pow_zero, Nat.mul_one] at h
    refine ⟨sz, ?_, h, Nat.le_refl sz⟩
    rw [doubleUntil, if_neg]
    unfold chunkSizeWithAlloc
    omega
  | succ fuel ih =>
    rw [doubleUntil]
    by_cases hsmall : chunkSizeWithAlloc sz < target
    · rw [if_pos hsmall]
      have hdouble : sz <<< 1 = sz * 2 := Nat.shiftLeft_eq sz 1
      obtain ⟨r, hr, htarget, hle⟩ := @ih (sz <<< 1) (by omega) (by
        rw [hdouble, Nat.mul_assoc, ← Nat.pow_succ']
        exact h)
      exact ⟨r, hr, htarget, by omega⟩
    · rw [if_neg hsmall]
      unfold chunkSizeWithAlloc at hsmall
      exact ⟨sz, rfl, by omega, Nat.le_refl sz⟩

theorem bufMaxLen_le : bufMaxLen ≤ sizeTCeiling - chunkOverhead := by decide

theorem bufPreferredChunkSize_eq {target : ℕ} (h : target ≤ sizeTCeiling - chunkOverhead) :
    ∃ sz, bufPreferredChunkSize target = some sz ∧ chunkAllocSize target ≤ sz ∧
      minChunkAlloc ≤ sz := by
  rw [bufPreferredChunkSize, if_neg (Nat.not_lt_of_le h)]
  by_cases hlarge : maxChunkAlloc ≤ chunkAllocSize target
  · rw [if_pos hlarge]
    exact ⟨_, rfl, Nat.le_refl _, Nat.le_trans (by decide) hlarge⟩
  · rw [if_neg hlarge]
    have hmax : minChunkAlloc * 2 ^ 9 = 2 * maxChunkAlloc := by decide
    exact doubleUntil_eq (by decide) (by omega)

/-- A chunk that has just been made. -/
structure Chunk.Fresh (c : Chunk) : Prop where
  offset : c.offset = 0
  data : c.data = []
  memlen : minChunkAlloc - chunkOverhead ≤ c.memlen
  alloc : c.dbgAlloc = chunkAllocSize c.memlen

theorem Chunk.Fresh.ok (h : c.Fresh) : c.Ok := by
  have hroom : minReadLen ≤ minChunkAlloc - chunkOverhead := by decide
  have hmemlen := h.memlen
  refine ⟨by simp [h.offset, h.data], h.alloc, fun _ => ?_⟩
  simp only [Chunk.remainingCapacity, h.offset, h.data, List.length_nil]
  omega

theorem bufAddChunk_eq (hsize : minChunkAlloc ≤ b.defaultChunkSize) {capacity : ℕ}
    (hcapacity : capacity ≤ bufMaxLen) (total : ℕ) : ∃ c, c.Fresh ∧
      bufAddChunkWithCapacity total b capacity true =
        some (total + chunkAllocSize c.memlen, { b with chunks := b.chunks ++ [c] }, c) := by
  have hfresh : ∀ alloc, minChunkAlloc ≤ alloc → (chunkNewWithAllocSize total alloc).2.Fresh ∧
      (chunkNewWithAllocSize total alloc).1 =
        total + chunkAllocSize (chunkNewWithAllocSize total alloc).2.memlen := by
    intro alloc halloc
    have hoverhead : chunkOverhead ≤ minChunkAlloc := by decide
    have hsize : chunkAllocSize (chunkSizeWithAlloc alloc) = alloc := by
      unfold chunkAllocSize chunkSizeWithAlloc
      omega
    refine ⟨⟨rfl, rfl, Nat.sub_le_sub_right halloc _, hsize.symm⟩, ?_⟩
    exact congrArg (total + ·) hsize.symm
  have halloc : ∃ alloc, newChunkAlloc b capacity true = some alloc ∧ minChunkAlloc ≤ alloc := by
    unfold newChunkAlloc
    by_cases hdefault : chunkAllocSize capacity < b.defaultChunkSize
    · exact ⟨_, if_pos hdefault, hsize⟩
    · rw [if_neg hdefault]
      by_cases hcap : maxChunkAlloc < chunkAllocSize capacity
      · exact ⟨_, if_pos ⟨rfl, hcap⟩, by decide⟩
      · rw [if_neg (by simp [hcap])]
        obtain ⟨sz, hsz, -, hmin⟩ := bufPreferredChunkSize_eq (Nat.le_trans hcapacity bufMaxLen_le)
        exact ⟨sz, hsz, hmin⟩
  obtain ⟨alloc, halloc, hmin⟩ := halloc
  obtain ⟨hc, htotal⟩ := hfresh alloc hmin
  refine ⟨_, hc, ?_⟩
  rw [bufAddChunkWithCapacity, halloc, ← htotal]
  rfl

end Allocate

section Add

theorem Buf.Ok.addChunk (h : b.Ok) (hc : c.Fresh) (hnonempty : ∀ c ∈ b.chunks, c.data ≠ []) :
    Buf.Ok { b with chunks := b.chunks ++ [c] } := by
  constructor
  · simp [Buf.contents, hc.data, h.datalen]
  · exact h.bound
  · intro d hd
    rcases List.mem_append.mp hd with hd | hd
    · exact h.chunks d hd
    · obtain rfl := List.mem_singleton.mp hd
      exact hc.ok
  · simpa using hnonempty
  · exact h.defaultSize

/-- Bytes for which there is room are put at the end. -/
theorem writeTail_ok (h : b.Ok) (hne : bytes ≠ []) (hslack : bytes.length ≤ bufSlack b)
    (hbound : b.datalen + bytes.length ≤ bufMaxLen) :
    (writeTail b bytes).Ok ∧ (writeTail b bytes).contents = b.contents ++ bytes ∧
      allocated (writeTail b bytes).chunks = allocated b.chunks := by
  have hpos : 0 < bytes.length := List.length_pos_iff.mpr hne
  obtain ⟨init, tail, hchunks⟩ := exists_tail (chunks_ne_nil_of_slack (by omega : 0 < bufSlack b))
  rw [bufSlack_append hchunks, Chunk.remainingCapacity] at hslack
  have hwritten : (writeTail b bytes).chunks =
      init ++ [{ tail with data := tail.data ++ bytes }] := by
    simp [writeTail, hchunks, List.modifyLast_concat]
  have hcontents : (writeTail b bytes).contents = b.contents ++ bytes := by
    simp [Buf.contents, hwritten, hchunks]
  have htail := h.chunks tail (by simp [hchunks])
  refine ⟨⟨?_, hbound, ?_, ?_, h.defaultSize⟩, hcontents, by simp [hwritten, hchunks]⟩
  · rw [hcontents, List.length_append, ← h.datalen]
    rfl
  · intro c hc
    rw [hwritten] at hc
    rcases List.mem_append.mp hc with hc | hc
    · exact h.chunks c (by simp [hchunks, hc])
    · obtain rfl := List.mem_singleton.mp hc
      refine ⟨?_, htail.alloc, fun hempty => ?_⟩
      · have hfits := htail.fits
        simp only [List.length_append]
        omega
      · exact absurd (List.append_eq_nil_iff.mp hempty).2 hne
  · intro c hc
    exact h.nonempty c (by simpa [hchunks, hwritten] using hc)

theorem ensureSlack_ok (h : b.Ok) (hlen : len ≤ bufMaxLen) (rest : ℕ) :
    ∃ b', ensureSlack (allocated b.chunks + rest) b len = some (allocated b'.chunks + rest, b') ∧
      b'.Ok ∧ b'.contents = b.contents ∧ 0 < bufSlack b' := by
  unfold ensureSlack
  by_cases hslack : bufSlack b = 0
  · obtain ⟨c, hc, hadd⟩ := bufAddChunk_eq h.defaultSize hlen (allocated b.chunks + rest)
    have hnonempty := h.all_nonempty (by rw [hslack]; decide)
    refine ⟨{ b with chunks := b.chunks ++ [c] }, ?_, h.addChunk hc hnonempty, ?_, ?_⟩
    · rw [if_pos hslack, hadd]
      simp only [Option.map_some, allocated_append, allocated_cons, allocated_nil]
      congr 2
      omega
    · simp [Buf.contents, hc.data]
    · rw [bufSlack_append rfl]
      exact Nat.lt_of_lt_of_le (by decide) (hc.ok.room hc.data)
  · exact ⟨b, if_neg hslack, h, rfl, by omega⟩

theorem addLoop_ok {fuel : ℕ} (h : b.Ok) (hbound : b.datalen + string.length ≤ bufMaxLen)
    (hfuel : string.length < fuel) (rest : ℕ) :
    ∃ b', addLoop fuel (allocated b.chunks + rest) b string =
      some (allocated b'.chunks + rest, b') ∧ b'.Ok ∧ b'.contents = b.contents ++ string := by
  induction fuel generalizing b string with
  | zero => omega
  | succ fuel ih =>
    rw [addLoop]
    by_cases hnil : string = []
    · subst hnil
      exact ⟨b, if_pos rfl, h, (List.append_nil _).symm⟩
    · have hlen : string.length ≤ bufMaxLen := by omega
      obtain ⟨b₁, hb₁, hok, hcontents, hslack⟩ := ensureSlack_ok h hlen rest
      have hpos : 0 < string.length := List.length_pos_iff.mpr hnil
      let copy := min (bufSlack b₁) string.length
      have hcopy : (string.take copy).length = copy := by
        rw [List.length_take]
        exact Nat.min_eq_left (Nat.min_le_right _ _)
      have hdatalen : b₁.datalen = b.datalen := by rw [hok.datalen, h.datalen, hcontents]
      have hne : string.take copy ≠ [] := List.ne_nil_of_length_pos (by omega)
      obtain ⟨hok₂, hcontents₂, halloc⟩ := writeTail_ok hok hne (by omega) (by omega)
      have hdatalen₂ : (writeTail b₁ (string.take copy)).datalen = b.datalen + copy := by
        rw [← hdatalen, ← hcopy]
        simp [writeTail]
      obtain ⟨b', hb', hok', hcontents'⟩ := @ih _ (string.drop copy) hok₂
        (by rw [hdatalen₂, List.length_drop]; omega) (by rw [List.length_drop]; omega)
      refine ⟨b', ?_, hok', ?_⟩
      · rw [if_neg hnil, hb₁]
        rw [halloc] at hb'
        exact hb'
      · rw [hcontents', hcontents₂, hcontents, List.append_assoc, List.take_append_drop]

theorem roomFor_eq (h : len ≤ bufMaxLen) : roomFor len = bufMaxLen - len := by
  unfold roomFor sizeT
  unfold bufMaxLen at h ⊢
  omega

/-- A string is appended, or refused where the buffer would get too long. -/
theorem bufAdd_ok (h : b.Ok) (hlen : string.length ≤ bufMaxLen) (rest : ℕ) :
    ∃ b' ret, bufAdd (allocated b.chunks + rest) b string =
      some (allocated b'.chunks + rest, b', ret) ∧ b'.Ok ∧
      if b.contents.length + string.length ≤ bufMaxLen then
        b'.contents = b.contents ++ string ∧ ret = (b.contents ++ string).length
      else b' = b ∧ ret = -1 := by
  unfold bufAdd
  rw [← h.datalen, roomFor_eq hlen]
  have hbound := h.bound
  by_cases hnil : string = []
  · subst hnil
    refine ⟨b, b.datalen, if_pos rfl, h, ?_⟩
    rw [if_pos (by simpa using hbound), h.datalen]
    simp
  · rw [if_neg hnil]
    by_cases hroom : b.datalen + string.length ≤ bufMaxLen
    · obtain ⟨b', hb', hok, hcontents⟩ := addLoop_ok h hroom (Nat.lt_succ_self _) rest
      refine ⟨b', b'.datalen, ?_, hok, ?_⟩
      · rw [if_neg (by omega), hb']
        simp [Nat.not_lt_of_le hok.bound]
      · rw [if_pos hroom, hok.datalen, hcontents]
        exact ⟨rfl, rfl⟩
    · refine ⟨b, -1, if_pos (.inr (by omega)), h, ?_⟩
      rw [if_neg hroom]
      exact ⟨rfl, rfl⟩

end Add

section Remove

theorem peekChunks_eq (h : len ≤ (contents chunks).length) :
    peekChunks chunks len = some ((contents chunks).take len) := by
  induction chunks generalizing len with
  | nil =>
    obtain rfl : len = 0 := by simpa using h
    rfl
  | cons c chunks ih =>
    cases len with
    | zero => rfl
    | succ len =>
      rw [contents_cons, List.length_append] at h
      rw [peekChunks, ih (by omega), contents_cons, List.take_append]
      by_cases hshort : c.data.length ≤ len + 1
      · rw [Nat.min_eq_left hshort, List.take_of_length_le (Nat.le_refl _),
          List.take_of_length_le hshort]
        rfl
      · rw [Nat.min_eq_right (by omega), Nat.sub_self, Nat.sub_eq_zero_of_le (by omega)]
        rfl

theorem Chunk.Ok.drop (h : c.Ok) (hn : n < c.data.length) :
    Chunk.Ok { c with data := c.data.drop n, offset := c.offset + n } := by
  refine ⟨?_, h.alloc, fun hempty => ?_⟩
  · have hfits := h.fits
    simp only [List.length_drop]
    omega
  · have hlen := congrArg List.length hempty
    simp only [List.length_drop, List.length_nil] at hlen
    omega

theorem drainLoop_ok (hdatalen : b.datalen = (contents chunks).length)
    (hok : ∀ c ∈ chunks, c.Ok) (hn : n ≤ (contents chunks).length)
    (hnonempty : ∀ c ∈ chunks.dropLast, c.data ≠ []) (rest : ℕ) :
    ∃ b', drainLoop (allocated chunks + rest) b chunks n =
        some (allocated b'.chunks + rest, b') ∧ b'.contents = (contents chunks).drop n ∧
      b'.datalen = b'.contents.length ∧ (∀ c ∈ b'.chunks, c.Ok) ∧
      (∀ c ∈ b'.chunks.dropLast, c.data ≠ []) ∧ b'.defaultChunkSize = b.defaultChunkSize := by
  induction chunks generalizing b n with
  | nil =>
    obtain rfl : n = 0 := by simpa using hn
    exact ⟨{ b with chunks := [] }, rfl, rfl, hdatalen, by simp, by simp, rfl⟩
  | cons c chunks ih =>
    cases n with
    | zero => exact ⟨{ b with chunks := c :: chunks }, rfl, rfl, hdatalen, hok, hnonempty, rfl⟩
    | succ n =>
      rw [contents_cons, List.length_append] at hn hdatalen
      rw [drainLoop]
      by_cases hlong : n + 1 < c.data.length
      · rw [if_pos hlong]
        have hdrop : (c.data ++ contents chunks).drop (n + 1) =
            c.data.drop (n + 1) ++ contents chunks := List.drop_append_of_le_length (by omega)
        refine ⟨{ b with
            chunks := { c with data := c.data.drop (n + 1), offset := c.offset + (n + 1) } :: chunks
            datalen := b.datalen - (n + 1) }, by simp, ?_, ?_, ?_, ?_, rfl⟩
        · simp [Buf.contents, hdrop]
        · simp only [Buf.contents, contents_cons, List.length_append, List.length_drop]
          omega
        · intro d hd
          rcases List.mem_cons.mp hd with rfl | hd
          · exact (hok c (.head _)).drop hlong
          · exact hok d (.tail _ hd)
        · intro d hd
          cases chunks with
          | nil => simp at hd
          | cons e chunks =>
            rcases List.mem_cons.mp hd with rfl | hd
            · exact List.ne_nil_of_length_pos (by simp only [List.length_drop]; omega)
            · exact hnonempty d (.tail _ hd)
      · rw [if_neg hlong, allocated_cons, Nat.add_assoc, bufChunkFree_eq (hok c (.head _)),
          Option.bind_some]
        obtain ⟨b', hb', hcontents, hrest⟩ := ih (b := { b with datalen := b.datalen - c.data.length })
          (n := n + 1 - c.data.length) (by simp only; omega) (fun d hd => hok d (.tail _ hd))
          (by omega) (fun d hd => hnonempty d (by
            cases chunks with
            | nil => simp at hd
            | cons e chunks => exact .tail _ hd))
        refine ⟨b', hb', ?_, hrest⟩
        have hnil : c.data.drop (n + 1) = [] := List.drop_of_length_le (by omega)
        rw [hcontents, contents_cons, List.drop_append, hnil, List.nil_append]

theorem bufDrain_ok (h : b.Ok) (hn : n ≤ b.contents.length) (rest : ℕ) :
    ∃ b', bufDrain (allocated b.chunks + rest) b n = some (allocated b'.chunks + rest, b') ∧
      b'.Ok ∧ b'.contents = b.contents.drop n := by
  obtain ⟨b', hb', hcontents, hdatalen, hok, hnonempty, hdefault⟩ :=
    drainLoop_ok h.datalen h.chunks hn h.nonempty rest
  have hdrop : b'.contents = b.contents.drop n := hcontents
  refine ⟨b', ?_, ⟨hdatalen, ?_, hok, hnonempty, ?_⟩, hdrop⟩
  · rw [bufDrain, if_neg (by rw [h.datalen]; omega), hb']
  · have hbound := h.bound
    rw [h.datalen] at hbound
    rw [hdatalen, hdrop, List.length_drop]
    omega
  · rw [hdefault]
    exact h.defaultSize

theorem bufGetBytes_ok (h : b.Ok) (hn : n ≤ b.contents.length) (rest : ℕ) :
    ∃ b', bufGetBytes (allocated b.chunks + rest) b n =
        some (allocated b'.chunks + rest, b', b.contents.take n) ∧ b'.Ok ∧
      b'.contents = b.contents.drop n := by
  obtain ⟨b', hb', hok, hcontents⟩ := bufDrain_ok h hn rest
  refine ⟨b', ?_, hok, hcontents⟩
  have hpeek : bufPeek b n = some (b.contents.take n) := by
    rw [bufPeek, if_neg (by rw [h.datalen]; omega)]
    exact peekChunks_eq hn
  rw [bufGetBytes, hpeek]
  simp [hb', Nat.not_lt_of_le hok.bound]

end Remove

end TorDaemon.Buffers
