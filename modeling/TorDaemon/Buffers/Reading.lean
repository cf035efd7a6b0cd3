import TorDaemon.Buffers.Contents

/-! What `buf_pullup`, the reads from a descriptor and `buf_get_line` do to the bytes of a
buffer. -/
namespace TorDaemon.Buffers
open Library.NetworkOrder
variable {c head dest : Chunk} {chunks : List Chunk} {b : Buf} {rest n len atMost : ℕ}

section Pullup

theorem growHead_ok (h : head.Ok) (hn : n ≤ bufMaxLen) (rest : ℕ) :
    ∃ head', growHead (chunkAllocSize head.memlen + rest) head n =
        some (chunkAllocSize head'.memlen + rest, head') ∧ head'.data = head.data ∧
      head'.dbgAlloc = chunkAllocSize head'.memlen ∧
      (head.data.length ≤ n → head'.offset + n ≤ head'.memlen) := by
  have hfits := h.fits
  unfold growHead
  by_cases hmem : n ≤ head.memlen
  · rw [if_pos hmem]
    by_cases hrepack : head.remainingCapacity < n - head.data.length
    · refine ⟨chunkRepack head, ?_, rfl, h.alloc, fun _ => ?_⟩
      · have henough : ¬ (chunkRepack head).remainingCapacity < n - head.data.length := by
          simp only [Chunk.remainingCapacity, chunkRepack]
          omega
        simp only [if_pos hrepack, if_neg henough]
        rfl
      · simp only [chunkRepack]
        omega
    · refine ⟨head, ?_, rfl, h.alloc, fun _ => ?_⟩
      · simp only [if_neg hrepack]
      · simp only [Chunk.remainingCapacity] at hrepack
        omega
  · obtain ⟨sz, hsz, henough, -⟩ := bufPreferredChunkSize_eq (Nat.le_trans hn bufMaxLen_le)
    have hsize : n ≤ chunkSizeWithAlloc sz := by
      unfold chunkAllocSize at henough
      unfold chunkSizeWithAlloc
      omega
    have hgrow : chunkGrow (chunkAllocSize head.memlen + rest) (chunkRepack head)
        (chunkSizeWithAlloc sz) = some (chunkAllocSize (chunkSizeWithAlloc sz) + rest,
          { chunkRepack head with
            memlen := chunkSizeWithAlloc sz, dbgAlloc := chunkAllocSize (chunkSizeWithAlloc sz) }) := by
      have hlarger : ¬ (chunkSizeWithAlloc sz ≤ (chunkRepack head).memlen ∨
          (chunkRepack head).dbgAlloc ≠ chunkAllocSize (chunkRepack head).memlen) := by
        simp only [chunkRepack, h.alloc, ne_eq, not_true, or_false]
        omega
      have htotal : chunkAllocSize head.memlen + rest +
          (chunkAllocSize (chunkSizeWithAlloc sz) - chunkAllocSize head.memlen) =
          chunkAllocSize (chunkSizeWithAlloc sz) + rest := by
        unfold chunkAllocSize
        omega
      simp only [chunkGrow, if_neg hlarger]
      rw [← htotal]
      rfl
    refine ⟨{ chunkRepack head with
        memlen := chunkSizeWithAlloc sz, dbgAlloc := chunkAllocSize (chunkSizeWithAlloc sz) },
      ?_, rfl, rfl, fun _ => ?_⟩
    · rw [if_neg hmem, hsz]
      simp only [Option.bind_eq_bind, Option.bind_some, hgrow]
      rw [if_neg (Nat.not_lt_of_le hsize)]
    · simp only [chunkRepack]
      omega

/-- The first chunk ends with as many bytes as are wanted, and none are lost. -/
theorem pullLoop_ok (hroom : dest.offset + n ≤ dest.memlen)
    (halloc : dest.dbgAlloc = chunkAllocSize dest.memlen)
    (hfits : dest.offset + dest.data.length ≤ dest.memlen)
    (hn : n ≤ dest.data.length + (contents chunks).length) (hok : ∀ c ∈ chunks, c.Ok)
    (hnonempty : ∀ c ∈ chunks.dropLast, c.data ≠ []) (rest : ℕ) :
    ∃ dest' chunks', pullLoop n (allocated (dest :: chunks) + rest) dest chunks =
        some (allocated (dest' :: chunks') + rest, dest' :: chunks') ∧
      dest'.data ++ contents chunks' = dest.data ++ contents chunks ∧ n ≤ dest'.data.length ∧
      dest'.offset + dest'.data.length ≤ dest'.memlen ∧
      dest'.dbgAlloc = chunkAllocSize dest'.memlen ∧ (∀ c ∈ chunks', c.Ok) ∧
      ∀ c ∈ chunks'.dropLast, c.data ≠ [] := by
  induction chunks generalizing dest with
  | nil =>
    refine ⟨dest, [], ?_, rfl, by simpa using hn, hfits, halloc, by simp, by simp⟩
    rw [pullLoop, if_neg (by simpa using hn)]
  | cons src chunks ih =>
    rw [pullLoop]
    by_cases hshort : dest.data.length < n
    · have hcapacity : ¬ dest.remainingCapacity <
          min (n - dest.data.length) src.data.length := by
        simp only [Chunk.remainingCapacity]
        omega
      simp only [if_pos hshort, if_neg hcapacity]
      have hsrc := hok src (.head _)
      by_cases hall : src.data.length ≤ n - dest.data.length
      · have htotal : allocated (dest :: src :: chunks) + rest =
            chunkAllocSize src.memlen + (allocated
              ({ dest with data := dest.data ++ src.data } :: chunks) + rest) := by
          simp only [allocated_cons]
          omega
        rw [if_pos hall, htotal, bufChunkFree_eq hsrc, Option.bind_some]
        obtain ⟨dest', chunks', hpull, hcontents, hrest⟩ := @ih
          { dest with data := dest.data ++ src.data } hroom halloc
          (by simp only [List.length_append]; omega)
          (by simp
              rw [contents_cons, List.length_append] at hn
              omega)
          (fun c hc => hok c (.tail _ hc)) (fun c hc => hnonempty c (by
            cases chunks with
            | nil => simp at hc
            | cons d chunks => exact .tail _ hc))
        exact ⟨dest', chunks', hpull, by simpa using hcontents, hrest⟩
      · rw [if_neg hall]
        have hdrop : n - dest.data.length < src.data.length := by omega
        refine ⟨{ dest with data := dest.data ++ src.data.take (n - dest.data.length) },
          { src with
            data := src.data.drop (n - dest.data.length)
            offset := src.offset + (n - dest.data.length) } :: chunks, by simp, ?_, ?_, ?_, halloc,
          ?_, ?_⟩
        · simp only [contents_cons, List.append_assoc]
          rw [← List.append_assoc (src.data.take _), List.take_append_drop]
        · simp only [List.length_append, List.length_take]
          omega
        · simp only [List.length_append, List.length_take]
          omega
        · intro c hc
          rcases List.mem_cons.mp hc with rfl | hc
          · exact hsrc.drop hdrop
          · exact hok c (.tail _ hc)
        · intro c hc
          cases chunks with
          | nil => simp at hc
          | cons d chunks =>
            rcases List.mem_cons.mp hc with rfl | hc
            · exact List.ne_nil_of_length_pos (by simp only [List.length_drop]; omega)
            · exact hnonempty c (.tail _ hc)
    · rw [if_neg hshort]
      exact ⟨dest, src :: chunks, rfl, rfl, by omega, hfits, halloc, hok, hnonempty⟩

/-- The bytes stay, and the first of them are together at the head. -/
theorem bufPullup_ok (h : b.Ok) (n rest : ℕ) :
    ∃ b' start, bufPullup (allocated b.chunks + rest) b n =
        some (allocated b'.chunks + rest, b', start) ∧ b'.Ok ∧ b'.contents = b.contents ∧
      start <+: b.contents ∧ min n b.contents.length ≤ start.length := by
  obtain ⟨chunks, datalen, size⟩ := b
  unfold bufPullup
  cases chunks with
  | nil => exact ⟨_, [], rfl, h, rfl, List.nil_prefix, by simp [Buf.contents]⟩
  | cons head chunks =>
    have hdatalen : datalen = (contents (head :: chunks)).length := h.datalen
    have hprefix : ∀ l l' : Bytes, l <+: l ++ l' := List.prefix_append
    by_cases hhead : min n datalen ≤ head.data.length
    · refine ⟨_, head.data, if_pos hhead, h, rfl, hprefix _ _, ?_⟩
      rw [hdatalen] at hhead
      exact hhead
    · have hbound : datalen ≤ bufMaxLen := h.bound
      have hhead_ok := h.chunks head (.head _)
      obtain ⟨head', hgrow, hdata, halloc, hroom⟩ := growHead_ok (n := min n datalen) hhead_ok
        (by omega) (allocated chunks + rest)
      have htotal : allocated (head :: chunks) + rest =
          chunkAllocSize head.memlen + (allocated chunks + rest) := by
        rw [allocated_cons]
        omega
      have htotal' : chunkAllocSize head'.memlen + (allocated chunks + rest) =
          allocated (head' :: chunks) + rest := by
        rw [allocated_cons]
        omega
      have hchunks : ∀ c ∈ chunks.dropLast, c.data ≠ [] := by
        intro c hc
        apply h.nonempty c
        cases chunks with
        | nil => simp at hc
        | cons d chunks => exact .tail _ hc
      obtain ⟨dest, chunks', hpull, hcontents, hlen, hfits, halloc', hok, hnonempty⟩ :=
        pullLoop_ok (hroom (by omega)) halloc (by rw [hdata]; have := hroom (by omega); omega)
          (by rw [hdata]; rw [contents_cons, List.length_append] at hdatalen; omega)
          (fun c hc => h.chunks c (.tail _ hc)) hchunks rest
      have hsame : contents (dest :: chunks') = contents (head :: chunks) := by
        rw [contents_cons, hcontents, hdata]
        rfl
      have hpos : dest.data ≠ [] := List.ne_nil_of_length_pos (by omega)
      refine ⟨⟨dest :: chunks', datalen, size⟩, dest.data, ?_, ⟨?_, hbound, ?_, ?_, h.defaultSize⟩,
        hsame, ?_, ?_⟩
      · simp only [if_neg hhead, htotal, hgrow, Option.bind_eq_bind, Option.bind_some, htotal', hpull]
        rfl
      · exact hdatalen.trans (congrArg List.length hsame.symm)
      · intro c hc
        rcases List.mem_cons.mp hc with rfl | hc
        · exact ⟨hfits, halloc', fun hempty => absurd hempty hpos⟩
        · exact hok c hc
      · intro c hc
        cases chunks' with
        | nil => simp at hc
        | cons d chunks' =>
          rcases List.mem_cons.mp hc with rfl | hc
          · exact hpos
          · exact hnonempty c hc
      · rw [Buf.contents, ← hsame]
        exact hprefix _ _
      · rw [Buf.contents, ← hdatalen]
        exact hlen

end Pullup

section Read
variable {stream : Bytes}

variable (stream) in
theorem readToChunk_ok (h : b.Ok) (hbound : b.contents.length + n ≤ bufMaxLen) (call : Call) :
    ∃ k, (readToChunk b n stream call).1.Ok ∧ k ≤ n ∧ k ≤ stream.length ∧
      (readToChunk b n stream call).1.contents = b.contents ++ stream.take k ∧
      allocated (readToChunk b n stream call).1.chunks = allocated b.chunks ∧
      (readToChunk b n stream call).2.stream = stream.drop k ∧
      ((readToChunk b n stream call).2.ret = k ∨
        k = 0 ∧ (readToChunk b n stream call).2.ret = -1) := by
  have hnone : ∀ r : ReadResult, r.stream = stream → (r.ret = (0 : ℕ) ∨ r.ret = -1) →
      ∃ k, b.Ok ∧ k ≤ n ∧ k ≤ stream.length ∧ b.contents = b.contents ++ stream.take k ∧
        allocated b.chunks = allocated b.chunks ∧ r.stream = stream.drop k ∧
        (r.ret = k ∨ k = 0 ∧ r.ret = -1) := by
    intro r hstream hret
    exact ⟨0, h, Nat.zero_le _, Nat.zero_le _, by simp, rfl, hstream, hret.imp_right (⟨rfl, ·⟩)⟩
  cases call with
  | error => exact hnone ⟨stream, -1, false⟩ rfl (.inr rfl)
  | blocked => exact hnone ⟨stream, 0, false⟩ rfl (.inl rfl)
  | deliver k =>
    unfold readToChunk
    simp only
    generalize hgot : stream.take (min k (min n (bufSlack b))) = got
    by_cases hnil : got = []
    · rw [if_pos hnil]
      exact hnone ⟨stream, 0, true⟩ rfl (.inl rfl)
    · rw [if_neg hnil]
      have hlen : got.length = min (min k (min n (bufSlack b))) stream.length := by
        rw [← hgot, List.length_take]
      have hdatalen := h.datalen
      obtain ⟨hok, hcontents, halloc⟩ := writeTail_ok h hnil (by omega) (by omega)
      refine ⟨got.length, hok, by omega, by omega, ?_, halloc, rfl, .inl rfl⟩
      have htake : stream.take got.length = got := by
        rw [hlen, ← hgot, ← List.take_take, List.take_length]
      rw [hcontents, htake]

theorem readRoom_ok (h : b.Ok) (hmost : atMost ≤ bufMaxLen) (len rest : ℕ) :
    ∃ b' readlen, readRoom (allocated b.chunks + rest) b atMost len =
        some (allocated b'.chunks + rest, b', readlen) ∧ b'.Ok ∧ b'.contents = b.contents ∧
      readlen ≤ len := by
  unfold readRoom
  by_cases hslack : bufSlack b < minReadLen
  · obtain ⟨c, hc, hadd⟩ := bufAddChunk_eq h.defaultSize hmost (allocated b.chunks + rest)
    refine ⟨{ b with chunks := b.chunks ++ [c] }, min len c.memlen, ?_,
      h.addChunk hc (h.all_nonempty hslack), ?_, Nat.min_le_left _ _⟩
    · rw [if_pos hslack, hadd]
      simp only [Option.map_some, allocated_append, allocated_cons, allocated_nil]
      congr 2
      omega
    · simp [Buf.contents, hc.data]
  · exact ⟨b, _, if_neg hslack, h, rfl, Nat.min_le_left _ _⟩

theorem readLoop_ok (calls : List Call) (stream : Bytes) (total : ℕ) (h : b.Ok) (htotal : total ≤ atMost)
    (hmost : atMost ≤ bufMaxLen) (hbound : b.contents.length + (atMost - total) ≤ bufMaxLen)
    (rest : ℕ) : ∃ b' got k, readLoop atMost calls (allocated b.chunks + rest) b stream total =
        some (allocated b'.chunks + rest, b', got) ∧ b'.Ok ∧ k ≤ atMost - total ∧
      k ≤ stream.length ∧ b'.contents = b.contents ++ stream.take k ∧
      got.stream = stream.drop k ∧ (got.ret = (total + k : ℕ) ∨ got.ret = -1) := by
  induction calls generalizing b stream total with
  | nil =>
    unfold readLoop
    by_cases hdone : atMost ≤ total
    · exact ⟨b, ⟨stream, total, false⟩, 0, if_pos hdone, h, Nat.zero_le _, Nat.zero_le _, by simp,
        rfl, .inl rfl⟩
    · obtain ⟨b', readlen, hroom, hok, hcontents, -⟩ := readRoom_ok h hmost (atMost - total) rest
      refine ⟨b', ⟨stream, total, false⟩, 0, ?_, hok, Nat.zero_le _, Nat.zero_le _,
        by simp [hcontents], rfl, .inl rfl⟩
      rw [if_neg hdone, hroom]
      rfl
  | cons call calls ih =>
    unfold readLoop
    by_cases hdone : atMost ≤ total
    · exact ⟨b, ⟨stream, total, false⟩, 0, if_pos hdone, h, Nat.zero_le _, Nat.zero_le _, by simp,
        rfl, .inl rfl⟩
    · obtain ⟨b₁, readlen, hroom, hok₁, hcontents₁, hlen⟩ := readRoom_ok h hmost (atMost - total) rest
      obtain ⟨k, hok, hk, hstream, hcontents, halloc, hleft, hret⟩ := readToChunk_ok
        stream (n := readlen) hok₁ (by rw [hcontents₁]; omega) call
      rw [if_neg hdone, hroom, Option.bind_some]
      rcases hread : readToChunk b₁ readlen stream call with ⟨b₂, got⟩
      simp only [hread] at hok hcontents halloc hleft hret ⊢
      rw [hcontents₁] at hcontents
      rcases hret with hret | ⟨rfl, hret⟩
      · have hnonneg : ¬ got.ret < 0 := by rw [hret]; omega
        have hnat : got.ret.toNat = k := by rw [hret]; rfl
        rw [if_neg hnonneg, hnat, if_neg (by omega)]
        by_cases hshort : k < readlen
        · refine ⟨b₂, { got with ret := (total + k : ℕ) }, k, ?_, hok, by omega, hstream, hcontents,
            hleft, .inl rfl⟩
          rw [if_pos hshort, halloc]
        · obtain ⟨b', got', k', hloop, hok', hk', hstream', hcontents', hleft', hret'⟩ := ih
            (b := b₂) got.stream (total + k) hok (by omega) (by
              rw [hcontents, List.length_append, List.length_take]
              omega)
          rw [halloc] at hloop
          rw [hleft, List.length_drop] at hstream'
          refine ⟨b', got', k + k', by rw [if_neg hshort]; exact hloop, hok', by omega, by omega, ?_,
            ?_, ?_⟩
          · rw [hcontents', hcontents, hleft, List.append_assoc, List.take_add]
          · rw [hleft', hleft, List.drop_drop]
          · rw [← Nat.add_assoc]
            exact hret'
      · rw [if_pos (by rw [hret]; decide)]
        exact ⟨b₂, got, 0, by rw [halloc], hok, Nat.zero_le _, Nat.zero_le _, hcontents, hleft,
          .inr hret⟩

/-- What has been read is appended, also where a later call has failed. -/
theorem bufReadFromFd_ok (h : b.Ok) (hmost : atMost ≤ bufMaxLen) (stream : Bytes)
    (calls : List Call) (rest : ℕ) :
    ∃ b' got k, bufReadFromFd (allocated b.chunks + rest) b atMost stream calls =
        some (allocated b'.chunks + rest, b', got) ∧ b'.Ok ∧ k ≤ atMost ∧ k ≤ stream.length ∧
      b'.contents = b.contents ++ stream.take k ∧ got.stream = stream.drop k ∧
      (got.ret = (k : ℕ) ∨ got.ret = -1) := by
  unfold bufReadFromFd
  rw [roomFor_eq hmost]
  by_cases hfull : bufMaxLen < b.datalen ∨ bufMaxLen - atMost < b.datalen
  · exact ⟨b, ⟨stream, -1, false⟩, 0, if_pos hfull, h, Nat.zero_le _, Nat.zero_le _, by simp, rfl,
      .inr rfl⟩
  · have hdatalen := h.datalen
    obtain ⟨b', got, k, hloop, hok, hk, hstream, hcontents, hleft, hret⟩ := readLoop_ok calls
      stream 0 h (Nat.zero_le _) hmost (by omega) rest
    rw [Nat.zero_add] at hret
    exact ⟨b', got, k, by rw [if_neg hfull]; exact hloop, hok, by omega, hstream, hcontents, hleft,
      hret⟩

end Read

section Line

theorem findOffsetOfChar_eq (ch : UInt8) (chunks : List Chunk) (offset : ℕ) :
    findOffsetOfChar ch chunks offset =
      ((contents chunks).findIdx? fun b => b = ch).map (offset + ·) := by
  induction chunks generalizing offset with
  | nil => rfl
  | cons c chunks ih =>
    rw [findOffsetOfChar, contents_cons, List.findIdx?_append, ih]
    cases c.data.findIdx? fun b => decide (b = ch) with
    | some k => rfl
    | none =>
      simp only [Option.map_map, Option.none_or]
      congr 1
      funext k
      simp only [Function.comp_apply]
      omega

theorem bufGetLine_ok (h : b.Ok) (dataLen rest : ℕ) :
    ∃ b' ret line len, bufGetLine (allocated b.chunks + rest) b dataLen =
        some (allocated b'.chunks + rest, b', ret, line, len) ∧ b'.Ok ∧
      match b.contents.findIdx? fun b => b = 10 with
      | none => b' = b ∧ ret = 0
      | some sz =>
        if dataLen < sz + 2 then b' = b ∧ ret = -1 ∧ len = sz + 2
        else b'.contents = b.contents.drop (sz + 1) ∧ ret = 1 ∧
          line = b.contents.take (sz + 1) ∧ len = sz + 1 := by
  unfold bufGetLine
  by_cases hnil : b.chunks = []
  · have hcontents : b.contents = [] := by rw [Buf.contents, hnil]; rfl
    refine ⟨b, 0, [], dataLen, if_pos hnil, h, ?_⟩
    rw [hcontents]
    exact ⟨rfl, rfl⟩
  · rw [if_neg hnil, if_neg (Nat.not_lt_of_le h.bound), findOffsetOfChar_eq, ← Buf.contents]
    cases hfind : b.contents.findIdx? fun b => decide (b = 10) with
    | none => exact ⟨b, 0, [], dataLen, rfl, h, rfl, rfl⟩
    | some sz =>
      have hsz : sz < b.contents.length := by
        obtain ⟨hlt, -⟩ := List.findIdx?_eq_some_iff_getElem.mp hfind
        exact hlt
      simp only [Option.map_some, Nat.zero_add]
      by_cases hlong : dataLen < sz + 2
      · refine ⟨b, -1, [], sz + 2, if_pos hlong, h, ?_⟩
        rw [if_pos hlong]
        exact ⟨rfl, rfl, rfl⟩
      · obtain ⟨b', hget, hok, hcontents⟩ := bufGetBytes_ok (n := sz + 1) h hsz rest
        refine ⟨b', 1, b.contents.take (sz + 1), sz + 1, ?_, hok, ?_⟩
        · rw [if_neg hlong, hget]
          rfl
        · rw [if_neg hlong]
          exact ⟨hcontents, rfl, rfl, rfl⟩

end Line

end TorDaemon.Buffers
