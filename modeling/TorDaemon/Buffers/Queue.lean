import TorDaemon.Buffers.Reading
import TorDaemon.Buffers.Searching
import TorDaemon.Library.Reachability

/-! The buffers as byte queues. -/
namespace TorDaemon.Buffers
open Library.NetworkOrder Library.Occurrence Library.Reachability
variable {pool pool' : Pool} {b b' : Buf} {i n out inn : ℕ} {q : Bytes} {qs qs' : List Bytes}

section Queues

/-- Bytes are moved from the front of one queue to the end of another one. -/
def moveQueue (qs : List Bytes) (out inn n : ℕ) : List Bytes :=
  let taken := (qs[inn]?.getD []).take n
  (qs.modify inn (List.drop n)).modify out (· ++ taken)

/-- What an operation does to the queues, and what it answers. -/
def QueueStep (qs qs' : List Bytes) (a : Answer) : Op → Prop
  | .new => qs' = qs ++ [[]]
  | .newWithCapacity _ => qs' = qs ++ [[]]
  | .clear i => qs' = qs.set i []
  | .add i string => ∃ q, qs[i]? = some q ∧
    if q.length + string.length ≤ bufMaxLen then
      qs' = qs.set i (q ++ string) ∧ a.ret = (q ++ string).length
    else qs' = qs ∧ a.ret = -1
  | .read i atMost stream _ => ∃ q k, qs[i]? = some q ∧ k ≤ atMost ∧ k ≤ stream.length ∧
    qs' = qs.set i (q ++ stream.take k) ∧ a.data = stream.drop k ∧ (a.ret = (k : ℕ) ∨ a.ret = -1)
  | .drain i n => ∃ q, qs[i]? = some q ∧ qs' = qs.set i (q.drop n)
  | .getBytes i len => ∃ q, qs[i]? = some q ∧ qs' = qs.set i (q.drop len) ∧
    a.data = q.take len ∧ a.ret = (q.drop len).length
  | .pullup i bytes => ∃ q, qs[i]? = some q ∧ qs' = qs ∧ a.data <+: q ∧
    min bytes q.length ≤ a.data.length
  | .moveToBuf out inn flushlen => ∃ q r, qs[out]? = some q ∧ qs[inn]? = some r ∧
    if q.length + flushlen ≤ bufMaxLen then
      qs' = moveQueue qs out inn (min flushlen r.length) ∧ a.ret = (min flushlen r.length : ℕ) ∧
        a.len = flushlen - min flushlen r.length
    else qs' = qs ∧ a.ret = -1
  | .moveAll out inn => ∃ q r, qs[out]? = some q ∧ qs[inn]? = some r ∧
    if q.length + r.length ≤ bufMaxLen then
      qs' = (qs.set out (q ++ r)).set inn [] ∧ a.ret = r.length
    else qs' = qs ∧ a.ret = 0
  | .copy i => ∃ q, qs[i]? = some q ∧ qs' = qs ++ [q]
  | .getLine i dataLen => ∃ q, qs[i]? = some q ∧
    match q.findIdx? fun b => b = 10 with
    | none => qs' = qs ∧ a.ret = 0
    | some sz =>
      if dataLen < sz + 2 then qs' = qs ∧ a.ret = -1 ∧ a.len = sz + 2
      else qs' = qs.set i (q.drop (sz + 1)) ∧ a.ret = 1 ∧ a.data = q.take (sz + 1) ∧ a.len = sz + 1

def QueueRun : List Bytes → List Op → List Answer → List Bytes → Prop
  | qs, [], [], qs' => qs' = qs
  | qs, op :: ops, a :: answers, qs' =>
    ∃ qs₁, QueueStep qs qs₁ a op ∧ QueueRun qs₁ ops answers qs'
  | _, _, _, _ => False

end Queues

section Guard

/-- The callers' part: the buffers are there, and no more is removed than there is. -/
def Op.Legal (pool : Pool) : Op → Prop
  | .new => True
  | .newWithCapacity size => size ≤ sizeTCeiling - chunkOverhead
  | .clear i | .add i _ | .read i _ _ _ | .pullup i _ | .copy i | .getLine i _ =>
    i < pool.bufs.length
  | .drain i n | .getBytes i n => ∃ b, pool.bufs[i]? = some b ∧ n ≤ b.datalen
  | .moveToBuf out inn _ | .moveAll out inn => out < pool.bufs.length ∧ inn < pool.bufs.length

/-- Lengths are such that `BUF_MAX_LEN` less them does not wrap around; and bytes are not moved
behind an empty tail, nor from a buffer to itself. -/
def Op.Safe (pool : Pool) : Op → Prop
  | .add _ string => string.length ≤ bufMaxLen
  | .read _ atMost _ _ => atMost ≤ bufMaxLen
  | .moveAll out inn => ∀ b b', pool.bufs[out]? = some b → pool.bufs[inn]? = some b' →
    out ≠ inn ∧ TailFilled b.chunks ∨ b'.datalen = 0 ∨ bufMaxLen < b.datalen + b'.datalen
  | _ => True

def Op.Guard (pool : Pool) (op : Op) : Prop := op.Legal pool ∧ op.Safe pool

instance (pool : Pool) : (op : Op) → Decidable (op.Legal pool)
  | .new => .isTrue trivial
  | .newWithCapacity size => inferInstanceAs (Decidable (size ≤ _))
  | .clear _ | .add _ _ | .read _ _ _ _ | .pullup _ _ | .copy _ | .getLine _ _ =>
    inferInstanceAs (Decidable (_ < _))
  | .drain i n | .getBytes i n =>
    inferInstanceAs (Decidable (∃ b, pool.bufs[i]? = some b ∧ n ≤ b.datalen))
  | .moveToBuf _ _ _ | .moveAll _ _ => inferInstanceAs (Decidable (_ < _ ∧ _ < _))

namespace Pool

def start : Pool := ⟨0, []⟩

def next (pool : Pool) (op : Op) : Option Pool := (pool.step op).map Prod.fst

/-- The operations in turn, and what they answer. -/
def runOps : Pool → List Op → Option (Pool × List Answer)
  | pool, [] => some (pool, [])
  | pool, op :: ops => do
    let (pool, answer) ← pool.step op
    let (pool, answers) ← runOps pool ops
    return (pool, answer :: answers)

/-- Every chunk that is allocated is in one of the buffers. -/
structure Ok (pool : Pool) : Prop where
  bufs : ∀ b ∈ pool.bufs, b.Ok
  total : pool.total = (pool.bufs.map bufAllocation).sum

def queues (pool : Pool) : List Bytes := pool.bufs.map Buf.contents

/-- The operation ends, and does to the buffers what it should do to the queues. -/
abbrev Refines (pool : Pool) (op : Op) : Prop :=
  ∃ pool' a, pool.step op = some (pool', a) ∧ pool'.Ok ∧ QueueStep pool.queues pool'.queues a op

end Pool

end Guard

section Steps

theorem getElem?_queues (h : pool.bufs[i]? = some b) : pool.queues[i]? = some b.contents := by
  simp [Pool.queues, h]

theorem sum_allocation_set {bufs : List Buf} (hb : bufs[i]? = some b) (b' : Buf) :
    ((bufs.set i b').map bufAllocation).sum + bufAllocation b =
      (bufs.map bufAllocation).sum + bufAllocation b' := by
  induction bufs generalizing i with
  | nil => simp at hb
  | cons d bufs ih =>
    cases i with
    | zero =>
      obtain rfl : d = b := by simpa using hb
      simp only [List.set_cons_zero, List.map_cons, List.sum_cons]
      omega
    | succ i =>
      have hrest := ih (by simpa using hb)
      simp only [List.set_cons_succ, List.map_cons, List.sum_cons]
      omega

/-- An operation on one buffer leaves the other ones alone. -/
theorem update_ok {f : ℕ → Buf → Option (ℕ × Buf × Answer)} {P : Buf → Answer → Prop}
    (h : pool.Ok) (hb : pool.bufs[i]? = some b)
    (hf : ∀ rest, ∃ b' a, f (allocated b.chunks + rest) b =
      some (allocated b'.chunks + rest, b', a) ∧ b'.Ok ∧ P b' a) :
    ∃ pool' b' a, pool.update i f = some (pool', a) ∧ pool'.Ok ∧
      pool'.bufs = pool.bufs.set i b' ∧ P b' a := by
  have hle : allocated b.chunks ≤ pool.total := by
    have hsum := sum_allocation_set hb bufNew
    rw [bufAllocation_eq b, ← h.total] at hsum
    have hnew : bufAllocation bufNew = 0 := rfl
    omega
  obtain ⟨rest, hrest⟩ := Nat.exists_eq_add_of_le hle
  obtain ⟨b', a, hfb, hok, hP⟩ := hf rest
  refine ⟨⟨allocated b'.chunks + rest, pool.bufs.set i b'⟩, b', a, ?_, ⟨?_, ?_⟩, rfl, hP⟩
  · simp only [Pool.update, hb, hrest, Option.bind_eq_bind, Option.bind_some, hfb]
    rfl
  · intro d hd
    rcases List.mem_or_eq_of_mem_set hd with hd | rfl
    · exact h.bufs d hd
    · exact hok
  · have hsum := sum_allocation_set hb b'
    rw [bufAllocation_eq, bufAllocation_eq, ← h.total, hrest] at hsum
    simp only
    omega

theorem queues_set (h : pool'.bufs = pool.bufs.set i b') :
    pool'.queues = pool.queues.set i b'.contents := by
  rw [Pool.queues, Pool.queues, h, List.map_set]

theorem queues_same (h : pool'.bufs = pool.bufs.set i b') (hb : pool.bufs[i]? = some b)
    (hsame : b'.contents = b.contents) : pool'.queues = pool.queues := by
  obtain ⟨hi, hget⟩ := List.getElem?_eq_some_iff.mp (getElem?_queues hb)
  rw [queues_set h, hsame, ← hget, List.set_getElem_self]

theorem Pool.Ok.addBuf (h : pool.Ok) (hb : b.Ok) (hnew : pool'.bufs = pool.bufs ++ [b])
    (htotal : pool'.total = pool.total + allocated b.chunks) : pool'.Ok := by
  constructor
  · intro d hd
    rw [hnew] at hd
    rcases List.mem_append.mp hd with hd | hd
    · exact h.bufs d hd
    · obtain rfl := List.mem_singleton.mp hd
      exact hb
  · rw [htotal, hnew, h.total]
    simp [bufAllocation_eq]

theorem bufNew_ok (size : ℕ) (h : minChunkAlloc ≤ size) :
    Buf.Ok { bufNew with defaultChunkSize := size } :=
  ⟨rfl, Nat.zero_le _, by simp [bufNew], by simp [bufNew], h⟩

theorem freeChunks_ok {chunks : List Chunk} (h : ∀ c ∈ chunks, c.Ok) (rest : ℕ) :
    freeChunks (allocated chunks + rest) chunks = some rest := by
  induction chunks with
  | nil => simp [freeChunks]
  | cons c chunks ih =>
    have hrest := ih fun d hd => h d (.tail _ hd)
    unfold freeChunks at hrest ⊢
    rw [List.foldlM_cons, allocated_cons, Nat.add_assoc, bufChunkFree_eq (h c (.head _))]
    exact hrest

theorem bufClear_ok (h : b.Ok) (rest : ℕ) : ∃ b', bufClear (allocated b.chunks + rest) b =
    some (allocated b'.chunks + rest, b') ∧ b'.Ok ∧ b'.contents = [] := by
  refine ⟨{ b with chunks := [], datalen := 0 }, ?_, ?_, rfl⟩
  · rw [bufClear, freeChunks_ok h.chunks]
    simp
  · exact ⟨rfl, Nat.zero_le _, by simp, by simp, h.defaultSize⟩

theorem copyChunks_ok {chunks : List Chunk} (h : ∀ c ∈ chunks, c.Ok) (total : ℕ) :
    Pool.copyChunks total chunks = (total + allocated chunks, chunks) := by
  induction chunks generalizing total with
  | nil => rfl
  | cons c chunks ih =>
    have hc : chunkCopy total c = (total + chunkAllocSize c.memlen, c) := by
      simp [chunkCopy, ← (h c (.head _)).alloc]
    simp only [Pool.copyChunks, hc, ih (fun d hd => h d (.tail _ hd)), allocated_cons, Nat.add_assoc]

end Steps

section Move

theorem getElem?_moveQueue {j : ℕ} : (moveQueue qs out inn n)[j]? =
    (qs[j]?).map fun q => (if inn = j then q.drop n else q) ++
      if out = j then (qs[inn]?.getD []).take n else [] := by
  simp only [moveQueue, List.getElem?_modify]
  cases qs[j]? with
  | none => simp
  | some q =>
    by_cases hout : out = j
    · by_cases hin : inn = j <;> simp [hout, hin]
    · by_cases hin : inn = j <;> simp [hout, hin]

/-- Two moves are as good as one. -/
theorem moveQueue_add {m : ℕ} (hq : qs[inn]? = some q) (hlen : n + m ≤ q.length) :
    moveQueue (moveQueue qs out inn n) out inn m = moveQueue qs out inn (n + m) := by
  apply List.ext_getElem?
  intro j
  have hin : (moveQueue qs out inn n)[inn]? = some (q.drop n ++ if out = inn then q.take n else []) := by
    rw [getElem?_moveQueue, hq]
    simp
  have htake : (q.drop n ++ if out = inn then q.take n else []).take m = (q.drop n).take m :=
    List.take_append_of_le_length (by rw [List.length_drop]; omega)
  rw [getElem?_moveQueue, hin, getElem?_moveQueue, getElem?_moveQueue, hq]
  cases hr : qs[j]? with
  | none => rfl
  | some r =>
    simp only [Option.map_some, Option.getD_some, htake, Option.some.injEq]
    by_cases hj : inn = j
    · subst hj
      cases hq.symm.trans hr
      by_cases hout : out = inn
      · simp only [hout, if_true]
        rw [List.drop_append_of_le_length (by rw [List.length_drop]; omega), List.drop_drop,
          List.append_assoc, ← List.take_add]
      · simp [hout, List.drop_drop]
    · by_cases hout : out = j
      · simp only [if_neg hj, if_pos hout]
        rw [List.append_assoc, ← List.take_add]
      · simp [hj, hout]

theorem moveBytes_ok (h : pool.Ok) (hout : out < pool.bufs.length)
    (hin : pool.bufs[inn]? = some b) (hn : n ≤ b.contents.length) (hmax : n ≤ bufMaxLen)
    (hroom : ∀ d, out ≠ inn → pool.bufs[out]? = some d → d.contents.length + n ≤ bufMaxLen) :
    ∃ pool', pool.moveBytes out inn n = some pool' ∧ pool'.Ok ∧
      pool'.queues = moveQueue pool.queues out inn n := by
  obtain ⟨pool₁, b₁, a₁, hstep₁, hok₁, hbufs₁, hb₁, ha₁⟩ := update_ok
    (f := fun total buf => (bufGetBytes total buf n).map fun r => (r.1, r.2.1, ⟨0, r.2.2, 0⟩))
    (P := fun b' a => b'.contents = b.contents.drop n ∧ a.data = b.contents.take n) h hin (by
      intro rest
      obtain ⟨b', hget, hok, hcontents⟩ := bufGetBytes_ok (h.bufs b (List.mem_of_getElem? hin)) hn rest
      exact ⟨b', ⟨0, b.contents.take n, 0⟩, by rw [hget]; rfl, hok, hcontents, rfl⟩)
  obtain ⟨d, hd⟩ : ∃ d, pool₁.bufs[out]? = some d :=
    ⟨_, List.getElem?_eq_getElem (by rw [hbufs₁, List.length_set]; exact hout)⟩
  have hlen : a₁.data.length = n := by
    rw [ha₁, List.length_take]
    exact Nat.min_eq_left hn
  have hd_ok := hok₁.bufs d (List.mem_of_getElem? hd)
  have hfits : d.contents.length + a₁.data.length ≤ bufMaxLen := by
    rw [hlen]
    by_cases hsame : out = inn
    · subst hsame
      obtain ⟨hlt, -⟩ := List.getElem?_eq_some_iff.mp hin
      rw [hbufs₁, List.getElem?_set_self hlt] at hd
      cases hd
      have hb := (h.bufs b (List.mem_of_getElem? hin)).bound
      rw [(h.bufs b (List.mem_of_getElem? hin)).datalen] at hb
      rw [hb₁, List.length_drop]
      omega
    · rw [hbufs₁, List.getElem?_set_ne (Ne.symm hsame)] at hd
      exact hroom d hsame hd
  obtain ⟨pool₂, b₂, a₂, hstep₂, hok₂, hbufs₂, hb₂⟩ := update_ok
    (f := fun total buf => (bufAdd total buf a₁.data).map fun r => (r.1, r.2.1, ⟨r.2.2, [], 0⟩))
    (P := fun b' _ => b'.contents = d.contents ++ a₁.data) hok₁ hd (by
      intro rest
      have hle : a₁.data.length ≤ bufMaxLen := by omega
      obtain ⟨b', ret, hadd, hok, hcontents⟩ := bufAdd_ok hd_ok hle rest
      rw [if_pos hfits] at hcontents
      exact ⟨b', ⟨ret, [], 0⟩, by rw [hadd]; rfl, hok, hcontents.1⟩)
  refine ⟨pool₂, ?_, hok₂, ?_⟩
  · simp only [Pool.moveBytes, hstep₁, Option.bind_eq_bind, Option.bind_some, hstep₂]
    rfl
  · have hinq := getElem?_queues hin
    have houtq := getElem?_queues hd
    rw [queues_set hbufs₂, hb₂, ha₁, moveQueue, hinq]
    have hfirst : pool₁.queues = pool.queues.modify inn (List.drop n) := by
      rw [queues_set hbufs₁, hb₁, List.modify_eq_set, hinq]
      rfl
    rw [hfirst] at houtq ⊢
    rw [List.modify_eq_set _ out, houtq]
    rfl

theorem length_moveQueue : (moveQueue qs out inn n).length = qs.length := by
  simp [moveQueue]

theorem moveLoop_ok {fuel len : ℕ} (h : pool.Ok) (hout : out < pool.bufs.length)
    (hin : pool.queues[inn]? = some q) (hlen : len ≤ q.length) (hfuel : len ≤ fuel)
    (hroom : ∀ r, out ≠ inn → pool.queues[out]? = some r → r.length + len ≤ bufMaxLen) :
    ∃ pool', Pool.moveLoop out inn fuel pool len = some pool' ∧ pool'.Ok ∧
      pool'.queues = moveQueue pool.queues out inn len := by
  induction fuel generalizing pool q len with
  | zero =>
    obtain rfl : len = 0 := by omega
    refine ⟨pool, rfl, h, List.ext_getElem? fun j => ?_⟩
    rw [getElem?_moveQueue]
    cases pool.queues[j]? <;> simp
  | succ fuel ih =>
    cases len with
    | zero =>
      refine ⟨pool, rfl, h, List.ext_getElem? fun j => ?_⟩
      rw [getElem?_moveQueue]
      cases pool.queues[j]? <;> simp
    | succ len =>
      let n := min (len + 1) 4096
      obtain ⟨b, hb, rfl⟩ : ∃ b, pool.bufs[inn]? = some b ∧ b.contents = q := by
        simpa [Pool.queues] using hin
      have hmax : n ≤ bufMaxLen := Nat.le_trans (Nat.min_le_right _ _) (by decide)
      obtain ⟨pool₁, hstep, hok, hqueues⟩ := moveBytes_ok (n := n) h hout hb (by omega) hmax
        (fun d hne hd => by
          have hd' := hroom d.contents hne (getElem?_queues hd)
          omega)
      have hout₁ : out < pool₁.bufs.length := by
        have hlen₁ := congrArg List.length hqueues
        simp only [length_moveQueue, Pool.queues, List.length_map] at hlen₁
        omega
      have hin₁ : pool₁.queues[inn]? =
          some (b.contents.drop n ++ if out = inn then b.contents.take n else []) := by
        rw [hqueues, getElem?_moveQueue, hin]
        simp
      obtain ⟨pool', hloop, hok', hqueues'⟩ := @ih pool₁ _ (len + 1 - n) hok hout₁ hin₁
        (by simp only [List.length_append, List.length_drop]; omega) (by omega) (by
          intro r hne hr
          rw [hqueues, getElem?_moveQueue] at hr
          obtain ⟨r₀, hr₀, rfl⟩ := Option.map_eq_some_iff.mp hr
          have hfits := hroom r₀ hne hr₀
          simp only [if_neg (Ne.symm hne), if_true, hin, Option.getD_some, List.length_append,
            List.length_take]
          omega)
      refine ⟨pool', ?_, hok', ?_⟩
      · rw [Pool.moveLoop, hstep, Option.bind_some]
        exact hloop
      · rw [hqueues', hqueues, moveQueue_add hin (by omega)]
        congr 1
        omega

theorem bufMoveToBuf_ok {flushlen : ℕ} (h : pool.Ok) (hout : out < pool.bufs.length)
    (hin : inn < pool.bufs.length) : pool.Refines (.moveToBuf out inn flushlen) := by
  obtain ⟨d, hd⟩ : ∃ d, pool.bufs[out]? = some d := ⟨_, List.getElem?_eq_getElem hout⟩
  obtain ⟨b, hb⟩ : ∃ b, pool.bufs[inn]? = some b := ⟨_, List.getElem?_eq_getElem hin⟩
  have hd_ok := h.bufs d (List.mem_of_getElem? hd)
  have hb_ok := h.bufs b (List.mem_of_getElem? hb)
  have hdatalen := hd_ok.datalen
  simp only [Pool.Refines, Pool.step, Pool.bufMoveToBuf, hd, hb, Option.bind_eq_bind, Option.bind_some]
  by_cases hroom : d.contents.length + flushlen ≤ bufMaxLen
  · have hdone : ¬ (bufMaxLen < d.datalen ∨ bufMaxLen < flushlen ∨
        roomFor flushlen < d.datalen) := by
      rw [roomFor_eq (by omega)]
      omega
    have hle : min flushlen b.datalen ≤ b.contents.length := by
      rw [hb_ok.datalen]
      exact Nat.min_le_right _ _
    obtain ⟨pool', hloop, hok, hqueues⟩ := moveLoop_ok h hout (getElem?_queues hb) hle
      (Nat.le_refl (min flushlen b.datalen)) (by
        intro r _ hr
        cases (getElem?_queues hd).symm.trans hr
        omega)
    refine ⟨pool', ⟨(min flushlen b.datalen : ℕ), [], flushlen - min flushlen b.datalen⟩, ?_, hok,
      d.contents, b.contents, getElem?_queues hd, getElem?_queues hb, ?_⟩
    · rw [if_neg hdone, hloop]
      rfl
    · rw [if_pos hroom, hqueues, hb_ok.datalen]
      exact ⟨rfl, rfl, rfl⟩
  · have hfull : bufMaxLen < d.datalen ∨ bufMaxLen < flushlen ∨ roomFor flushlen < d.datalen := by
      by_cases hlen : flushlen ≤ bufMaxLen
      · rw [roomFor_eq hlen]
        omega
      · omega
    refine ⟨pool, ⟨-1, [], flushlen⟩, if_pos hfull, h, d.contents, b.contents, getElem?_queues hd,
      getElem?_queues hb, ?_⟩
    rw [if_neg hroom]
    exact ⟨rfl, rfl⟩

/-- The chunks of a buffer are put behind those of another one, whose tail is not empty. -/
theorem Buf.Ok.append {d : Buf} (hd : d.Ok) (hb : b.Ok) (hfilled : TailFilled d.chunks)
    (hbound : d.datalen + b.datalen ≤ bufMaxLen) : Buf.Ok { d with
      chunks := d.chunks ++ b.chunks, datalen := d.datalen + b.datalen } := by
  refine ⟨?_, hbound, ?_, ?_, hd.defaultSize⟩
  · simp [Buf.contents, hd.datalen, hb.datalen]
  · intro c hc
    rcases List.mem_append.mp hc with hc | hc
    · exact hd.chunks c hc
    · exact hb.chunks c hc
  · intro c hc
    have hall : ∀ c ∈ d.chunks, c.data ≠ [] := by
      intro c hc
      obtain ⟨init, tail, hchunks⟩ := exists_tail (List.ne_nil_of_mem hc)
      rw [hchunks] at hc
      rcases List.mem_append.mp hc with hinit | htail
      · exact hd.nonempty c (by simpa [hchunks] using hinit)
      · obtain rfl := List.mem_singleton.mp htail
        exact hfilled c (by simp [hchunks])
    cases hchunks : b.chunks with
    | nil =>
      simp only [hchunks, List.append_nil] at hc
      exact hall c (List.mem_of_mem_dropLast hc)
    | cons e chunks =>
      simp only [hchunks] at hc
      rw [List.dropLast_append_of_ne_nil (by simp)] at hc
      rcases List.mem_append.mp hc with hc | hc
      · exact hall c hc
      · exact hb.nonempty c (by rwa [hchunks])

theorem bufMoveAll_ok (h : pool.Ok) (hout : out < pool.bufs.length) (hin : inn < pool.bufs.length)
    (hsafe : Op.Safe pool (.moveAll out inn)) : pool.Refines (.moveAll out inn) := by
  obtain ⟨d, hd⟩ : ∃ d, pool.bufs[out]? = some d := ⟨_, List.getElem?_eq_getElem hout⟩
  obtain ⟨b, hb⟩ : ∃ b, pool.bufs[inn]? = some b := ⟨_, List.getElem?_eq_getElem hin⟩
  have hd_ok := h.bufs d (List.mem_of_getElem? hd)
  have hb_ok := h.bufs b (List.mem_of_getElem? hb)
  have hdq := getElem?_queues hd
  have hbq := getElem?_queues hb
  have hself : ∀ {i : ℕ} {q : Bytes}, pool.queues[i]? = some q → pool.queues.set i q = pool.queues := by
    intro i q hq
    obtain ⟨hi, hget⟩ := List.getElem?_eq_some_iff.mp hq
    rw [← hget, List.set_getElem_self]
  have hdlen := hd_ok.datalen
  have hblen := hb_ok.datalen
  have hdmax := hd_ok.bound
  have hbmax := hb_ok.bound
  simp only [Pool.Refines, Pool.step, Pool.bufMoveAll, hd, hb, Option.bind_eq_bind, Option.bind_some]
  by_cases hnone : b.datalen = 0
  · have hnil : b.contents = [] := List.eq_nil_of_length_eq_zero (by omega)
    refine ⟨pool, ⟨0, [], 0⟩, if_pos hnone, h, d.contents, b.contents, hdq, hbq, ?_⟩
    rw [hnil, if_pos (by rw [List.length_nil]; omega), List.append_nil, hself hdq]
    exact ⟨(hself (hnil ▸ hbq)).symm, rfl⟩
  · rw [if_neg hnone, if_neg (by omega)]
    by_cases hfull : bufMaxLen - b.datalen < d.datalen
    · refine ⟨pool, ⟨0, [], 0⟩, if_pos hfull, h, d.contents, b.contents, hdq, hbq, ?_⟩
      rw [if_neg (by omega)]
      exact ⟨rfl, rfl⟩
    · rcases hsafe d b hd hb with ⟨hne, hfilled⟩ | hempty | hlong
      · let moved : Buf := { d with
          chunks := d.chunks ++ b.chunks, datalen := d.datalen + b.datalen }
        let emptied : Buf := { b with chunks := [], datalen := 0 }
        have hmoved : moved.Ok := hd_ok.append hb_ok hfilled (by omega)
        have hemptied : emptied.Ok :=
          ⟨rfl, Nat.zero_le _, by simp [emptied], by simp [emptied], hb_ok.defaultSize⟩
        have hb' : (pool.bufs.set out moved)[inn]? = some b := by
          rw [List.getElem?_set_ne hne, hb]
        refine ⟨{ pool with bufs := (pool.bufs.set out moved).set inn emptied },
          ⟨b.datalen, [], 0⟩, if_neg hfull, ⟨?_, ?_⟩, d.contents, b.contents, hdq, hbq, ?_⟩
        · intro e he
          rcases List.mem_or_eq_of_mem_set he with he | rfl
          · rcases List.mem_or_eq_of_mem_set he with he | rfl
            · exact h.bufs e he
            · exact hmoved
          · exact hemptied
        · have hsum := sum_allocation_set hd moved
          have hsum' := sum_allocation_set hb' emptied
          have hmoved_alloc : bufAllocation moved = bufAllocation d + bufAllocation b :=
            allocated_append _ _
          have hemptied_alloc : bufAllocation emptied = 0 := rfl
          simp only [h.total]
          omega
        · have hcontents : moved.contents = d.contents ++ b.contents := contents_append _ _
          rw [if_pos (by omega), hblen]
          refine ⟨?_, rfl⟩
          simp only [Pool.queues, List.map_set, hcontents]
          rfl
      · exact absurd hempty hnone
      · omega

theorem bufCopy_ok (h : pool.Ok) (hi : i < pool.bufs.length) : pool.Refines (.copy i) := by
  obtain ⟨b, hb⟩ : ∃ b, pool.bufs[i]? = some b := ⟨_, List.getElem?_eq_getElem hi⟩
  have hb_ok := h.bufs b (List.mem_of_getElem? hb)
  have hcopy := copyChunks_ok hb_ok.chunks pool.total
  have hstep : pool.bufCopy i =
      some (⟨pool.total + allocated b.chunks, pool.bufs ++ [b]⟩, ⟨0, [], 0⟩) := by
    simp only [Pool.bufCopy, hb, Option.bind_eq_bind, Option.bind_some, hcopy]
    rfl
  refine ⟨_, _, hstep, h.addBuf hb_ok rfl rfl, b.contents, getElem?_queues hb, ?_⟩
  simp [Pool.queues]

end Move

section Operations
variable {string : Bytes} {atMost : ℕ}

section
variable (h : pool.Ok)
include h

section
variable (hi : i < pool.bufs.length)
include hi

theorem Pool.Ok.exists_buf : ∃ b, pool.bufs[i]? = some b ∧ b.Ok :=
  ⟨_, List.getElem?_eq_getElem hi, h.bufs _ (List.getElem_mem hi)⟩

theorem stepClear_ok : pool.Refines (.clear i) := by
  obtain ⟨b, hb, hok⟩ := h.exists_buf hi
  obtain ⟨pool', b', a, hstep, hok', hbufs, hcontents⟩ := update_ok
    (f := fun total buf => (bufClear total buf).map fun r => (r.1, r.2, ⟨0, [], 0⟩))
    (P := fun b' _ => b'.contents = []) h hb (by
      intro rest
      obtain ⟨b', hclear, hok', hcontents⟩ := bufClear_ok hok rest
      exact ⟨b', ⟨0, [], 0⟩, by rw [hclear]; rfl, hok', hcontents⟩)
  refine ⟨pool', a, hstep, hok', ?_⟩
  rw [QueueStep, queues_set hbufs, hcontents]

theorem stepAdd_ok
    (hsafe : string.length ≤ bufMaxLen) : pool.Refines (.add i string) := by
  obtain ⟨b, hb, hok⟩ := h.exists_buf hi
  obtain ⟨pool', b', a, hstep, hok', hbufs, hadded⟩ := update_ok
    (f := fun total buf => (bufAdd total buf string).map fun r => (r.1, r.2.1, ⟨r.2.2, [], 0⟩))
    (P := fun b' a => if b.contents.length + string.length ≤ bufMaxLen then
      b'.contents = b.contents ++ string ∧ a.ret = (b.contents ++ string).length
      else b' = b ∧ a.ret = -1) h hb (by
      intro rest
      obtain ⟨b', ret, hadd, hok', hadded⟩ := bufAdd_ok hok hsafe rest
      exact ⟨b', ⟨ret, [], 0⟩, by rw [hadd]; rfl, hok', hadded⟩)
  refine ⟨pool', a, hstep, hok', b.contents, getElem?_queues hb, ?_⟩
  by_cases hroom : b.contents.length + string.length ≤ bufMaxLen
  · rw [if_pos hroom] at hadded ⊢
    exact ⟨by rw [queues_set hbufs, hadded.1], hadded.2⟩
  · rw [if_neg hroom] at hadded ⊢
    exact ⟨queues_same hbufs hb (by rw [hadded.1]), hadded.2⟩

theorem stepRead_ok (hsafe : atMost ≤ bufMaxLen) (stream : Bytes) (calls : List Call) :
    pool.Refines (.read i atMost stream calls) := by
  obtain ⟨b, hb, hok⟩ := h.exists_buf hi
  obtain ⟨pool', b', a, hstep, hok', hbufs, k, hmost, hk, hcontents, hleft, hret⟩ := update_ok
    (f := fun total buf => (bufReadFromFd total buf atMost stream calls).map
      fun r => (r.1, r.2.1, ⟨r.2.2.ret, r.2.2.stream, 0⟩))
    (P := fun b' a => ∃ k ≤ atMost, k ≤ stream.length ∧
      b'.contents = b.contents ++ stream.take k ∧ a.data = stream.drop k ∧
      (a.ret = (k : ℕ) ∨ a.ret = -1)) h hb (by
      intro rest
      obtain ⟨b', got, k, hread, hok', hmost, hk, hgot⟩ :=
        bufReadFromFd_ok hok hsafe stream calls rest
      exact ⟨b', ⟨got.ret, got.stream, 0⟩, by rw [hread]; rfl, hok', k, hmost, hk, hgot⟩)
  refine ⟨pool', a, hstep, hok', b.contents, k, getElem?_queues hb, hmost, hk, ?_, hleft, hret⟩
  rw [queues_set hbufs, hcontents]

end

theorem stepDrain_ok (hlegal : ∃ b, pool.bufs[i]? = some b ∧ n ≤ b.datalen) :
    pool.Refines (.drain i n) := by
  obtain ⟨b, hb, hn⟩ := hlegal
  have hok := h.bufs b (List.mem_of_getElem? hb)
  obtain ⟨pool', b', a, hstep, hok', hbufs, hcontents⟩ := update_ok
    (f := fun total buf => (bufDrain total buf n).map fun r => (r.1, r.2, ⟨0, [], 0⟩))
    (P := fun b' _ => b'.contents = b.contents.drop n) h hb (by
      intro rest
      obtain ⟨b', hdrain, hok', hcontents⟩ := bufDrain_ok hok (hok.datalen ▸ hn) rest
      exact ⟨b', ⟨0, [], 0⟩, by rw [hdrain]; rfl, hok', hcontents⟩)
  refine ⟨pool', a, hstep, hok', b.contents, getElem?_queues hb, ?_⟩
  rw [queues_set hbufs, hcontents]

theorem stepGetBytes_ok (hlegal : ∃ b, pool.bufs[i]? = some b ∧ n ≤ b.datalen) :
    pool.Refines (.getBytes i n) := by
  obtain ⟨b, hb, hn⟩ := hlegal
  have hok := h.bufs b (List.mem_of_getElem? hb)
  obtain ⟨pool', b', a, hstep, hok', hbufs, hcontents, hdata, hret⟩ := update_ok
    (f := fun total buf => (bufGetBytes total buf n).map fun r =>
      (r.1, r.2.1, ⟨r.2.1.datalen, r.2.2, 0⟩))
    (P := fun b' a => b'.contents = b.contents.drop n ∧ a.data = b.contents.take n ∧
      a.ret = (b.contents.drop n).length) h hb (by
      intro rest
      obtain ⟨b', hgot, hok', hcontents⟩ := bufGetBytes_ok hok (hok.datalen ▸ hn) rest
      refine ⟨b', ⟨b'.datalen, b.contents.take n, 0⟩, by rw [hgot]; rfl, hok', hcontents, rfl, ?_⟩
      rw [hok'.datalen, hcontents])
  refine ⟨pool', a, hstep, hok', b.contents, getElem?_queues hb, ?_, hdata, hret⟩
  rw [queues_set hbufs, hcontents]

theorem stepPullup_ok (hi : i < pool.bufs.length) (bytes : ℕ) : pool.Refines (.pullup i bytes) := by
  obtain ⟨b, hb, hok⟩ := h.exists_buf hi
  obtain ⟨pool', b', a, hstep, hok', hbufs, hcontents, hstart, hlen⟩ := update_ok
    (f := fun total buf => (bufPullup total buf bytes).map fun r =>
      (r.1, r.2.1, ⟨0, r.2.2, r.2.2.length⟩))
    (P := fun b' a => b'.contents = b.contents ∧ a.data <+: b.contents ∧
      min bytes b.contents.length ≤ a.data.length) h hb (by
      intro rest
      obtain ⟨b', start, hpull, hok', hcontents, hstart, hlen⟩ := bufPullup_ok hok bytes rest
      exact ⟨b', ⟨0, start, start.length⟩, by rw [hpull]; rfl, hok', hcontents, hstart, hlen⟩)
  exact ⟨pool', a, hstep, hok', b.contents, getElem?_queues hb, queues_same hbufs hb hcontents,
    hstart, hlen⟩

theorem stepGetLine_ok (hi : i < pool.bufs.length) (dataLen : ℕ) :
    pool.Refines (.getLine i dataLen) := by
  obtain ⟨b, hb, hok⟩ := h.exists_buf hi
  obtain ⟨pool', b', a, hstep, hok', hbufs, hline⟩ := update_ok
    (f := fun total buf => (bufGetLine total buf dataLen).map
      fun r => (r.1, r.2.1, ⟨r.2.2.1, r.2.2.2.1, r.2.2.2.2⟩))
    (P := fun b' a => match b.contents.findIdx? fun b => b = 10 with
      | none => b' = b ∧ a.ret = 0
      | some sz =>
        if dataLen < sz + 2 then b' = b ∧ a.ret = -1 ∧ a.len = sz + 2
        else b'.contents = b.contents.drop (sz + 1) ∧ a.ret = 1 ∧
          a.data = b.contents.take (sz + 1) ∧ a.len = sz + 1) h hb (by
      intro rest
      obtain ⟨b', ret, line, len, hgot, hok', hline⟩ := bufGetLine_ok hok dataLen rest
      exact ⟨b', ⟨ret, line, len⟩, by rw [hgot]; rfl, hok', hline⟩)
  refine ⟨pool', a, hstep, hok', b.contents, getElem?_queues hb, ?_⟩
  cases hfind : b.contents.findIdx? fun b => decide (b = 10) with
  | none =>
    simp only [hfind] at hline ⊢
    exact ⟨queues_same hbufs hb (by rw [hline.1]), hline.2⟩
  | some sz =>
    simp only [hfind] at hline ⊢
    by_cases hlong : dataLen < sz + 2
    · rw [if_pos hlong] at hline ⊢
      exact ⟨queues_same hbufs hb (by rw [hline.1]), hline.2⟩
    · rw [if_neg hlong] at hline ⊢
      exact ⟨by rw [queues_set hbufs, hline.1], hline.2⟩

end

end Operations

section Runs

/-- An operation that the callers may ask for, where it is safe, does to the buffers what it
should do to the queues. -/
theorem step_ok (h : pool.Ok) {op : Op} (hguard : op.Guard pool) : pool.Refines op := by
  obtain ⟨hlegal, hsafe⟩ := hguard
  cases op with
  | new =>
    refine ⟨_, _, rfl, h.addBuf (bufNew_ok 4096 (by decide)) rfl rfl, ?_⟩
    simp [QueueStep, Pool.queues, Buf.contents, bufNew]
  | newWithCapacity size =>
    obtain ⟨sz, hsz, -, hmin⟩ := bufPreferredChunkSize_eq hlegal
    refine ⟨⟨pool.total, pool.bufs ++ [{ bufNew with defaultChunkSize := sz }]⟩, ⟨0, [], 0⟩, ?_,
      h.addBuf (bufNew_ok sz hmin) rfl rfl, ?_⟩
    · simp [Pool.step, bufNewWithCapacity, hsz]
    · simp [QueueStep, Pool.queues, Buf.contents, bufNew]
  | clear i => exact stepClear_ok h hlegal
  | add i string => exact stepAdd_ok h hlegal hsafe
  | read i atMost stream calls => exact stepRead_ok h hlegal hsafe stream calls
  | drain i n => exact stepDrain_ok h hlegal
  | getBytes i len => exact stepGetBytes_ok h hlegal
  | pullup i bytes => exact stepPullup_ok h hlegal bytes
  | moveToBuf out inn flushlen => exact bufMoveToBuf_ok h hlegal.1 hlegal.2
  | moveAll out inn => exact bufMoveAll_ok h hlegal.1 hlegal.2 hsafe
  | copy i => exact bufCopy_ok h hlegal
  | getLine i dataLen => exact stepGetLine_ok h hlegal dataLen

theorem Pool.Ok.start : Pool.start.Ok := ⟨by simp [Pool.start], rfl⟩

theorem runOps_ok {ops : List Op} (h : pool.Ok)
    (hguard : Guarded Pool.next (fun pool op => op.Guard pool) pool ops) :
    ∃ pool' answers, pool.runOps ops = some (pool', answers) ∧ pool'.Ok ∧
      QueueRun pool.queues ops answers pool'.queues := by
  induction ops generalizing pool with
  | nil => exact ⟨pool, [], rfl, h, rfl⟩
  | cons op ops ih =>
    obtain ⟨pool₁, a, hstep, hok, hqueues⟩ := step_ok h hguard.1
    have hnext : pool.next op = some pool₁ := by rw [Pool.next, hstep]; rfl
    obtain ⟨pool', answers, hrun, hok', hrest⟩ := ih hok (hguard.2 pool₁ hnext)
    refine ⟨pool', a :: answers, ?_, hok', pool₁.queues, hqueues, hrest⟩
    simp [Pool.runOps, hstep, hrun]

/-- Where no operation goes behind an empty tail the buffers are queues of bytes: every answer is
that of the queues, the chunks hold the bytes of the queues, and all but the last one of each
buffer hold some, what has been allocated is what they take, and a string is found where it first
occurs. -/
theorem buffers_refine_queues (ops : List Op)
    (h : Guarded Pool.next (fun pool op => op.Guard pool) Pool.start ops) :
    ∃ pool answers, Pool.start.runOps ops = some (pool, answers) ∧
      QueueRun [] ops answers (pool.bufs.map fun b => b.chunks.flatMap Chunk.data) ∧
      (∀ b ∈ pool.bufs, bufAssertOk b = true ∧ ∀ c ∈ b.chunks.dropLast, c.data ≠ []) ∧
      pool.total = (pool.bufs.map bufAllocation).sum ∧
      ∀ b ∈ pool.bufs, ∀ s, Searchable b s → bufFindStringOffset b s =
        some (match firstOffset s (b.chunks.flatMap Chunk.data) with
          | some k => (k : ℤ)
          | none => -1) := by
  obtain ⟨pool, answers, hrun, hok, hqueues⟩ := runOps_ok Pool.Ok.start h
  refine ⟨pool, answers, hrun, hqueues, ?_, hok.total, ?_⟩
  · intro b hb
    exact ⟨(hok.bufs b hb).assertOk, (hok.bufs b hb).nonempty⟩
  · intro b hb s hs
    exact bufFindStringOffset_ok (hok.bufs b hb) hs

def readLine : List Op := [.new, .read 0 100 [79, 75, 10] [.deliver 3], .getLine 0 100]

/-- A line is read, and taken. -/
theorem buffers_refine_queues_line : ∃ pool answers, Pool.start.runOps readLine =
    some (pool, answers) ∧ QueueRun [] readLine answers [[]] := by
  have hlegal : Guarded Pool.next (fun pool op => op.Legal pool) Pool.start readLine := by decide
  have hguard : Guarded Pool.next (fun pool op => op.Guard pool) Pool.start readLine :=
    ⟨⟨trivial, trivial⟩, fun _ hnew => ⟨⟨(hlegal.2 _ hnew).1, show 100 ≤ bufMaxLen by decide⟩,
      fun _ hread => ⟨⟨((hlegal.2 _ hnew).2 _ hread).1, trivial⟩, fun _ _ => trivial⟩⟩⟩
  obtain ⟨pool, answers, hrun, hqueues, -⟩ := buffers_refine_queues readLine hguard
  have hempty : (Pool.start.runOps readLine).map (fun r => r.1.queues) = some [[]] := by decide
  refine ⟨pool, answers, hrun, ?_⟩
  have hpool : pool.queues = [[]] := by simpa [hrun] using hempty
  exact hpool ▸ hqueues

/-- Bytes are moved behind the empty chunk of a read that has delivered nothing. -/
def moveBehindEmpty : List Op :=
  [.new, .new, .read 0 10 [] [.deliver 0], .add 1 [120], .moveAll 0 1]

/-- A full chunk, and an empty one of a read that has delivered nothing. -/
def readAfterFull : List Op :=
  [.newWithCapacity 100, .add 0 (List.replicate 201 120), .read 0 10 [] [.deliver 0]]

/-- Behind a read that has delivered nothing bytes are moved after an empty chunk; and a search
goes on into such a chunk where the bytes end before the string does. -/
theorem buffers_with_empty_tail :
    (¬ ∀ ops, Guarded Pool.next (fun pool op => op.Legal pool) Pool.start ops →
      ∀ pool answers, Pool.start.runOps ops = some (pool, answers) →
        ∀ b ∈ pool.bufs, ∀ c ∈ b.chunks.dropLast, c.data ≠ []) ∧
    ¬ ∀ ops, Guarded Pool.next (fun pool op => op.Legal pool) Pool.start ops →
      ∀ pool answers, Pool.start.runOps ops = some (pool, answers) →
        ∀ b ∈ pool.bufs, ∀ s ≠ [], (bufFindStringOffset b s).isSome := by
  constructor
  · intro h
    have hempty : (Pool.start.runOps moveBehindEmpty).map (fun r =>
        r.1.bufs.all fun b => b.chunks.dropLast.all fun c => c.data ≠ []) = some false := by decide
    obtain ⟨⟨pool, answers⟩, hrun, hall⟩ := Option.map_eq_some_iff.mp hempty
    have hnonempty := h moveBehindEmpty (by decide) pool answers hrun
    have htrue : (pool.bufs.all fun b => b.chunks.dropLast.all fun c => c.data ≠ []) = true := by
      simpa using hnonempty
    exact Bool.noConfusion (hall.symm.trans htrue)
  · intro h
    have hfails : (Pool.start.runOps readAfterFull).map (fun r =>
        r.1.bufs.all fun b => (bufFindStringOffset b [120, 13]).isSome) = some false := by
      decide +kernel
    obtain ⟨⟨pool, answers⟩, hrun, hall⟩ := Option.map_eq_some_iff.mp hfails
    have hfound := h readAfterFull (by decide +kernel) pool answers hrun
    have htrue : (pool.bufs.all fun b => (bufFindStringOffset b [120, 13]).isSome) = true :=
      List.all_eq_true.mpr fun b hb => hfound b hb [120, 13] (by decide)
    exact Bool.noConfusion (hall.symm.trans htrue)

end Runs

end TorDaemon.Buffers
