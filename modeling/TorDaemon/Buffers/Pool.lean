import TorDaemon.Common
import TorDaemon.Library.NetworkOrder

/-! Buffers as lists of chunks (`buffers.c`, `buffers_net.c`). A function that allocates or
frees chunks takes `total_bytes_allocated_in_chunks` with it. The head of a buffer is its first
chunk and the tail its last one; both pointers are NULL where there is none. -/
namespace TorDaemon.Buffers
open Library.NetworkOrder

def bufMaxLen : ℕ := 2 ^ 31 - 2

/-- The number of values of a `size_t`. -/
def sizeT : ℕ := 2 ^ 64

/-- The header of a chunk, and the sentinel after its memory. -/
def chunkOverhead : ℕ := 48

def chunkAllocSize (memlen : ℕ) : ℕ := chunkOverhead + memlen

def chunkSizeWithAlloc (alloc : ℕ) : ℕ := alloc - chunkOverhead

def minChunkAlloc : ℕ := 256

def maxChunkAlloc : ℕ := 65536

def minReadLen : ℕ := 8

/-- `chunk_t`. The bytes that are stored begin at an offset into the memory. -/
structure Chunk where
  memlen : ℕ
  dbgAlloc : ℕ
  offset : ℕ
  data : Bytes

structure Buf where
  chunks : List Chunk
  datalen : ℕ
  defaultChunkSize : ℕ

section Chunk

def Chunk.remainingCapacity (c : Chunk) : ℕ := c.memlen - (c.offset + c.data.length)

def chunkRepack (c : Chunk) : Chunk := { c with offset := 0 }

def bufChunkFree (total : ℕ) (c : Chunk) : Option ℕ :=
  if chunkAllocSize c.memlen ≠ c.dbgAlloc then none
  else if total < chunkAllocSize c.memlen then none
  else some (total - chunkAllocSize c.memlen)

def chunkNewWithAllocSize (total alloc : ℕ) : ℕ × Chunk :=
  (total + alloc,
    { memlen := chunkSizeWithAlloc alloc, dbgAlloc := alloc, offset := 0, data := [] })

def chunkGrow (total : ℕ) (c : Chunk) (sz : ℕ) : Option (ℕ × Chunk) :=
  let origAlloc := chunkAllocSize c.memlen
  let newAlloc := chunkAllocSize sz
  if sz ≤ c.memlen ∨ c.dbgAlloc ≠ origAlloc then none
  else some (total + (newAlloc - origAlloc), { c with memlen := sz, dbgAlloc := newAlloc })

/-- The loop of `buf_preferred_chunk_size`, for so many rounds. -/
def doubleUntil (target : ℕ) : ℕ → ℕ → Option ℕ
  | 0, _ => none
  | fuel + 1, sz =>
    if chunkSizeWithAlloc sz < target then doubleUntil target fuel (sz <<< 1) else some sz

def bufPreferredChunkSize (target : ℕ) : Option ℕ :=
  if sizeTCeiling - chunkOverhead < target then none
  else if maxChunkAlloc ≤ chunkAllocSize target then some (chunkAllocSize target)
  else doubleUntil target 10 minChunkAlloc

def chunkCopy (total : ℕ) (c : Chunk) : ℕ × Chunk :=
  (total + chunkAllocSize c.memlen, { c with dbgAlloc := chunkAllocSize c.memlen })

end Chunk

section Buffer

def bufNew : Buf := { chunks := [], datalen := 0, defaultChunkSize := 4096 }

def bufNewWithCapacity (size : ℕ) : Option Buf :=
  (bufPreferredChunkSize size).map fun sz => { bufNew with defaultChunkSize := sz }

/-- The chunks of `buf_clear`, freed in turn. -/
def freeChunks (total : ℕ) (chunks : List Chunk) : Option ℕ := chunks.foldlM bufChunkFree total

def bufClear (total : ℕ) (buf : Buf) : Option (ℕ × Buf) :=
  (freeChunks total buf.chunks).map fun total => (total, { buf with chunks := [], datalen := 0 })

def bufAllocation (buf : Buf) : ℕ := (buf.chunks.map fun c => chunkAllocSize c.memlen).sum

def bufSlack (buf : Buf) : ℕ :=
  match buf.chunks.getLast? with
  | none => 0
  | some tail => tail.remainingCapacity

/-- The size to allocate in `buf_add_chunk_with_capacity`. -/
def newChunkAlloc (buf : Buf) (capacity : ℕ) (capped : Bool) : Option ℕ :=
  if chunkAllocSize capacity < buf.defaultChunkSize then some buf.defaultChunkSize
  else if capped ∧ maxChunkAlloc < chunkAllocSize capacity then some maxChunkAlloc
  else bufPreferredChunkSize capacity

def bufAddChunkWithCapacity (total : ℕ) (buf : Buf) (capacity : ℕ) (capped : Bool) :
    Option (ℕ × Buf × Chunk) :=
  (newChunkAlloc buf capacity capped).map fun alloc =>
    let (total, chunk) := chunkNewWithAllocSize total alloc
    (total, { buf with chunks := buf.chunks ++ [chunk] }, chunk)

/-- Bytes are written at the end of the tail, and counted in it and in the buffer. -/
def writeTail (buf : Buf) (bytes : Bytes) : Buf where
  chunks := buf.chunks.modifyLast fun tail => { tail with data := tail.data ++ bytes }
  datalen := buf.datalen + bytes.length
  defaultChunkSize := buf.defaultChunkSize

/-- `BUF_MAX_LEN` less a length, as a `size_t`. -/
def roomFor (len : ℕ) : ℕ := (bufMaxLen + sizeT - len) % sizeT

/-- A tail that something can be written to. -/
def ensureSlack (total : ℕ) (buf : Buf) (len : ℕ) : Option (ℕ × Buf) :=
  if bufSlack buf = 0 then
    (bufAddChunkWithCapacity total buf len true).map fun (total, buf, _) => (total, buf)
  else some (total, buf)

/-- The loop of `buf_add`, for so many rounds. -/
def addLoop : ℕ → ℕ → Buf → Bytes → Option (ℕ × Buf)
  | 0, _, _, _ => none
  | fuel + 1, total, buf, string =>
    if string = [] then some (total, buf)
    else do
      let (total, buf) ← ensureSlack total buf string.length
      let copy := min (bufSlack buf) string.length
      addLoop fuel total (writeTail buf (string.take copy)) (string.drop copy)

def bufAdd (total : ℕ) (buf : Buf) (string : Bytes) : Option (ℕ × Buf × ℤ) :=
  if string = [] then some (total, buf, buf.datalen)
  else if bufMaxLen < buf.datalen ∨ roomFor string.length < buf.datalen then some (total, buf, -1)
  else do
    let (total, buf) ← addLoop (string.length + 1) total buf string
    if bufMaxLen < buf.datalen then none else some (total, buf, buf.datalen)

def peekChunks : List Chunk → ℕ → Option Bytes
  | _, 0 => some []
  | [], _ + 1 => none
  | c :: chunks, len + 1 =>
    let copy := min c.data.length (len + 1)
    (peekChunks chunks (len + 1 - copy)).map fun rest => c.data.take copy ++ rest

def bufPeek (buf : Buf) (len : ℕ) : Option Bytes :=
  if buf.datalen < len then none else peekChunks buf.chunks len

/-- The loop of `buf_drain`. -/
def drainLoop (total : ℕ) (buf : Buf) : List Chunk → ℕ → Option (ℕ × Buf)
  | chunks, 0 => some (total, { buf with chunks := chunks })
  | [], _ + 1 => none
  | c :: chunks, n + 1 =>
    if n + 1 < c.data.length then
      some (total, { buf with
        chunks := { c with data := c.data.drop (n + 1), offset := c.offset + (n + 1) } :: chunks
        datalen := buf.datalen - (n + 1) })
    else
      (bufChunkFree total c).bind fun total =>
        drainLoop total { buf with datalen := buf.datalen - c.data.length } chunks
          (n + 1 - c.data.length)

def bufDrain (total : ℕ) (buf : Buf) (n : ℕ) : Option (ℕ × Buf) :=
  if buf.datalen < n then none else drainLoop total buf buf.chunks n

def bufGetBytes (total : ℕ) (buf : Buf) (len : ℕ) : Option (ℕ × Buf × Bytes) := do
  let string ← bufPeek buf len
  let (total, buf) ← bufDrain total buf len
  if bufMaxLen < buf.datalen then none else some (total, buf, string)

def bufAssertOk (buf : Buf) : Bool :=
  buf.datalen = (buf.chunks.map fun c => c.data.length).sum ∧ ∀ c ∈ buf.chunks,
    c.data.length ≤ c.memlen ∧ c.data.length ≤ bufMaxLen ∧ c.offset ≤ c.memlen ∧
      c.offset + c.data.length ≤ c.memlen

end Buffer

section Pullup

/-- The head with room for so many bytes. -/
def growHead (total : ℕ) (head : Chunk) (capacity : ℕ) : Option (ℕ × Chunk) :=
  if capacity ≤ head.memlen then
    let needed := capacity - head.data.length
    let head := if head.remainingCapacity < needed then chunkRepack head else head
    if head.remainingCapacity < needed then none else some (total, head)
  else do
    let alloc ← bufPreferredChunkSize capacity
    let (total, head) ← chunkGrow total (chunkRepack head) (chunkSizeWithAlloc alloc)
    if head.memlen < capacity then none else some (total, head)

/-- The loop of `buf_pullup`, with the chunks after the first. A `memcpy` past the end of the
memory is undefined. -/
def pullLoop (bytes : ℕ) : ℕ → Chunk → List Chunk → Option (ℕ × List Chunk)
  | total, dest, [] => if dest.data.length < bytes then none else some (total, [dest])
  | total, dest, src :: rest =>
    if dest.data.length < bytes then
      let n := bytes - dest.data.length
      if dest.remainingCapacity < min n src.data.length then none
      else if src.data.length ≤ n then
        (bufChunkFree total src).bind fun total =>
          pullLoop bytes total { dest with data := dest.data ++ src.data } rest
      else
        some (total, { dest with data := dest.data ++ src.data.take n } ::
          { src with data := src.data.drop n, offset := src.offset + n } :: rest)
    else some (total, dest :: src :: rest)

/-- `buf_pullup`, with the bytes at `*head_out`. -/
def bufPullup (total : ℕ) (buf : Buf) (bytes : ℕ) : Option (ℕ × Buf × Bytes) :=
  match buf.chunks with
  | [] => some (total, buf, [])
  | head :: rest =>
    let bytes := min bytes buf.datalen
    if bytes ≤ head.data.length then some (total, buf, head.data)
    else do
      let (total, head) ← growHead total head bytes
      let (total, chunks) ← pullLoop bytes total head rest
      let head ← chunks.head?
      return (total, { buf with chunks := chunks }, head.data)

end Pullup

/-! ### Reading and searching -/

section Read

/-- What one call of `recv` or `read` does: it delivers at most so many of the bytes that are
there, it would block, or it fails. At the end of the file nothing is delivered. -/
inductive Call
  | deliver (k : ℕ)
  | blocked
  | error

/-- What is left to be read, and what a function has returned. -/
structure ReadResult where
  stream : Bytes
  ret : ℤ
  reachedEof : Bool

/-- `read_to_chunk`, into the tail of the buffer. -/
def readToChunk (buf : Buf) (atMost : ℕ) (stream : Bytes) (call : Call) : Buf × ReadResult :=
  let atMost := min atMost (bufSlack buf)
  match call with
  | .error => (buf, ⟨stream, -1, false⟩)
  | .blocked => (buf, ⟨stream, 0, false⟩)
  | .deliver k =>
    let got := stream.take (min k atMost)
    if got = [] then (buf, ⟨stream, 0, true⟩)
    else (writeTail buf got, ⟨stream.drop got.length, got.length, false⟩)

/-- The tail to read into, and how much to ask for. -/
def readRoom (total : ℕ) (buf : Buf) (atMost readlen : ℕ) : Option (ℕ × Buf × ℕ) :=
  if bufSlack buf < minReadLen then
    (bufAddChunkWithCapacity total buf atMost true).map fun (total, buf, chunk) =>
      (total, buf, min readlen chunk.memlen)
  else some (total, buf, min readlen (bufSlack buf))

/-- The loop of `buf_read_from_fd`. A call that is not in the list would block. -/
def readLoop (atMost : ℕ) : List Call → ℕ → Buf → Bytes → ℕ → Option (ℕ × Buf × ReadResult)
  | [], total, buf, stream, totalRead =>
    if atMost ≤ totalRead then some (total, buf, ⟨stream, totalRead, false⟩)
    else
      (readRoom total buf atMost (atMost - totalRead)).map fun (total, buf, _) =>
        (total, buf, ⟨stream, totalRead, false⟩)
  | call :: calls, total, buf, stream, totalRead =>
    if atMost ≤ totalRead then some (total, buf, ⟨stream, totalRead, false⟩)
    else
      (readRoom total buf atMost (atMost - totalRead)).bind fun (total, buf, readlen) =>
        let (buf, got) := readToChunk buf readlen stream call
        if got.ret < 0 then some (total, buf, got)
        else
          let totalRead := totalRead + got.ret.toNat
          if bufMaxLen < totalRead then none
          else if got.ret.toNat < readlen then
            some (total, buf, { got with ret := totalRead })
          else readLoop atMost calls total buf got.stream totalRead

def bufReadFromFd (total : ℕ) (buf : Buf) (atMost : ℕ) (stream : Bytes) (calls : List Call) :
    Option (ℕ × Buf × ReadResult) :=
  if bufMaxLen < buf.datalen ∨ roomFor atMost < buf.datalen then
    some (total, buf, ⟨stream, -1, false⟩)
  else readLoop atMost calls total buf stream 0

end Read

section Search

/-- `buf_pos_t`: the chunk that it points to with those after it, the position in it, and the
length of the chunks before it. -/
structure BufPos where
  chunks : List Chunk
  pos : ℕ
  chunkPos : ℕ

def bufPosInit (buf : Buf) : BufPos := ⟨buf.chunks, 0, 0⟩

/-- The loop of `buf_find_pos_of_char`. -/
def findInChunks (ch : UInt8) : List Chunk → ℕ → ℕ → Option (Option BufPos)
  | [], _, _ => some none
  | c :: rest, pos, chunkPos =>
    match (c.data.drop pos).findIdx? fun b => b = ch with
    | some k =>
      if bufMaxLen < pos + k then none else some (some ⟨c :: rest, pos + k, chunkPos⟩)
    | none => findInChunks ch rest 0 (chunkPos + c.data.length)

/-- `buf_find_pos_of_char`: the position of the character, unless there is none. -/
def bufFindPosOfChar (ch : UInt8) (out : BufPos) : Option (Option BufPos) :=
  match out.chunks with
  | [] => some none
  | c :: _ =>
    if (if c.data = [] then out.pos ≠ 0 else c.data.length ≤ out.pos) then none
    else findInChunks ch out.chunks out.pos out.chunkPos

/-- `buf_pos_inc`: there is no next position at the end of the buffer. -/
def bufPosInc (p : BufPos) : Option (Option BufPos) :=
  match p.chunks with
  | [] => none
  | c :: rest =>
    if bufMaxLen ≤ p.pos then none
    else if p.pos + 1 = c.data.length then
      if rest = [] then some none else some (some ⟨rest, 0, p.chunkPos + c.data.length⟩)
    else some (some ⟨c :: rest, p.pos + 1, p.chunkPos⟩)

/-- The loop of `buf_matches_at_pos`. A byte of the memory that was not written is undefined. -/
def matchLoop : Bytes → BufPos → Option Bool
  | [], _ => some true
  | ch :: s, p => do
    let c ← p.chunks.head?
    let b ← c.data[p.pos]?
    if b ≠ ch then return false
    else if s = [] then return true
    else
      match ← bufPosInc p with
      | none => return false
      | some p => matchLoop s p

def bufMatchesAtPos (p : BufPos) (s : Bytes) : Option Bool := matchLoop s p

/-- The loop of `buf_find_string_offset`, for so many rounds. -/
def findLoop (s : Bytes) : ℕ → BufPos → Option ℤ
  | 0, _ => none
  | fuel + 1, p => do
    match ← bufFindPosOfChar (s.headD 0) p with
    | none => return -1
    | some p =>
      if ← bufMatchesAtPos p s then
        if bufMaxLen < p.chunkPos + p.pos then none else return (p.chunkPos + p.pos : ℕ)
      else
        match ← bufPosInc p with
        | none => return -1
        | some p => findLoop s fuel p

/-- The first character of an empty string is the NUL after it. -/
def bufFindStringOffset (buf : Buf) (s : Bytes) : Option ℤ :=
  findLoop s (buf.datalen + 1) (bufPosInit buf)

def findOffsetOfChar (ch : UInt8) : List Chunk → ℕ → Option ℕ
  | [], _ => none
  | c :: rest, offset =>
    match c.data.findIdx? fun b => b = ch with
    | some k => some (offset + k)
    | none => findOffsetOfChar ch rest (offset + c.data.length)

/-- `buf_get_line`: the return value, the line, and `*data_len`. -/
def bufGetLine (total : ℕ) (buf : Buf) (dataLen : ℕ) : Option (ℕ × Buf × ℤ × Bytes × ℕ) :=
  if buf.chunks = [] then some (total, buf, 0, [], dataLen)
  else if bufMaxLen < buf.datalen then none
  else
    match findOffsetOfChar 10 buf.chunks 0 with
    | none => some (total, buf, 0, [], dataLen)
    | some sz =>
      if dataLen < sz + 2 then some (total, buf, -1, [], sz + 2)
      else (bufGetBytes total buf (sz + 1)).map fun (total, buf, line) =>
        (total, buf, 1, line, sz + 1)

end Search

/-- The buffers that there are, and `total_bytes_allocated_in_chunks`. -/
structure Pool where
  total : ℕ
  bufs : List Buf

/-- What an operation returns: a number, bytes, and a length that it has set. -/
structure Answer where
  ret : ℤ
  data : Bytes
  len : ℕ

inductive Op
  | new
  | newWithCapacity (size : ℕ)
  | clear (i : ℕ)
  | add (i : ℕ) (string : Bytes)
  | read (i atMost : ℕ) (stream : Bytes) (calls : List Call)
  | drain (i n : ℕ)
  | getBytes (i len : ℕ)
  | pullup (i bytes : ℕ)
  | moveToBuf (out inn flushlen : ℕ)
  | moveAll (out inn : ℕ)
  | copy (i : ℕ)
  | getLine (i dataLen : ℕ)

namespace Pool

/-- An operation on one buffer. -/
def update (pool : Pool) (i : ℕ) (f : ℕ → Buf → Option (ℕ × Buf × Answer)) :
    Option (Pool × Answer) := do
  let buf ← pool.bufs[i]?
  let (total, buf, answer) ← f pool.total buf
  return ({ total := total, bufs := pool.bufs.set i buf }, answer)

/-- One round of `buf_move_to_buf`. -/
def moveBytes (pool : Pool) (out inn n : ℕ) : Option Pool := do
  let (pool, taken) ← pool.update inn fun total buf =>
    (bufGetBytes total buf n).map fun (total, buf, b) => (total, buf, ⟨0, b, 0⟩)
  let (pool, _) ← pool.update out fun total buf =>
    (bufAdd total buf taken.data).map fun (total, buf, ret) => (total, buf, ⟨ret, [], 0⟩)
  return pool

/-- The loop of `buf_move_to_buf`, for so many rounds. -/
def moveLoop (out inn : ℕ) : ℕ → Pool → ℕ → Option Pool
  | _, pool, 0 => some pool
  | 0, _, _ + 1 => none
  | fuel + 1, pool, len + 1 =>
    let n := min (len + 1) 4096
    (pool.moveBytes out inn n).bind fun pool => moveLoop out inn fuel pool (len + 1 - n)

def bufMoveToBuf (pool : Pool) (out inn flushlen : ℕ) : Option (Pool × Answer) := do
  let bufOut ← pool.bufs[out]?
  let bufIn ← pool.bufs[inn]?
  if bufMaxLen < bufOut.datalen ∨ bufMaxLen < flushlen ∨ roomFor flushlen < bufOut.datalen then
    return (pool, ⟨-1, [], flushlen⟩)
  else
    let cp := min flushlen bufIn.datalen
    let pool ← moveLoop out inn cp pool cp
    return (pool, ⟨cp, [], flushlen - cp⟩)

/-- Both structures are written, the one that is moved from last. -/
def bufMoveAll (pool : Pool) (out inn : ℕ) : Option (Pool × Answer) := do
  let bufOut ← pool.bufs[out]?
  let bufIn ← pool.bufs[inn]?
  if bufIn.datalen = 0 then return (pool, ⟨0, [], 0⟩)
  else if bufMaxLen < bufOut.datalen ∨ bufMaxLen < bufIn.datalen then return (pool, ⟨0, [], 0⟩)
  else if bufMaxLen - bufIn.datalen < bufOut.datalen then return (pool, ⟨0, [], 0⟩)
  else
    let moved := { bufOut with
      chunks := bufOut.chunks ++ bufIn.chunks, datalen := bufOut.datalen + bufIn.datalen }
    let emptied := { bufIn with chunks := [], datalen := 0 }
    return ({ pool with bufs := (pool.bufs.set out moved).set inn emptied },
      ⟨bufIn.datalen, [], 0⟩)

/-- The chunks of `buf_copy`. -/
def copyChunks : ℕ → List Chunk → ℕ × List Chunk
  | total, [] => (total, [])
  | total, c :: rest =>
    let (total, c) := chunkCopy total c
    let (total, rest) := copyChunks total rest
    (total, c :: rest)

def bufCopy (pool : Pool) (i : ℕ) : Option (Pool × Answer) := do
  let buf ← pool.bufs[i]?
  let (total, chunks) := copyChunks pool.total buf.chunks
  let out := { bufNew with
    chunks := chunks, datalen := buf.datalen, defaultChunkSize := buf.defaultChunkSize }
  return ({ total := total, bufs := pool.bufs ++ [out] }, ⟨0, [], 0⟩)

def step (pool : Pool) : Op → Option (Pool × Answer)
  | .new => some ({ pool with bufs := pool.bufs ++ [bufNew] }, ⟨0, [], 0⟩)
  | .newWithCapacity size =>
    (bufNewWithCapacity size).map fun buf => ({ pool with bufs := pool.bufs ++ [buf] }, ⟨0, [], 0⟩)
  | .clear i => pool.update i fun total buf =>
    (bufClear total buf).map fun (total, buf) => (total, buf, ⟨0, [], 0⟩)
  | .add i string => pool.update i fun total buf =>
    (bufAdd total buf string).map fun (total, buf, ret) => (total, buf, ⟨ret, [], 0⟩)
  | .read i atMost stream calls => pool.update i fun total buf =>
    (bufReadFromFd total buf atMost stream calls).map fun (total, buf, got) =>
      (total, buf, ⟨got.ret, got.stream, 0⟩)
  | .drain i n => pool.update i fun total buf =>
    (bufDrain total buf n).map fun (total, buf) => (total, buf, ⟨0, [], 0⟩)
  | .getBytes i len => pool.update i fun total buf =>
    (bufGetBytes total buf len).map fun (total, buf, string) =>
      (total, buf, ⟨buf.datalen, string, 0⟩)
  | .pullup i bytes => pool.update i fun total buf =>
    (bufPullup total buf bytes).map fun (total, buf, head) => (total, buf, ⟨0, head, head.length⟩)
  | .moveToBuf out inn flushlen => pool.bufMoveToBuf out inn flushlen
  | .moveAll out inn => pool.bufMoveAll out inn
  | .copy i => pool.bufCopy i
  | .getLine i dataLen => pool.update i fun total buf =>
    (bufGetLine total buf dataLen).map fun (total, buf, ret, line, len) =>
      (total, buf, ⟨ret, line, len⟩)

end Pool

end TorDaemon.Buffers
