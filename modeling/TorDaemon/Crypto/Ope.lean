import TorDaemon.Library.NetworkOrder
import Mathlib.Algebra.BigOperators.Intervals

/-! Order-preserving encryption from a keystream (`crypto_ope.c`): the sum of the first words of
the stream, of which every 1024th is kept. The stream of the key is any function from the
number of a block to its bytes. -/
namespace TorDaemon.Crypto.Ope
open Library.NetworkOrder

abbrev Keystream := ℕ → Vector UInt8 16

section Model
variable (block : Keystream)

/-- A cipher in counter mode: the first block, and the bytes of the stream that were used. -/
structure CryptoCipher where
  iv : ℕ
  used : ℕ

def cryptInplace (c : CryptoCipher) (buf : Bytes) : Bytes × CryptoCipher :=
  (buf.mapIdx fun i b => b ^^^ (block (c.iv + (c.used + i) / 16))[(c.used + i) % 16],
    { c with used := c.used + buf.length })

def sampleInterval : ℕ := 1024
def opeInputMax : ℕ := 2 ^ 18
def nSamples : ℕ := opeInputMax / sampleInterval
def bufsz : ℕ := 256
def cryptoOpeError : UInt64 := 0xffffffffffffffff

structure CryptoOpe where
  key : Keystream
  samples : List UInt64

/-- The index has to be that of a block. -/
def opeGetCipher (initialIdx : ℕ) : Option CryptoCipher :=
  if initialIdx &&& 0xf = 0 then some ⟨initialIdx >>> 4, 0⟩ else none

def opeValFromLe (lo hi : UInt8) : UInt64 := lo.toUInt64 ||| hi.toUInt64 <<< 8

/-- The loop over the words in a buffer. -/
def addValues (total : UInt64) : Bytes → UInt64
  | lo :: hi :: buf => addValues (total + opeValFromLe lo hi + 1) buf
  | _ => total

/-- The loop of `sum_values_from_cipher`, over buffers that are full and one that is not. -/
def sumValues (c : CryptoCipher) (n : ℕ) (total : UInt64) : UInt64 × CryptoCipher :=
  if bufsz ≤ n then
    let (buf, c) := cryptInplace block c (List.replicate (2 * bufsz) 0)
    sumValues c (n - bufsz) (addValues total buf)
  else
    let (buf, c) := cryptInplace block c (List.replicate (2 * n) 0)
    (addValues total buf, c)
  termination_by n
  decreasing_by simp only [bufsz] at *; omega

def sumValuesFromCipher (c : CryptoCipher) (n : ℕ) : UInt64 × CryptoCipher := sumValues block c n 0

/-- The loop of `crypto_ope_new`, for the samples that are left. -/
def sampleLoop (c : CryptoCipher) (v : UInt64) : ℕ → List UInt64
  | 0 => []
  | i + 1 =>
    let (sum, c) := sumValuesFromCipher block c sampleInterval
    (v + sum) :: sampleLoop c (v + sum) i

def cryptoOpeNew : Option CryptoOpe := do
  let cipher ← opeGetCipher 0
  return ⟨block, sampleLoop block cipher 0 nSamples⟩

/-- A sample that there is not is `none`. -/
def startingValue (ope : CryptoOpe) (sampleIdx : ℕ) : Option UInt64 :=
  if sampleIdx = 0 then some 0 else ope.samples[sampleIdx - 1]?

def cryptoOpeEncrypt (ope : CryptoOpe) (plaintext : ℤ) : Option UInt64 :=
  if plaintext ≤ 0 ∨ (opeInputMax : ℤ) < plaintext then some cryptoOpeError
  else do
    let sampleIdx := plaintext.toNat / sampleInterval
    let startingIv := sampleIdx * sampleInterval
    let remainingValues := plaintext.toNat - startingIv
    let v ← startingValue ope sampleIdx
    let cipher ← opeGetCipher (startingIv * 2)
    return v + (sumValuesFromCipher ope.key cipher remainingValues).1

end Model

section Sum
variable (block : Keystream)

def streamByte (p : ℕ) : UInt8 := (block (p / 16))[p % 16]

/-- The words of the stream, the low byte first. -/
def streamWord (i : ℕ) : ℕ :=
  (streamByte block (2 * i)).toNat + 256 * (streamByte block (2 * i + 1)).toNat

/-- What is to be computed. -/
def wordSum (n : ℕ) : ℕ := ∑ i ∈ Finset.range n, (streamWord block i + 1)

theorem streamWord_lt (i : ℕ) : streamWord block i < 2 ^ 16 := by
  have hlo := (streamByte block (2 * i)).toNat_lt
  have hhi := (streamByte block (2 * i + 1)).toNat_lt
  rw [streamWord]
  omega

theorem wordSum_succ (n : ℕ) : wordSum block (n + 1) = wordSum block n + (streamWord block n + 1) :=
  Finset.sum_range_succ _ n

theorem wordSum_le (n : ℕ) : wordSum block n ≤ n * 2 ^ 16 := by
  induction n with
  | zero => exact Nat.zero_le _
  | succ n ih =>
    have hword := streamWord_lt block n
    rw [wordSum_succ]
    omega

theorem wordSum_lt {m n : ℕ} (h : m < n) : wordSum block m < wordSum block n := by
  have hmono : StrictMono (wordSum block) := by
    apply strictMono_nat_of_lt_succ
    intro i
    rw [wordSum_succ]
    omega
  exact hmono h

/-- The words from `w` on. -/
def wordsFrom (w n : ℕ) : ℕ := ∑ i ∈ Finset.range n, (streamWord block (w + i) + 1)

theorem wordsFrom_add (w m n : ℕ) :
    wordsFrom block w (m + n) = wordsFrom block w m + wordsFrom block (w + m) n := by
  simp only [wordsFrom, Finset.sum_range_add, Nat.add_assoc]

theorem wordSum_add (m n : ℕ) : wordSum block (m + n) = wordSum block m + wordsFrom block m n :=
  Finset.sum_range_add _ m n

end Sum

section Buffers
variable {block : Keystream} {c : CryptoCipher} {w n : ℕ}

theorem opeValFromLe_eq (lo hi : UInt8) :
    opeValFromLe lo hi = UInt64.ofNat (lo.toNat + 256 * hi.toNat) := by
  have hlo := lo.toNat_lt
  have hhi := hi.toNat_lt
  have hor := Nat.two_pow_add_eq_or_of_lt hlo hi.toNat
  have hshift : (hi.toUInt64 <<< 8).toNat = 2 ^ 8 * hi.toNat := by
    rw [UInt64.toNat_shiftLeft, UInt8.toNat_toUInt64, Nat.shiftLeft_eq, Nat.mul_comm]
    exact Nat.mod_eq_of_lt (by simp; omega)
  apply UInt64.toNat_inj.mp
  rw [opeValFromLe, UInt64.toNat_or, hshift, UInt8.toNat_toUInt64, Nat.or_comm, ← hor,
    UInt64.toNat_ofNat']
  omega

theorem cryptInplace_zeros (h : 16 * c.iv + c.used = 2 * w) (n : ℕ) :
    cryptInplace block c (List.replicate (2 * n) 0) =
      ((List.range' (2 * w) (2 * n)).map (streamByte block), ⟨c.iv, c.used + 2 * n⟩) := by
  rw [cryptInplace, List.length_replicate]
  congr 1
  apply List.ext_getElem
  · simp
  · intro i _ _
    have hdiv : (2 * w + i) / 16 = c.iv + (c.used + i) / 16 := by omega
    have hmod : (2 * w + i) % 16 = (c.used + i) % 16 := by omega
    simp [streamByte, hdiv, hmod]

theorem wordsFrom_succ (w n : ℕ) :
    wordsFrom block w (n + 1) = streamWord block w + 1 + wordsFrom block (w + 1) n := by
  rw [Nat.add_comm n 1, wordsFrom_add]
  simp [wordsFrom]

theorem addValues_range' (total : UInt64) (w n : ℕ) :
    addValues total ((List.range' (2 * w) (2 * n)).map (streamByte block)) =
      total + UInt64.ofNat (wordsFrom block w n) := by
  induction n generalizing w total with
  | zero => simp [addValues, wordsFrom]
  | succ n ih =>
    rw [Nat.mul_succ, List.range'_succ, List.range'_succ, List.map_cons, List.map_cons, addValues,
      show 2 * w + 1 + 1 = 2 * (w + 1) by omega, ih]
    simp only [opeValFromLe_eq, wordsFrom_succ, streamWord, UInt64.ofNat_add, UInt64.add_assoc]
    rfl

theorem sumValues_eq (h : 16 * c.iv + c.used = 2 * w) (total : UInt64) : sumValues block c n total =
      (total + UInt64.ofNat (wordsFrom block w n), ⟨c.iv, c.used + 2 * n⟩) := by
  induction n using Nat.strong_induction_on generalizing c w total with
  | _ n ih =>
    rw [sumValues]
    split
    · rename_i hfull
      have hpos : n - bufsz < n := by simp only [bufsz] at *; omega
      have hnext : 16 * c.iv + (c.used + 2 * bufsz) = 2 * (w + bufsz) := by omega
      have hused : c.used + 2 * bufsz + 2 * (n - bufsz) = c.used + 2 * n := by omega
      have hsplit := wordsFrom_add block w bufsz (n - bufsz)
      rw [Nat.add_sub_cancel' hfull] at hsplit
      rw [cryptInplace_zeros h]
      dsimp only
      rw [ih _ hpos hnext, addValues_range', hsplit, UInt64.ofNat_add, UInt64.add_assoc, hused]
    · rw [cryptInplace_zeros h]
      dsimp only
      rw [addValues_range']

theorem sampleLoop_getElem? {v : UInt64} {i j : ℕ} (h : 16 * c.iv + c.used = 2 * w) (hj : j < i) :
    (sampleLoop block c v i)[j]? =
      some (v + UInt64.ofNat (wordsFrom block w (sampleInterval * (j + 1)))) := by
  induction i generalizing c v w j with
  | zero => omega
  | succ i ih =>
    rw [sampleLoop, sumValuesFromCipher, sumValues_eq h, UInt64.zero_add]
    cases j with
    | zero => rw [List.getElem?_cons_zero, Nat.zero_add, Nat.mul_one]
    | succ j =>
      have hnext : 16 * c.iv + (c.used + 2 * sampleInterval) = 2 * (w + sampleInterval) := by omega
      have hcount : sampleInterval * (j + 1 + 1) = sampleInterval + sampleInterval * (j + 1) := by
        rw [Nat.mul_succ, Nat.add_comm]
      rw [List.getElem?_cons_succ, ih hnext (by omega), hcount, wordsFrom_add, UInt64.ofNat_add,
        UInt64.add_assoc]

end Buffers

section Encrypt
variable {block : Keystream} {ope : CryptoOpe} {m n : ℕ}

/-- The samples are the sums that the encryption would have to compute. -/
structure Precomputed (block : Keystream) (ope : CryptoOpe) : Prop where
  key : ope.key = block
  samples : ∀ j < nSamples,
    ope.samples[j]? = some (UInt64.ofNat (wordSum block (sampleInterval * (j + 1))))

theorem opeGetCipher_eq (k : ℕ) : opeGetCipher (16 * k) = some ⟨k, 0⟩ := by
  have hand : 16 * k &&& 0xf = 0 := by
    rw [show 0xf = 2 ^ 4 - 1 from rfl, Nat.and_two_pow_sub_one_eq_mod]
    omega
  rw [opeGetCipher, if_pos hand, Nat.shiftRight_eq_div_pow]
  congr 2
  omega

theorem wordsFrom_zero (block : Keystream) (n : ℕ) : wordsFrom block 0 n = wordSum block n := by
  simp [wordsFrom, wordSum]

theorem cryptoOpeNew_precomputed (block : Keystream) :
    ∃ ope, cryptoOpeNew block = some ope ∧ Precomputed block ope := by
  have hcipher := opeGetCipher_eq 0
  refine ⟨⟨block, sampleLoop block ⟨0, 0⟩ 0 nSamples⟩, ?_, rfl, fun j hj => ?_⟩
  · rw [cryptoOpeNew, hcipher]
    rfl
  · have hstart : 16 * (⟨0, 0⟩ : CryptoCipher).iv + (⟨0, 0⟩ : CryptoCipher).used = 2 * 0 := rfl
    rw [sampleLoop_getElem? hstart hj, UInt64.zero_add, wordsFrom_zero]

theorem startingValue_eq {k : ℕ} (h : Precomputed block ope) (hk : k ≤ nSamples) :
    startingValue ope k = some (UInt64.ofNat (wordSum block (k * sampleInterval))) := by
  rw [startingValue]
  split
  · rename_i hzero
    rw [hzero, Nat.zero_mul]
    rfl
  · rw [h.samples _ (by omega), Nat.sub_add_cancel (by omega), Nat.mul_comm]

theorem encrypt_of_precomputed (h : Precomputed block ope) (hpos : 0 < n) (hmax : n ≤ opeInputMax) :
    cryptoOpeEncrypt ope n = some (UInt64.ofNat (wordSum block n)) := by
  have hin : ¬((n : ℤ) ≤ 0 ∨ (opeInputMax : ℤ) < n) := by omega
  have hiv : n / sampleInterval * sampleInterval * 2 = 16 * (128 * (n / sampleInterval)) := by
    simp only [sampleInterval]
    omega
  have hat : 16 * (⟨128 * (n / sampleInterval), 0⟩ : CryptoCipher).iv +
      (⟨128 * (n / sampleInterval), 0⟩ : CryptoCipher).used =
        2 * (n / sampleInterval * sampleInterval) := by
    simp only [sampleInterval]
    omega
  have hsplit := wordSum_add block (n / sampleInterval * sampleInterval)
    (n - n / sampleInterval * sampleInterval)
  rw [Nat.add_sub_cancel' (Nat.div_mul_le_self n sampleInterval)] at hsplit
  rw [cryptoOpeEncrypt, if_neg hin]
  simp only [Int.toNat_natCast, startingValue_eq h (Nat.div_le_div_right hmax), hiv, opeGetCipher_eq,
    Option.bind_eq_bind, Option.bind_some, sumValuesFromCipher, h.key, sumValues_eq hat, UInt64.zero_add]
  rw [hsplit, UInt64.ofNat_add]
  rfl

section
variable (block : Keystream)

theorem wordSum_toNat (hmax : n ≤ opeInputMax) :
    (UInt64.ofNat (wordSum block n)).toNat = wordSum block n := by
  have hle := wordSum_le block n
  apply Nat.mod_eq_of_lt
  simp only [opeInputMax] at hmax
  omega

theorem wordSum_lt_error (hmax : n ≤ opeInputMax) :
    UInt64.ofNat (wordSum block n) < cryptoOpeError := by
  have hle := wordSum_le block n
  rw [UInt64.lt_iff_toNat_lt, wordSum_toNat block hmax]
  have herror : cryptoOpeError.toNat = 2 ^ 64 - 1 := rfl
  simp only [opeInputMax] at hmax
  omega

theorem ofNat_wordSum_lt (hlt : m < n) (hmax : n ≤ opeInputMax) :
    UInt64.ofNat (wordSum block m) < UInt64.ofNat (wordSum block n) := by
  rw [UInt64.lt_iff_toNat_lt, wordSum_toNat block hmax, wordSum_toNat block (hlt.le.trans hmax)]
  exact wordSum_lt block hlt

end

/-- With the samples that were kept the encryption is the sum of the first words, and so keeps
the order. -/
theorem cryptoOpeEncrypt_wordSum (block : Keystream) : ∃ ope, cryptoOpeNew block = some ope ∧
      (∀ n : ℕ, 0 < n → n ≤ opeInputMax →
        ∃ v, cryptoOpeEncrypt ope n = some v ∧ v.toNat = wordSum block n) ∧
      ∀ m n : ℕ, 0 < m → m < n → n ≤ opeInputMax →
        ∃ v v', cryptoOpeEncrypt ope m = some v ∧ cryptoOpeEncrypt ope n = some v' ∧ v < v' := by
  obtain ⟨ope, hnew, h⟩ := cryptoOpeNew_precomputed block
  refine ⟨ope, hnew, fun n hpos hmax => ?_, fun m n hpos hlt hmax => ?_⟩
  · exact ⟨_, encrypt_of_precomputed h hpos hmax, wordSum_toNat block hmax⟩
  · exact ⟨_, _, encrypt_of_precomputed h hpos (hlt.le.trans hmax),
      encrypt_of_precomputed h (hpos.trans hlt) hmax, ofNat_wordSum_lt block hlt hmax⟩

end Encrypt

end TorDaemon.Crypto.Ope
