import Mathlib.Data.List.Induction
import Mathlib.Tactic.Ring

/-! Byte strings, and integers in network order. -/
namespace TorDaemon.Library.NetworkOrder

abbrev Bytes := List UInt8

/-- The length of what is before the first NUL. -/
def strlen (s : Bytes) : ℕ := (s.takeWhile (· ≠ 0)).length

/-- Whether something holds of every byte is decided by trying all of them. -/
instance (priority := low) decidableForallByte {p : UInt8 → Prop} [DecidablePred p] :
    Decidable (∀ c, p c) :=
  decidable_of_iff (∀ c : Fin 256, p (UInt8.ofFin c)) ⟨fun h c => h c.toFin, fun h _ => h _⟩

/-- The low `len` bytes of `n`, the most significant one first. -/
def bigEndian (len n : ℕ) : Bytes :=
  (List.range len).reverse.map fun i => UInt8.ofNat (n / 256 ^ i)

def ofBigEndian (b : Bytes) : ℕ := b.foldl (fun n c => 256 * n + c.toNat) 0

theorem bigEndian_length (len n : ℕ) : (bigEndian len n).length = len := by
  simp [bigEndian]

theorem bigEndian_succ (len n : ℕ) : bigEndian (len + 1) n =
    bigEndian len (n / 256) ++ [UInt8.ofNat n] := by
  simp only [bigEndian, List.range_succ_eq_map, List.reverse_cons, List.map_append,
    List.map_reverse, List.map_map, List.map_cons, List.map_nil, Nat.pow_zero, Nat.div_one]
  congr 3
  funext i
  simp [Nat.pow_succ, Nat.div_div_eq_div_mul, Nat.mul_comm]

theorem ofBigEndian_bigEndian (len n : ℕ) : ofBigEndian (bigEndian len n) = n % 256 ^ len := by
  induction len generalizing n with
  | zero => simp [bigEndian, ofBigEndian, Nat.mod_one]
  | succ len ih =>
    have hih := ih (n / 256)
    simp only [ofBigEndian] at hih
    rw [bigEndian_succ, ofBigEndian, List.foldl_append, hih]
    simp only [List.foldl_cons, List.foldl_nil, UInt8.toNat_ofNat']
    have hmod : n % 256 ^ (len + 1) = n % 256 + 256 * (n / 256 % 256 ^ len) := by
      rw [Nat.pow_succ', Nat.mod_mul]
    omega

theorem ofBigEndian_append (a b : Bytes) :
    ofBigEndian (a ++ b) = ofBigEndian a * 256 ^ b.length + ofBigEndian b := by
  induction b using List.reverseRecOn with
  | nil => simp [ofBigEndian]
  | append_singleton b c ih =>
    simp only [ofBigEndian] at ih
    simp only [ofBigEndian, ← List.append_assoc, List.foldl_append, List.foldl_cons, List.foldl_nil,
      List.length_append, List.length_singleton, Nat.pow_succ]
    rw [← List.foldl_append, ih]
    ring

theorem ofBigEndian_lt (a : Bytes) : ofBigEndian a < 256 ^ a.length := by
  induction a using List.reverseRecOn with
  | nil => simp [ofBigEndian]
  | append_singleton a c ih =>
    have hc := c.toNat_lt
    rw [ofBigEndian_append, List.length_append, Nat.pow_add]
    have hsingle : ofBigEndian [c] = c.toNat := by simp [ofBigEndian]
    simp only [List.length_singleton, Nat.pow_one]
    omega

/-- Cutting off the low bytes. -/
theorem ofBigEndian_div (a : Bytes) (k : ℕ) :
    ofBigEndian a / 256 ^ (a.length - k) = ofBigEndian (a.take k) := by
  have hsplit := ofBigEndian_append (a.take k) (a.drop k)
  have hlt := ofBigEndian_lt (a.drop k)
  rw [List.take_append_drop] at hsplit
  rw [List.length_drop] at hsplit hlt
  rw [hsplit, Nat.mul_comm, Nat.mul_add_div (Nat.pow_pos (by omega)), Nat.div_eq_of_lt hlt,
    Nat.add_zero]

/-- One more byte, of which the high bits are asked for. -/
theorem ofBigEndian_take_succ_div {a : Bytes} {k r : ℕ} (hk : k < a.length) (hr : r ≤ 8) :
    ofBigEndian (a.take (k + 1)) / 2 ^ (8 - r) =
      2 ^ r * ofBigEndian (a.take k) + (a.getD k 0).toNat >>> (8 - r) := by
  have hpow : (256 : ℕ) = 2 ^ (8 - r) * 2 ^ r := by
    rw [← Nat.pow_add, Nat.sub_add_cancel hr]
  have hsingle : ofBigEndian [a[k]] = a[k].toNat := by simp [ofBigEndian]
  rw [List.take_succ_eq_append_getElem hk, ofBigEndian_append, hsingle, List.length_singleton,
    Nat.pow_one, List.getD_eq_getElem?_getD, List.getElem?_eq_getElem hk, Option.getD_some,
    Nat.shiftRight_eq_div_pow, Nat.mul_comm]
  conv_lhs => rw [hpow]
  rw [Nat.mul_assoc, Nat.mul_add_div (Nat.pow_pos (by omega))]

theorem ofBigEndian_inj {a b : Bytes} (hlen : a.length = b.length)
    (h : ofBigEndian a = ofBigEndian b) : a = b := by
  induction a using List.reverseRecOn generalizing b with
  | nil => exact (List.length_eq_zero_iff.mp hlen.symm).symm
  | append_singleton a c ih =>
    cases b using List.reverseRecOn with
    | nil => simp at hlen
    | append_singleton b d =>
      have hlast : ofBigEndian [c] = c.toNat ∧ ofBigEndian [d] = d.toNat := by simp [ofBigEndian]
      have hc := c.toNat_lt
      have hd := d.toNat_lt
      rw [ofBigEndian_append, ofBigEndian_append, hlast.1, hlast.2] at h
      simp only [List.length_singleton, Nat.pow_one] at h
      have htoNat : c.toNat = d.toNat := by omega
      rw [ih (by simpa using hlen) (by omega), UInt8.toNat_inj.mp htoNat]

/-- No bits of a byte are left. -/
theorem shiftRight_eight (b : UInt8) : b.toNat >>> 8 = 0 := by
  rw [Nat.shiftRight_eq_div_pow, Nat.div_eq_of_lt b.toNat_lt]

/-- Two texts agree on their first `8 * k + r` bits. -/
theorem ofBigEndian_div_eq_iff {a b : Bytes} {n k r : ℕ} (ha : a.length = n) (hb : b.length = n)
    (hk : k < n) (hr : r ≤ 8) :
    ofBigEndian a / 2 ^ (8 * n - (8 * k + r)) = ofBigEndian b / 2 ^ (8 * n - (8 * k + r)) ↔
      a.take k = b.take k ∧ (a.getD k 0).toNat >>> (8 - r) = (b.getD k 0).toNat >>> (8 - r) := by
  have hpow : (2 : ℕ) ^ (8 * n - (8 * k + r)) = 256 ^ (n - (k + 1)) * 2 ^ (8 - r) := by
    rw [show 8 * n - (8 * k + r) = 8 * (n - (k + 1)) + (8 - r) by omega, Nat.pow_add, Nat.pow_mul]
  have hleft := ofBigEndian_div a (k + 1)
  have hright := ofBigEndian_div b (k + 1)
  rw [ha] at hleft
  rw [hb] at hright
  rw [hpow, ← Nat.div_div_eq_div_mul, ← Nat.div_div_eq_div_mul, hleft, hright,
    ofBigEndian_take_succ_div (by omega) hr, ofBigEndian_take_succ_div (by omega) hr]
  have hbyte (c : UInt8) : c.toNat >>> (8 - r) < 2 ^ r := by
    rw [Nat.shiftRight_eq_div_pow]
    apply Nat.div_lt_of_lt_mul
    rw [← Nat.pow_add, Nat.sub_add_cancel hr]
    exact c.toNat_lt
  have hlen : (a.take k).length = (b.take k).length := by simp [ha, hb]
  constructor
  · intro h
    have hmod := congrArg (· % 2 ^ r) h
    have hdiv := congrArg (· / 2 ^ r) h
    simp only [Nat.mul_add_mod, Nat.mod_eq_of_lt (hbyte _)] at hmod
    simp only [Nat.mul_add_div (Nat.two_pow_pos r), Nat.div_eq_of_lt (hbyte _),
      Nat.add_zero] at hdiv
    exact ⟨ofBigEndian_inj hlen hdiv, hmod⟩
  · intro h
    rw [h.1, h.2]

end TorDaemon.Library.NetworkOrder
