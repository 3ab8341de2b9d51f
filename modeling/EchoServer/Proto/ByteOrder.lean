import Mathlib.Tactic

/-!
# Network byte order

`proto/byte_order.h` : big-endian loads and stores of 2, 4 and 8 bytes at any address.
The three widths are one loop over the bytes, so `loadBe n` and `storeBe n` take the
number of bytes. A load reads the bytes at the front of the list it is given.

`loadBe_storeBe` and `storeBe_loadBe` say that the two are inverse on `n` bytes : a
stored value is read back modulo `256 ^ n`, and a value read from `n` bytes is stored as
those bytes.
-/

namespace EchoServer

/-- A run of bytes in memory or on the wire. -/
abbrev Bytes := List UInt8

/-- The big-endian value of the first `n` bytes at `p`. -/
def loadBe (n : ℕ) (p : Bytes) : ℕ :=
  (p.take n).foldl (fun v b => v * 256 + b.toNat) 0

/-- The low `n` bytes of `v`, most significant first. -/
def storeBe : ℕ → ℕ → Bytes
  | 0, _ => []
  | n + 1, v => storeBe n (v / 256) ++ [UInt8.ofNat v]

/-- `load_be16`. -/
def loadBe16 : Bytes → ℕ := loadBe 2

/-- `load_be32`. -/
def loadBe32 : Bytes → ℕ := loadBe 4

/-- `store_be16`. -/
def storeBe16 : ℕ → Bytes := storeBe 2

/-- `store_be32`. -/
def storeBe32 : ℕ → Bytes := storeBe 4

@[simp] theorem length_storeBe (n v : ℕ) : (storeBe n v).length = n := by
  induction n generalizing v with
  | zero => rfl
  | succ n ih => simp [storeBe, ih]

@[simp] theorem length_storeBe16 (v : ℕ) : (storeBe16 v).length = 2 :=
  length_storeBe 2 v

@[simp] theorem length_storeBe32 (v : ℕ) : (storeBe32 v).length = 4 :=
  length_storeBe 4 v

/-- A load reads its own bytes only. -/
theorem loadBe_append {n : ℕ} {p : Bytes} (hp : p.length = n) (r : Bytes) :
    loadBe n (p ++ r) = loadBe n p := by
  subst hp
  simp [loadBe]

/-- A longer load appends the next byte below the bytes read so far. -/
theorem loadBe_succ_append {n : ℕ} {p : Bytes} (hp : p.length = n) (b : UInt8) :
    loadBe (n + 1) (p ++ [b]) = loadBe n p * 256 + b.toNat := by
  subst hp
  rw [loadBe, loadBe, List.take_of_length_le (by simp), List.take_length, List.foldl_append]
  rfl

/-- A stored value is read back modulo the width. -/
theorem loadBe_storeBe (n v : ℕ) : loadBe n (storeBe n v) = v % 256 ^ n := by
  induction n generalizing v with
  | zero => simp [storeBe, loadBe, Nat.mod_one]
  | succ n ih =>
    have hb : (UInt8.ofNat v).toNat = v % 256 := by simp
    rw [storeBe, loadBe_succ_append (length_storeBe n _), ih, hb, pow_succ', Nat.mod_mul]
    omega

/-- The bytes a value was read from are the bytes it is stored as. -/
theorem storeBe_loadBe {n : ℕ} {p : Bytes} (hp : p.length = n) :
    storeBe n (loadBe n p) = p := by
  induction n generalizing p with
  | zero => simp [storeBe, List.length_eq_zero_iff.mp hp]
  | succ n ih =>
    obtain ⟨q, b, rfl⟩ : ∃ q b, p = q ++ [b] :=
      ⟨p.dropLast, p.getLast (by rintro rfl; simp at hp), (List.dropLast_append_getLast _).symm⟩
    have hq : q.length = n := by simpa using hp
    have hb : b.toNat < 256 := UInt8.toNat_lt b
    have hdiv : (loadBe n q * 256 + b.toNat) / 256 = loadBe n q := by omega
    have hlow : UInt8.ofNat (loadBe n q * 256 + b.toNat) = b := by
      rw [← UInt8.toNat_inj, UInt8.toNat_ofNat']
      omega
    rw [storeBe, loadBe_succ_append hq, hdiv, hlow, ih hq]

/-- A number of `n` bytes is below `256 ^ n`. -/
theorem loadBe_lt (n : ℕ) {p : Bytes} (hp : p.length = n) : loadBe n p < 256 ^ n := by
  rw [← storeBe_loadBe hp, loadBe_storeBe]
  exact Nat.mod_lt _ (by positivity)

/-- Only the first `n` bytes are read. -/
theorem loadBe_take (n : ℕ) (p : Bytes) : loadBe n (p.take n) = loadBe n p := by
  rw [loadBe, loadBe, List.take_take, min_self]

/-- Whatever is at `p`. -/
theorem loadBe_lt_pow (n : ℕ) (p : Bytes) : loadBe n p < 256 ^ n := by
  have htake : loadBe n p = loadBe (p.take n).length (p.take n) := by
    rw [loadBe, loadBe, List.take_length]
  rw [htake]
  exact (loadBe_lt _ rfl).trans_le (Nat.pow_le_pow_right (by decide) (List.length_take_le n p))

end EchoServer
