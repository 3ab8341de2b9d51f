import Mathlib.Tactic

/-!
# Session keys

`make_session_key` in `core/uuid.h` : 36 characters of lower-case hexadecimal digits and hyphens,
from two random words. The digits are written over a text of hyphens, four of which stay.

`session_key_text` : the text has the shape 8-4-4-4-12, with the version and the variant where they
belong, and the 122 bits that they leave of the two words are read back from it : two calls give one
key only if they draw the same bits there.
-/

namespace EchoServer

/-- The digits of a key. -/
def kHex : List Char :=
  ['0', '1', '2', '3', '4', '5', '6', '7', '8', '9', 'a', 'b', 'c', 'd', 'e', 'f']

/-- The digit `i` places from the left in a field of `digits`. -/
def hexAt (digits value i : ℕ) : Char :=
  kHex.getD ((value >>> ((digits - 1 - i) * 4)) &&& 0xF) '-'

/-- Write a field over the text from `start` on. -/
def writeHex (start digits value : ℕ) (out : List Char) : List Char :=
  (List.range digits).foldl (fun out i => out.set (start + i) (hexAt digits value i)) out

/-- The text of a key, from two random words. -/
def makeSessionKey (hi lo : UInt64) : List Char :=
  let hi := hi.toNat
  let lo := lo.toNat
  let out := List.replicate 36 '-'
  let out := writeHex 0 8 (hi >>> 32) out
  let out := writeHex 9 4 ((hi >>> 16) &&& 0xFFFF) out
  let out := writeHex 14 4 (0x4000 ||| (hi &&& 0x0FFF)) out
  let out := writeHex 19 4 (0x8000 ||| ((lo >>> 48) &&& 0x3FFF)) out
  writeHex 24 12 (lo &&& 0xFFFFFFFFFFFF) out

/-! ## Fields -/

/-- A field of `digits` on its own. -/
def hexField (digits value : ℕ) : List Char := (List.range digits).map (hexAt digits value)

@[simp] theorem length_hexField (digits value : ℕ) : (hexField digits value).length = digits := by
  simp [hexField]

/-- Setting characters one after the other replaces the stretch. -/
theorem foldl_set {f : ℕ → Char} {pre : List Char} : ∀ (n : ℕ) {mid post : List Char},
    mid.length = n →
      (List.range n).foldl (fun out i => out.set (pre.length + i) (f i)) (pre ++ mid ++ post) =
        pre ++ (List.range n).map f ++ post
  | 0, mid, post, h => by
    obtain rfl := List.length_eq_zero_iff.mp h
    rfl
  | n + 1, mid, post, h => by
    obtain ⟨mid, c, rfl⟩ : ∃ mid' c, mid = mid' ++ [c] :=
      ⟨mid.dropLast, mid.getLast (by rintro rfl; simp at h), (List.dropLast_append_getLast _).symm⟩
    have hmid : mid.length = n := by simpa using h
    have hset : (List.range n).foldl (fun out i => out.set (pre.length + i) (f i))
        (pre ++ mid ++ ([c] ++ post)) = pre ++ (List.range n).map f ++ ([c] ++ post) :=
      foldl_set n hmid
    rw [List.range_succ, List.foldl_append, List.map_append, ← List.append_assoc pre,
      List.append_assoc (pre ++ mid), hset]
    simp

/-- A field replaces the characters in its place. -/
theorem writeHex_append {pre mid post : List Char} {start digits : ℕ} (value : ℕ)
    (hpre : pre.length = start) (hmid : mid.length = digits) :
    writeHex start digits value (pre ++ mid ++ post) = pre ++ hexField digits value ++ post := by
  subst hpre
  exact foldl_set digits hmid

/-- The digit of greatest weight, then the others. -/
theorem hexField_succ (n v : ℕ) :
    hexField (n + 1) v = kHex.getD (v / 16 ^ n % 16) '-' :: hexField n v := by
  have hpow : 2 ^ (n * 4) = 16 ^ n := by rw [Nat.mul_comm, pow_mul]; rfl
  have hfirst : hexAt (n + 1) v 0 = kHex.getD (v / 16 ^ n % 16) '-' := by
    rw [hexAt, show n + 1 - 1 - 0 = n by omega, Nat.shiftRight_eq_div_pow, hpow,
      show (0xF : ℕ) = 2 ^ 4 - 1 by rfl, Nat.and_two_pow_sub_one_eq_mod]
  have hrest : ∀ i ∈ List.range n, hexAt (n + 1) v (i + 1) = hexAt n v i := by
    intro i hi
    have hlt := List.mem_range.mp hi
    rw [hexAt, hexAt, show n + 1 - 1 - (i + 1) = n - 1 - i by omega]
  rw [hexField, List.range_succ_eq_map, List.map_cons, List.map_map, hfirst]
  exact congrArg _ (List.map_congr_left hrest)

/-- The sixteen digits differ. -/
theorem kHex_inj {m n : ℕ} (hm : m < 16) (hn : n < 16) :
    kHex.getD m '-' = kHex.getD n '-' ↔ m = n := by
  have hall : ∀ i < 16, ∀ j < 16, kHex.getD i '-' = kHex.getD j '-' → i = j := by decide
  exact ⟨hall m hm n hn, fun h => by rw [h]⟩

/-- A field shows what its digits can hold of the value. -/
theorem hexField_inj : ∀ (n : ℕ) {v w : ℕ},
    hexField n v = hexField n w ↔ v % 16 ^ n = w % 16 ^ n
  | 0, v, w => by simp [hexField, Nat.mod_one]
  | n + 1, v, w => by
    rw [hexField_succ, hexField_succ, List.cons.injEq, hexField_inj n,
      kHex_inj (Nat.mod_lt _ (by decide)) (Nat.mod_lt _ (by decide)), pow_succ, Nat.mod_mul,
      Nat.mod_mul]
    have hpos : 0 < 16 ^ n := by positivity
    have hv := Nat.mod_lt v hpos
    have hw := Nat.mod_lt w hpos
    constructor
    · rintro ⟨hfirst, hrest⟩
      rw [hfirst, hrest]
    · intro h
      have hrest : v % 16 ^ n = w % 16 ^ n := by
        have := congrArg (· % 16 ^ n) h
        simpa [Nat.add_mul_mod_self_left, Nat.mod_mod] using this
      refine ⟨?_, hrest⟩
      rw [hrest] at h
      exact Nat.eq_of_mul_eq_mul_left hpos (Nat.add_left_cancel h)

/-- A field of digits has digits only. -/
theorem mem_kHex_of_mem_hexField {c : Char} : ∀ {n v : ℕ}, c ∈ hexField n v → c ∈ kHex
  | 0, v, h => by simp [hexField] at h
  | n + 1, v, h => by
    rw [hexField_succ] at h
    obtain rfl | h := List.mem_cons.mp h
    · have hall : ∀ i < 16, kHex.getD i '-' ∈ kHex := by decide
      exact hall _ (Nat.mod_lt _ (by decide))
    · exact mem_kHex_of_mem_hexField h

/-! ## The key -/

/-- The next field, behind a hyphen that stays. -/
theorem writeHex_replicate {pre : List Char} {start digits : ℕ} (value k : ℕ)
    (hpre : pre.length + 1 = start) :
    writeHex start digits value (pre ++ List.replicate (digits + k + 1) '-') =
      pre ++ '-' :: hexField digits value ++ List.replicate k '-' := by
  have hout : pre ++ List.replicate (digits + k + 1) '-' =
      (pre ++ ['-']) ++ List.replicate digits '-' ++ List.replicate k '-' := by
    rw [List.replicate_succ, ← List.replicate_append_replicate]
    simp
  rw [hout, writeHex_append value (by simpa using hpre) (by simp)]
  simp

/-- The text of five fields with these values. -/
def keyText (a b c d e : ℕ) : List Char :=
  hexField 8 a ++ '-' :: hexField 4 b ++ '-' :: hexField 4 c ++ '-' :: hexField 4 d ++
    '-' :: hexField 12 e

/-- The key is the text of its five fields, with the version and the variant set. -/
theorem makeSessionKey_eq (hi lo : UInt64) :
    makeSessionKey hi lo =
      keyText (hi.toNat / 2 ^ 32) (hi.toNat / 2 ^ 16 % 2 ^ 16) (2 ^ 14 + hi.toNat % 2 ^ 12)
        (2 ^ 15 + lo.toNat / 2 ^ 48 % 2 ^ 14) (lo.toNat % 2 ^ 48) := by
  have hversion : (0x4000 ||| (hi.toNat &&& 0x0FFF)) = 2 ^ 14 + hi.toNat % 2 ^ 12 := by
    rw [show (0x0FFF : ℕ) = 2 ^ 12 - 1 by rfl, Nat.and_two_pow_sub_one_eq_mod,
      show (0x4000 : ℕ) = 2 ^ 14 * 1 by rfl, ← Nat.two_pow_add_eq_or_of_lt (by omega),
      Nat.mul_one]
  have hvariant : (0x8000 ||| ((lo.toNat >>> 48) &&& 0x3FFF)) =
      2 ^ 15 + lo.toNat / 2 ^ 48 % 2 ^ 14 := by
    rw [show (0x3FFF : ℕ) = 2 ^ 14 - 1 by rfl, Nat.and_two_pow_sub_one_eq_mod,
      Nat.shiftRight_eq_div_pow, show (0x8000 : ℕ) = 2 ^ 15 * 1 by rfl,
      ← Nat.two_pow_add_eq_or_of_lt (by omega),
      Nat.mul_one]
  have hmiddle : ((hi.toNat >>> 16) &&& 0xFFFF) = hi.toNat / 2 ^ 16 % 2 ^ 16 := by
    rw [show (0xFFFF : ℕ) = 2 ^ 16 - 1 by rfl, Nat.and_two_pow_sub_one_eq_mod,
      Nat.shiftRight_eq_div_pow]
  have hlow : (lo.toNat &&& 0xFFFFFFFFFFFF) = lo.toNat % 2 ^ 48 := by
    rw [show (0xFFFFFFFFFFFF : ℕ) = 2 ^ 48 - 1 by rfl, Nat.and_two_pow_sub_one_eq_mod]
  have hfirst : writeHex 0 8 (hi.toNat / 2 ^ 32) (List.replicate 36 '-') =
      hexField 8 (hi.toNat / 2 ^ 32) ++ List.replicate (4 + 23 + 1) '-' := by
    show writeHex 0 8 _ ([] ++ List.replicate 8 '-' ++ List.replicate 28 '-') = [] ++ _ ++ _
    exact writeHex_append _ rfl List.length_replicate
  simp only [makeSessionKey, hversion, hvariant, hmiddle, hlow, Nat.shiftRight_eq_div_pow _ 32]
  rw [hfirst, writeHex_replicate _ 23 (by simp), show 23 = 4 + 18 + 1 by rfl,
    writeHex_replicate _ 18 (by simp), show 18 = 4 + 13 + 1 by rfl,
    writeHex_replicate _ 13 (by simp), show 13 = 12 + 0 + 1 by rfl,
    writeHex_replicate _ 0 (by simp), List.replicate_zero, List.append_nil]
  rfl

/-- The digits of the version and of the variant. -/
theorem head_hexField {x y : ℕ} (hx : x < 2 ^ 12) (hy : y < 2 ^ 14) :
    (hexField 4 (2 ^ 14 + x)).head? = some '4' ∧
      ∃ v ∈ ['8', '9', 'a', 'b'], (hexField 4 (2 ^ 15 + y)).head? = some v := by
  have hversion : (2 ^ 14 + x) / 16 ^ 3 % 16 = 4 := by omega
  have hvariant : (2 ^ 15 + y) / 16 ^ 3 % 16 = 8 + y / 2 ^ 12 := by omega
  have hdigits : ∀ i < 4, kHex.getD (8 + i) '-' ∈ ['8', '9', 'a', 'b'] := by decide
  rw [hexField_succ 3 (2 ^ 14 + x), hexField_succ 3 (2 ^ 15 + y), hversion, hvariant]
  exact ⟨rfl, _, hdigits (y / 2 ^ 12) (by omega), rfl⟩

/-- Bits that are cut in two fields. -/
theorem mod_two_pow_inj {x y : ℕ} : x % 2 ^ 62 = y % 2 ^ 62 ↔
    x / 2 ^ 48 % 2 ^ 14 = y / 2 ^ 48 % 2 ^ 14 ∧ x % 2 ^ 48 = y % 2 ^ 48 := by
  rw [show 2 ^ 62 = 2 ^ 48 * 2 ^ 14 by rfl, Nat.mod_mul, Nat.mod_mul]
  have hx := Nat.mod_lt x (show 0 < 2 ^ 48 by positivity)
  have hy := Nat.mod_lt y (show 0 < 2 ^ 48 by positivity)
  omega

/-- The fields are read back one by one. -/
theorem keyText_inj {a b c d e a' b' c' d' e' : ℕ} :
    keyText a b c d e = keyText a' b' c' d' e' ↔
      a % 16 ^ 8 = a' % 16 ^ 8 ∧ b % 16 ^ 4 = b' % 16 ^ 4 ∧ c % 16 ^ 4 = c' % 16 ^ 4 ∧
        d % 16 ^ 4 = d' % 16 ^ 4 ∧ e % 16 ^ 12 = e' % 16 ^ 12 := by
  simp only [← hexField_inj]
  constructor
  · intro h
    obtain ⟨h, he⟩ := List.append_inj' h (by simp)
    obtain ⟨h, hd⟩ := List.append_inj' h (by simp)
    obtain ⟨h, hc⟩ := List.append_inj' h (by simp)
    obtain ⟨ha, hb⟩ := List.append_inj' h (by simp)
    exact ⟨ha, (List.cons.inj hb).2, (List.cons.inj hc).2, (List.cons.inj hd).2,
      (List.cons.inj he).2⟩
  · rintro ⟨ha, hb, hc, hd, he⟩
    rw [keyText, keyText, ha, hb, hc, hd, he]

/-- A session key is five fields of 8, 4, 4, 4 and 12 lower-case hexadecimal digits, the third
beginning with the version 4 and the fourth with the variant; and it shows all other bits of the two
words and nothing else : the keys of two calls agree exactly if these bits do. -/
theorem session_key_text (hi lo hi' lo' : UInt64) :
    (∃ a b c d e, makeSessionKey hi lo = a ++ '-' :: b ++ '-' :: c ++ '-' :: d ++ '-' :: e ∧
      (a.length = 8 ∧ b.length = 4 ∧ c.length = 4 ∧ d.length = 4 ∧ e.length = 12) ∧
      (∀ x ∈ a ++ b ++ c ++ d ++ e, x ∈ kHex) ∧ c.head? = some '4' ∧
      ∃ v ∈ ['8', '9', 'a', 'b'], d.head? = some v) ∧
    (makeSessionKey hi lo = makeSessionKey hi' lo' ↔
      hi.toNat / 2 ^ 16 = hi'.toNat / 2 ^ 16 ∧ hi.toNat % 2 ^ 12 = hi'.toNat % 2 ^ 12 ∧
        lo.toNat % 2 ^ 62 = lo'.toNat % 2 ^ 62) := by
  refine ⟨?_, ?_⟩
  · obtain ⟨hversion, hvariant⟩ := head_hexField (Nat.mod_lt hi.toNat (by positivity))
      (Nat.mod_lt (lo.toNat / 2 ^ 48) (by positivity))
    refine ⟨_, _, _, _, _, makeSessionKey_eq hi lo, by simp, ?_, hversion, hvariant⟩
    intro x hx
    simp only [List.mem_append] at hx
    obtain (((hx | hx) | hx) | hx) | hx := hx
    all_goals exact mem_kHex_of_mem_hexField hx
  · have hlt := hi.toNat_lt
    have hlt' := hi'.toNat_lt
    have hdiv : ∀ x : ℕ, x / 2 ^ 32 = x / 2 ^ 16 / 2 ^ 16 := fun x =>
      (Nat.div_div_eq_div_mul x (2 ^ 16) (2 ^ 16)).symm
    rw [makeSessionKey_eq, makeSessionKey_eq, keyText_inj, mod_two_pow_inj, hdiv, hdiv]
    omega

end EchoServer
