import Mathlib

/-!
# Numbers of variable length

A number is written in bytes of seven bits each, the lowest first; the top bit of a byte says
that another one follows.
-/

namespace Varint

/-- `n` in at most `k` bytes. -/
def encode : Nat → Nat → List UInt8
  | 0, _ => []
  | k + 1, n =>
    if 128 ≤ n then .ofNat (128 + n % 128) :: encode k (n / 128) else [.ofNat n]

/-- The number of at most `k` bytes in front, and what follows it. -/
def decode : Nat → List UInt8 → Option (Nat × List UInt8)
  | 0, _ => none
  | _ + 1, [] => none
  | k + 1, b :: rest =>
    if 128 ≤ b.toNat then (decode k rest).map (Prod.map (b.toNat % 128 + 128 * ·) id)
    else some (b.toNat, rest)

variable {k n : Nat}

theorem decode_cons_of_lt {b : UInt8} {rest : List UInt8} (h : b.toNat < 128) :
    decode (k + 1) (b :: rest) = some (b.toNat, rest) := by
  rw [decode, if_neg (Nat.not_le_of_lt h)]

theorem decode_cons_of_le {b : UInt8} {bytes rest : List UInt8} (h : 128 ≤ b.toNat)
    (hr : decode k bytes = some (n, rest)) :
    decode (k + 1) (b :: bytes) = some (b.toNat % 128 + 128 * n, rest) := by
  rw [decode, if_pos h, hr]
  rfl

theorem toNat_ofNat (h : n < 2 ^ 8) : (UInt8.ofNat n).toNat = n :=
  UInt8.toNat_ofNat_of_lt' h

theorem decode_encode (h : n < 128 ^ (k + 1)) (rest : List UInt8) :
    decode (k + 1) (encode (k + 1) n ++ rest) = some (n, rest) := by
  induction k generalizing n with
  | zero =>
    have hlt : n < 128 := by simpa using h
    have hbyte : (UInt8.ofNat n).toNat = n := toNat_ofNat (by omega)
    rw [encode, if_neg (by omega), List.singleton_append,
      decode_cons_of_lt (by omega), hbyte]
  | succ k ih =>
    rw [encode]
    by_cases hle : 128 ≤ n
    · have hbyte : (UInt8.ofNat (128 + n % 128)).toNat = 128 + n % 128 := toNat_ofNat (by omega)
      have hhigh : n / 128 < 128 ^ (k + 1) := by
        rw [Nat.div_lt_iff_lt_mul (by decide), ← Nat.pow_succ]
        exact h
      rw [if_pos hle, List.cons_append, decode_cons_of_le (by omega) (ih hhigh), hbyte,
        Nat.add_mod_left, Nat.mod_mod, Nat.mod_add_div]
    · have hbyte : (UInt8.ofNat n).toNat = n := toNat_ofNat (by omega)
      rw [if_neg hle, List.singleton_append, decode_cons_of_lt (by omega), hbyte]

theorem length_pos (h : 0 < k) : 0 < (encode k n).length := by
  obtain ⟨k, rfl⟩ := Nat.exists_eq_add_one_of_ne_zero (Nat.ne_of_gt h)
  rw [encode]
  split <;> exact Nat.succ_pos _

/-- What is left is shorter. -/
theorem decode_length {bytes rest : List UInt8} (h : decode k bytes = some (n, rest)) :
    rest.length < bytes.length := by
  induction k, bytes using decode.induct generalizing n with
  | case1 => exact absurd h (by simp [decode])
  | case2 => exact absurd h (by simp [decode])
  | case3 k b bytes hle ih =>
    rw [decode, if_pos hle] at h
    obtain ⟨⟨m, rest'⟩, hr, he⟩ := Option.map_eq_some_iff.mp h
    obtain rfl := (Prod.mk.inj he).2
    exact Nat.lt_succ_of_lt (ih hr)
  | case4 k b bytes hlt =>
    rw [decode, if_neg hlt] at h
    obtain rfl := (Prod.mk.inj (Option.some.inj h)).2
    exact Nat.lt_succ_self _

end Varint
