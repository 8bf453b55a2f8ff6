/-
Fixed-width number fields.

A field of `k` bytes holds a number below `Field.limit k`.  Writing takes any number
and keeps its `k` lowest base-256 digits; reading takes the first `k` bytes, or nothing
at all when fewer remain.  Each direction undoes the other, so a format built of
fields has one reading per byte string and one byte string per reading.

Big-endian fields put the leading digit first; a little-endian field is a
big-endian one reversed.
-/

namespace Framecast

/-- The contents of a datagram, a payload or a key, one element per byte. -/
abbrev Bytes := List UInt8

namespace Field

/-- The least number with more than `k` base-256 digits. -/
def limit (k : Nat) : Nat := Nat.pow 256 k

/-- The number whose base-256 digits are `b`, leading digit first. -/
def value : Bytes → Nat
  | [] => 0
  | d :: rest => d.toNat * limit rest.length + value rest

/-- The `k` lowest base-256 digits of `n`, leading digit first. -/
def digits : (k : Nat) → (n : Nat) → Bytes
  | 0, _ => []
  | k + 1, n => UInt8.ofNat (n / limit k) :: digits k n

/-- Reads a big-endian field of `k` bytes and returns what follows it. -/
def take? (k : Nat) (b : Bytes) : Option (Nat × Bytes) :=
  if k ≤ b.length then some (value (b.take k), b.drop k) else none

/-- Writes a little-endian field of `k` bytes. -/
def digitsLow (k : Nat) (n : Nat) : Bytes :=
  (digits k n).reverse

/-- Reads a little-endian field of `k` bytes and returns what follows it. -/
def takeLow? (k : Nat) (b : Bytes) : Option (Nat × Bytes) :=
  if k ≤ b.length then some (value (b.take k).reverse, b.drop k) else none

/-! ### How many numbers a field can hold -/

@[simp] theorem limit_zero : limit 0 = 1 := rfl

theorem limit_succ (k : Nat) : limit (k + 1) = limit k * 256 := rfl

theorem limit_pos (k : Nat) : 0 < limit k :=
  Nat.pow_pos (by omega)

theorem limit_add (j k : Nat) : limit (j + k) = limit j * limit k :=
  Nat.pow_add 256 j k

/-! ### Each direction undoes the other -/

@[simp] theorem length_digits (k n : Nat) : (digits k n).length = k := by
  induction k with
  | zero => rfl
  | succ k ih => simp [digits, ih]

theorem value_lt (b : Bytes) : value b < limit b.length := by
  induction b with
  | nil => exact Nat.one_pos
  | cons d rest ih =>
    have hd := d.toNat_lt
    rw [value, List.length_cons, limit_succ]
    calc d.toNat * limit rest.length + value rest
        < d.toNat * limit rest.length + limit rest.length := by omega
      _ = (d.toNat + 1) * limit rest.length := by rw [Nat.add_mul]; omega
      _ ≤ 256 * limit rest.length := Nat.mul_le_mul_right _ (by omega)
      _ = limit rest.length * 256 := Nat.mul_comm _ _

/-- What is read back is the number modulo the size of the field. -/
theorem value_digits (k n : Nat) : value (digits k n) = n % limit k := by
  induction k with
  | zero => rw [limit_zero, Nat.mod_one]; rfl
  | succ k ih =>
    rw [digits, value, ih, length_digits, limit_succ, Nat.mod_mul]
    simp only [UInt8.toNat_ofNat']
    rw [Nat.mul_comm, Nat.add_comm]

/-- Writing looks at the number only modulo the size of the field. -/
theorem digits_mod (k n m : Nat) (h : k ≤ m) : digits k (n % limit m) = digits k n := by
  induction k with
  | zero => rfl
  | succ k ih =>
    rw [digits, digits, ih (by omega)]
    congr 1
    apply UInt8.toNat_inj.mp
    simp only [UInt8.toNat_ofNat']
    obtain ⟨j, rfl⟩ : ∃ j, m = k + 1 + j := ⟨m - (k + 1), by omega⟩
    rw [limit_add, limit_succ, Nat.mul_assoc, Nat.mod_mul_right_div_self, Nat.mod_mul]
    omega

/-- A byte string is the writing of the number it holds. -/
theorem digits_value (b : Bytes) : digits b.length (value b) = b := by
  induction b with
  | nil => rfl
  | cons d rest ih =>
    have hd := d.toNat_lt
    have hv := value_lt rest
    rw [List.length_cons, digits, value]
    congr 1
    · apply UInt8.toNat_inj.mp
      rw [Nat.add_comm, Nat.add_mul_div_right _ _ (limit_pos _),
        Nat.div_eq_of_lt hv]
      simp only [UInt8.toNat_ofNat']
      omega
    · rw [← digits_mod rest.length _ rest.length (Nat.le_refl _), Nat.mul_comm,
        Nat.mul_add_mod, digits_mod _ _ _ (Nat.le_refl _), ih]

/-- A reader takes back what a writer put in front. -/
theorem take?_digits_append (k n : Nat) (rest : Bytes) :
    take? k (digits k n ++ rest) = some (n % limit k, rest) := by
  simp [take?, value_digits]

/-- What a reader took is what a writer would have put in front. -/
theorem eq_of_take?_eq_some {k n : Nat} {b rest : Bytes} (h : take? k b = some (n, rest)) :
    b = digits k n ++ rest ∧ n < limit k := by
  unfold take? at h
  split at h
  · rename_i hk
    have hlen : (b.take k).length = k := by simp [hk]
    simp only [Option.some.injEq, Prod.mk.injEq] at h
    obtain ⟨rfl, rfl⟩ := h
    refine ⟨?_, by simpa [hlen] using value_lt (b.take k)⟩
    have := digits_value (b.take k)
    rw [hlen] at this
    rw [this, List.take_append_drop]
  · cases h

/-- A reader succeeds exactly on what a writer puts in front. -/
theorem take?_eq_some_iff {k n : Nat} {b rest : Bytes} :
    take? k b = some (n, rest) ↔ n < limit k ∧ b = digits k n ++ rest := by
  constructor
  · intro h
    obtain ⟨hb, hn⟩ := eq_of_take?_eq_some h
    exact ⟨hn, hb⟩
  · rintro ⟨hn, rfl⟩
    rw [take?_digits_append, Nat.mod_eq_of_lt hn]

/-! ### Little-endian fields -/

@[simp] theorem length_digitsLow (k n : Nat) : (digitsLow k n).length = k := by
  simp [digitsLow]

theorem takeLow?_eq_some_iff {k n : Nat} {b rest : Bytes} :
    takeLow? k b = some (n, rest) ↔ n < limit k ∧ b = digitsLow k n ++ rest := by
  unfold takeLow? digitsLow
  constructor
  · intro h
    split at h
    · rename_i hk
      have hlen : (b.take k).reverse.length = k := by simp [hk]
      have hlt := value_lt (b.take k).reverse
      have hback := digits_value (b.take k).reverse
      rw [hlen] at hlt hback
      simp only [Option.some.injEq, Prod.mk.injEq] at h
      obtain ⟨rfl, rfl⟩ := h
      refine ⟨hlt, ?_⟩
      rw [hback, List.reverse_reverse, List.take_append_drop]
    · cases h
  · rintro ⟨hn, rfl⟩
    simp [value_digits, Nat.mod_eq_of_lt hn]

end Field

end Framecast
