/-
A bundle gives its units back.

A bundle can be written if it fits the buffer and its numbers fit their fields (`Fits`), and
then it takes the front of the buffer and leaves the rest alone.

The reader goes over the bundle twice: it takes the sizes off the front, one field for each,
and then cuts what follows into pieces of these sizes.  Each pass has one lemma that says
what it accepts and what it leaves: `takeSizes?_eq_some_iff` and `cut?_eq_some_iff`, both by
induction on the sizes.  Put together they say that the reader accepts exactly the bundles of
units that fit, with anything behind them.  So no bundle is the beginning of another one,
and a bundle that is cut short is not read.
-/
import Framecast.Media.FrameBundle

namespace Framecast.FrameBundle

/-- The number of units and their sizes fit the fields of a bundle. -/
def Fits (units : List Bytes) : Prop :=
  units.length < fieldLimit ∧ ∀ u ∈ units, u.length < fieldLimit

theorem not_fits_iff {units : List Bytes} :
    ¬ Fits units ↔ units.length ≥ fieldLimit ∨ ∃ u ∈ units, u.length ≥ fieldLimit := by
  simp only [Fits, Classical.not_and_iff_not_or_not, Nat.not_lt, Classical.not_forall,
    exists_prop, ge_iff_le]

/-! ### Writing -/

theorem length_sizes (units : List Bytes) :
    (units.flatMap fun u => Field.digitsLow 4 u.length).length = 4 * units.length := by
  induction units with
  | nil => rfl
  | cons u rest ih =>
      rw [List.flatMap_cons, List.length_append, ih, Field.length_digitsLow, List.length_cons]
      omega

theorem length_encode (units : List Bytes) : (encode units).length = size units := by
  rw [encode, List.length_append, List.length_append, length_sizes, Field.length_digitsLow, size]

/-- A bundle that fits is put in front of what the buffer held behind it. -/
theorem write_of_fits {units : List Bytes} {buffer : Bytes} (hsize : size units ≤ buffer.length)
    (hfits : Fits units) :
    write units buffer = (.ok (size units), encode units ++ buffer.drop (size units)) := by
  unfold write
  rw [if_neg (Nat.not_lt.mpr hsize), if_neg fun hlarge => not_fits_iff.mpr hlarge hfits]

/-- Any other bundle is refused, and nothing is written. -/
theorem write_of_not_fits {units : List Bytes} {buffer : Bytes}
    (h : ¬ (size units ≤ buffer.length ∧ Fits units)) :
    ∃ e, write units buffer = (.error e, buffer) := by
  unfold write
  by_cases hsize : size units > buffer.length
  · rw [if_pos hsize]
    exact ⟨_, rfl⟩
  · have hlarge : ¬ Fits units := fun hfits => h ⟨Nat.not_lt.mp hsize, hfits⟩
    rw [if_neg hsize, if_pos (not_fits_iff.mp hlarge)]
    exact ⟨_, rfl⟩

theorem write_eq_ok_iff {units : List Bytes} {buffer : Bytes} {n : Nat} :
    (write units buffer).1 = .ok n ↔
      n = size units ∧ size units ≤ buffer.length ∧ Fits units := by
  by_cases h : size units ≤ buffer.length ∧ Fits units
  · rw [write_of_fits h.1 h.2]
    simp [h, eq_comm]
  · obtain ⟨e, he⟩ := write_of_not_fits h
    rw [he]
    simp [h]

/-! ### Reading -/

/-- What is read as sizes is one field for each of them. -/
theorem takeSizes?_eq_some_iff {n : Nat} {b rest : Bytes} {sizes : List Nat} :
    takeSizes? n b = some (sizes, rest) ↔
      sizes.length = n ∧ (∀ k ∈ sizes, k < fieldLimit) ∧
        b = sizes.flatMap (Field.digitsLow 4) ++ rest := by
  induction n generalizing b sizes rest with
  | zero =>
      rw [takeSizes?, List.length_eq_zero_iff]
      constructor
      · intro h
        simp only [Option.some.injEq, Prod.mk.injEq] at h
        obtain ⟨rfl, rfl⟩ := h
        simp
      · rintro ⟨rfl, -, rfl⟩
        rfl
  | succ n ih =>
      simp only [takeSizes?, Option.bind_eq_bind, Option.bind_eq_some_iff, Prod.exists,
        Field.takeLow?_eq_some_iff, ih, Option.some.injEq, Prod.mk.injEq]
      constructor
      · rintro ⟨k, _, ⟨hk, rfl⟩, later, _, ⟨hlength, hlater, rfl⟩, rfl, rfl⟩
        refine ⟨by rw [List.length_cons, hlength], ?_, ?_⟩
        · exact List.forall_mem_cons.mpr ⟨hk, hlater⟩
        · rw [List.flatMap_cons, List.append_assoc]
      · rintro ⟨hlength, hsizes, rfl⟩
        cases sizes with
        | nil => cases hlength
        | cons k later =>
            obtain ⟨hk, hlater⟩ := List.forall_mem_cons.mp hsizes
            refine ⟨k, _, ⟨hk, ?_⟩, later, rest, ⟨?_, hlater, rfl⟩, rfl, rfl⟩
            · rw [List.flatMap_cons, List.append_assoc]
            · simpa using hlength

/-- What is cut off in pieces of given sizes is these pieces one after another. -/
theorem cut?_eq_some_iff {sizes : List Nat} {b : Bytes} {units : List Bytes} :
    cut? sizes b = some units ↔
      units.map List.length = sizes ∧ ∃ rest, b = units.flatten ++ rest := by
  induction sizes generalizing b units with
  | nil =>
      rw [cut?, List.map_eq_nil_iff, Option.some.injEq]
      constructor
      · rintro rfl
        exact ⟨rfl, b, rfl⟩
      · rintro ⟨rfl, -⟩
        rfl
  | cons k later ih =>
      simp only [cut?, Option.ite_none_right_eq_some, Option.map_eq_some_iff, ih]
      constructor
      · rintro ⟨hle, units', ⟨rfl, rest, hrest⟩, rfl⟩
        refine ⟨by rw [List.map_cons, List.length_take_of_le hle], rest, ?_⟩
        rw [List.flatten_cons, List.append_assoc, ← hrest, List.take_append_drop]
      · rintro ⟨hsizes, rest, rfl⟩
        cases units with
        | nil => cases hsizes
        | cons u units' =>
            rw [List.map_cons, List.cons.injEq] at hsizes
            obtain ⟨rfl, rfl⟩ := hsizes
            rw [List.flatten_cons, List.append_assoc]
            refine ⟨by simp, units', ⟨rfl, rest, by simp⟩, by simp⟩

theorem encode_eq (units : List Bytes) : encode units =
    Field.digitsLow 4 units.length ++ (units.map List.length).flatMap (Field.digitsLow 4) ++
      units.flatten := by
  rw [encode, List.flatMap_map]

theorem encode_of_extract {b : Bytes} {units : List Bytes} (h : extract b = .ok units) :
    Fits units ∧ ∃ rest, b = encode units ++ rest := by
  unfold extract at h
  split at h
  · cases h
  · rename_i count behind hcount
    split at h
    · cases h
    · split at h
      · cases h
      · rename_i sizes bodies hsizes
        split at h
        · cases h
        · rename_i units' hcut
          simp only [Except.ok.injEq] at h
          subst h
          obtain ⟨hlimit, rfl⟩ := Field.takeLow?_eq_some_iff.mp hcount
          obtain ⟨hlength, hsmall, rfl⟩ := takeSizes?_eq_some_iff.mp hsizes
          obtain ⟨rfl, rest, rfl⟩ := cut?_eq_some_iff.mp hcut
          rw [List.length_map] at hlength
          subst hlength
          refine ⟨⟨hlimit, fun u hu => hsmall _ (List.mem_map_of_mem hu)⟩, rest, ?_⟩
          rw [encode_eq]
          simp only [List.append_assoc]

theorem extract_encode_append {units : List Bytes} (h : Fits units) (rest : Bytes) :
    extract (encode units ++ rest) = .ok units := by
  have hcount : Field.takeLow? 4 (encode units ++ rest) = some (units.length,
      (units.map List.length).flatMap (Field.digitsLow 4) ++ (units.flatten ++ rest)) := by
    rw [Field.takeLow?_eq_some_iff, encode_eq]
    exact ⟨h.1, by simp only [List.append_assoc]⟩
  have hsizes : takeSizes? units.length
      ((units.map List.length).flatMap (Field.digitsLow 4) ++ (units.flatten ++ rest)) =
        some (units.map List.length, units.flatten ++ rest) := by
    rw [takeSizes?_eq_some_iff]
    refine ⟨List.length_map .., ?_, rfl⟩
    intro k hk
    obtain ⟨u, hu, rfl⟩ := List.mem_map.mp hk
    exact h.2 u hu
  have hcut : cut? (units.map List.length) (units.flatten ++ rest) = some units :=
    cut?_eq_some_iff.mpr ⟨rfl, rest, rfl⟩
  -- The fields of the sizes are there, so the count is not more than the rest has room for.
  have hroom : ¬ units.length > ((units.map List.length).flatMap (Field.digitsLow 4) ++
      (units.flatten ++ rest)).length / 4 := by
    rw [List.flatMap_map, List.length_append, length_sizes]
    omega
  simp only [extract, hcount, if_neg hroom, hsizes, hcut]

/-- **The reader accepts the bundles of units that fit, with anything behind them.** -/
theorem extract_eq_ok_iff {b : Bytes} {units : List Bytes} :
    extract b = .ok units ↔ Fits units ∧ ∃ rest, b = encode units ++ rest := by
  constructor
  · exact encode_of_extract
  · rintro ⟨hfits, rest, rfl⟩
    exact extract_encode_append hfits rest

/-- A bundle that is cut short is refused: what would be read from it has its bundle at the
front, and so would be the units themselves. -/
theorem extract_of_isPrefix {units : List Bytes} (hfits : Fits units) {b : Bytes}
    (h : b <+: encode units) (hne : b ≠ encode units) : ∃ e, extract b = .error e := by
  cases hread : extract b with
  | error e => exact ⟨e, rfl⟩
  | ok units' =>
      exfalso
      obtain ⟨hfits', rest, rfl⟩ := extract_eq_ok_iff.mp hread
      obtain ⟨missing, hmissing⟩ := h
      have hsame : units' = units := by
        have hread' := extract_encode_append hfits' (rest ++ missing)
        have hback := extract_encode_append hfits []
        rw [← List.append_assoc, hmissing] at hread'
        rw [List.append_nil, hread', Except.ok.injEq] at hback
        exact hback
      subst hsame
      apply hne
      have hlength := congrArg List.length hmissing
      simp only [List.length_append] at hlength
      have hrest : rest = [] := List.eq_nil_of_length_eq_zero (by omega)
      rw [hrest, List.append_nil]

/--
**A bundle gives back the units it was made of.**

* Units are written exactly if their bundle is not longer than the buffer and their number
  and sizes fit four bytes.
* Then as many bytes are written as the bundle has, at the front of the buffer, and the
  rest of it stays; otherwise all of it stays.
* A byte string is read as units exactly if it is their bundle with anything behind it.
* So what was written is read back, and no longer if the bundle is cut short.
-/
theorem bundle_gives_units_back :
    (∀ (units : List Bytes) (buffer : Bytes),
      ((∃ n, (write units buffer).1 = .ok n) ↔ size units ≤ buffer.length ∧ Fits units) ∧
      (∀ n, (write units buffer).1 = .ok n →
        n = size units ∧ (write units buffer).2.length = buffer.length ∧
          (write units buffer).2.take n = encode units ∧
          (write units buffer).2.drop n = buffer.drop n ∧
          extract (write units buffer).2 = .ok units) ∧
      ∀ e, (write units buffer).1 = .error e → (write units buffer).2 = buffer) ∧
    (∀ (b : Bytes) (units : List Bytes), extract b = .ok units ↔
      Fits units ∧ ∃ rest, b = encode units ++ rest) ∧
    ∀ units : List Bytes, Fits units →
      ∀ b, b <+: encode units → b ≠ encode units → ∃ e, extract b = .error e := by
  refine ⟨fun units buffer => ⟨?_, ?_, ?_⟩, ?_, ?_⟩
  · simp only [write_eq_ok_iff, exists_eq_left]
  · intro n hn
    obtain ⟨rfl, hsize, hfits⟩ := write_eq_ok_iff.mp hn
    rw [write_of_fits hsize hfits]
    have hlength := length_encode units
    refine ⟨rfl, ?_, List.take_left' hlength, List.drop_left' hlength,
      extract_encode_append hfits _⟩
    rw [List.length_append, hlength, List.length_drop]
    omega
  · intro e he
    by_cases h : size units ≤ buffer.length ∧ Fits units
    · rw [write_of_fits h.1 h.2] at he
      cases he
    · obtain ⟨e', he'⟩ := write_of_not_fits h
      rw [he']
  · intro b units
    exact extract_eq_ok_iff
  · intro units hfits b h hne
    exact extract_of_isPrefix hfits h hne

/-- Three units, one of them empty, in a buffer of two bytes more than they need. -/
theorem bundle_gives_three_units_back :
    let units : List Bytes := [[97, 98, 99], [], [100, 101]]
    let buffer : Bytes := List.replicate 23 0xEE
    Fits units ∧ (write units buffer).1 = .ok 21 ∧
      (write units buffer).2.drop 21 = [0xEE, 0xEE] ∧
      extract (write units buffer).2 = .ok units ∧
      ∃ e, extract (encode units).dropLast = .error e := by
  intro units buffer
  have hfits : Fits units := ⟨by decide, by decide⟩
  obtain ⟨-, hwritten, -⟩ := bundle_gives_units_back.1 units buffer
  obtain ⟨-, -, -, hrest, hback⟩ := hwritten 21 rfl
  refine ⟨hfits, rfl, hrest, hback, ?_⟩
  exact bundle_gives_units_back.2.2 units hfits _ (List.dropLast_prefix _) (by decide)

end Framecast.FrameBundle
