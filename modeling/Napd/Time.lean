import Napd.Basic

/-!
Times of `time.hh`, in seconds and microseconds.

* `normalize`, `add`, `sub` and the comparisons, as the operators of `Time` compute them; the
  fields are numbers without a width, as nothing here overflows.
* `total`: what a time stands for, in microseconds; `Normal`: its microseconds are less than
  a second.
* `normal_normalize`, `total_normalize`: normalizing keeps the total, whatever the sign of the
  microseconds.
* `ge_iff_total` and its companions: on normal times the comparisons are those of the totals.
* `arithmetic_exact`: **sums and differences of times are normal and exact, and the comparisons
  agree with them.**
-/

namespace Napd

/-- `struct Time : timeval`. -/
structure Time where
  tv_sec : ℤ
  tv_usec : ℤ
  deriving DecidableEq

namespace Time

/-- `timercmp` of glibc: the seconds decide, and the microseconds when they are equal. -/
def timercmp (a b : Time) (cmp : ℤ → ℤ → Bool) : Bool :=
  if a.tv_sec = b.tv_sec then cmp a.tv_usec b.tv_usec else cmp a.tv_sec b.tv_sec

/-- `operator ==`. -/
def eq (t u : Time) : Bool := t.tv_sec = u.tv_sec && t.tv_usec = u.tv_usec

/-- `operator !=`. -/
def ne (t u : Time) : Bool := t.tv_sec ≠ u.tv_sec || t.tv_usec ≠ u.tv_usec

/-- `operator <`. -/
def lt (t u : Time) : Bool := timercmp t u fun x y => x < y

/-- `operator <=`. -/
def le (t u : Time) : Bool := timercmp t u fun x y => x ≤ y

/-- `operator >`. -/
def gt (t u : Time) : Bool := timercmp t u fun x y => x > y

/-- `operator >=`. -/
def ge (t u : Time) : Bool := timercmp t u fun x y => x ≥ y

/-- `operator !`. -/
def not (t : Time) : Bool := t.tv_sec = 0 && t.tv_usec = 0

/-- `Time::normalize`: division and remainder of C round toward zero. -/
def normalize (t : Time) : Time :=
  let tv_sec := t.tv_sec + t.tv_usec.tdiv 1000000
  let tv_usec := t.tv_usec.tmod 1000000
  if tv_usec < 0 then ⟨tv_sec - 1, tv_usec + 1000000⟩ else ⟨tv_sec, tv_usec⟩

/-- `operator +`, through `operator +=`. -/
def add (t u : Time) : Time := normalize ⟨t.tv_sec + u.tv_sec, t.tv_usec + u.tv_usec⟩

/-- `operator -`, through `operator -=`. -/
def sub (t u : Time) : Time := normalize ⟨t.tv_sec - u.tv_sec, t.tv_usec - u.tv_usec⟩

/-- `Time(int)`. -/
def ofInt (i : ℤ) : Time := ⟨i, 0⟩

/-! ### What a time stands for -/

/-- The microseconds a time stands for, as `usecs` computes them. -/
def total (t : Time) : ℤ := 1000000 * t.tv_sec + t.tv_usec

/-- The microseconds are less than a second. -/
def Normal (t : Time) : Prop := 0 ≤ t.tv_usec ∧ t.tv_usec < 1000000

instance (t : Time) : Decidable t.Normal :=
  inferInstanceAs (Decidable (0 ≤ t.tv_usec ∧ t.tv_usec < 1000000))

@[simp] lemma total_mk (s u : ℤ) : total ⟨s, u⟩ = 1000000 * s + u := rfl

lemma normal_ofInt (i : ℤ) : (ofInt i).Normal := ⟨le_refl 0, show (0 : ℤ) < 1000000 by norm_num⟩

/-- The remainder is short of a second on either side, and the fix-up brings the negative ones
back into range. -/
lemma normal_normalize (t : Time) : t.normalize.Normal := by
  have hlo := Int.lt_tmod_of_pos t.tv_usec (b := 1000000) (by decide)
  have hhi := Int.tmod_lt_of_pos t.tv_usec (b := 1000000) (by decide)
  rw [normalize]
  split_ifs with h
  · exact ⟨by dsimp only; omega, by dsimp only; omega⟩
  · exact ⟨not_lt.mp h, hhi⟩

/-- The second that the fix-up takes is the million microseconds it gives. -/
lemma total_normalize (t : Time) : t.normalize.total = t.total := by
  have hdiv : 1000000 * t.tv_usec.tdiv 1000000 + t.tv_usec.tmod 1000000 = t.tv_usec :=
    Int.mul_tdiv_add_tmod _ _
  rw [normalize]
  split_ifs with h
  · calc 1000000 * (t.tv_sec + t.tv_usec.tdiv 1000000 - 1) + (t.tv_usec.tmod 1000000 + 1000000)
        = 1000000 * t.tv_sec
            + (1000000 * t.tv_usec.tdiv 1000000 + t.tv_usec.tmod 1000000) := by ring
      _ = t.total := by rw [hdiv, total]
  · calc 1000000 * (t.tv_sec + t.tv_usec.tdiv 1000000) + t.tv_usec.tmod 1000000
        = 1000000 * t.tv_sec
            + (1000000 * t.tv_usec.tdiv 1000000 + t.tv_usec.tmod 1000000) := by ring
      _ = t.total := by rw [hdiv, total]

lemma normal_add (t u : Time) : (t.add u).Normal := normal_normalize _

lemma normal_sub (t u : Time) : (t.sub u).Normal := normal_normalize _

lemma total_add (t u : Time) : (t.add u).total = t.total + u.total := by
  calc (t.add u).total
      = 1000000 * (t.tv_sec + u.tv_sec) + (t.tv_usec + u.tv_usec) := total_normalize _
    _ = t.total + u.total := by rw [total, total]; ring

lemma total_sub (t u : Time) : (t.sub u).total = t.total - u.total := by
  calc (t.sub u).total
      = 1000000 * (t.tv_sec - u.tv_sec) + (t.tv_usec - u.tv_usec) := total_normalize _
    _ = t.total - u.total := by rw [total, total]; ring

/-! ### The comparisons -/

/-- Seconds first, then microseconds: the order of the totals, for normal times. -/
lemma total_lt_iff {t u : Time} (ht : t.Normal) (hu : u.Normal) :
    t.total < u.total ↔ t.tv_sec < u.tv_sec ∨ t.tv_sec = u.tv_sec ∧ t.tv_usec < u.tv_usec := by
  obtain ⟨ht0, ht1⟩ := ht
  obtain ⟨hu0, hu1⟩ := hu
  rw [total, total]
  omega

/-- A normal time is its total. -/
lemma total_inj {t u : Time} (ht : t.Normal) (hu : u.Normal) : t.total = u.total ↔ t = u := by
  refine ⟨fun h => ?_, fun h => h ▸ rfl⟩
  have h1 := mt (total_lt_iff ht hu).mpr h.not_lt
  have h2 := mt (total_lt_iff hu ht).mpr h.not_gt
  cases t
  cases u
  simp only [mk.injEq] at h1 h2 ⊢
  omega

lemma lt_iff_total {t u : Time} (ht : t.Normal) (hu : u.Normal) :
    t.lt u = true ↔ t.total < u.total := by
  rw [total_lt_iff ht hu, lt, timercmp]
  split_ifs with h
  · simp [h]
  · simp [h]

lemma le_iff_total {t u : Time} (ht : t.Normal) (hu : u.Normal) :
    t.le u = true ↔ t.total ≤ u.total := by
  rw [← not_lt, total_lt_iff hu ht, le, timercmp]
  split_ifs with h
  · simp [h]
  · simp only [decide_eq_true_eq]
    omega

lemma gt_eq_lt (t u : Time) : t.gt u = u.lt t := by
  rw [gt, lt, timercmp, timercmp]
  simp only [eq_comm (a := u.tv_sec), gt_iff_lt]

lemma ge_eq_le (t u : Time) : t.ge u = u.le t := by
  rw [ge, le, timercmp, timercmp]
  simp only [eq_comm (a := u.tv_sec), ge_iff_le]

lemma ge_iff_total {t u : Time} (ht : t.Normal) (hu : u.Normal) :
    t.ge u = true ↔ u.total ≤ t.total := by
  rw [ge_eq_le, le_iff_total hu ht]

lemma eq_iff (t u : Time) : t.eq u = true ↔ t = u := by
  cases t
  cases u
  simp [eq]

lemma ne_iff (t u : Time) : t.ne u = true ↔ t ≠ u := by
  cases t
  cases u
  simp only [ne, Bool.or_eq_true, decide_eq_true_eq, ne_eq, mk.injEq]
  tauto

lemma ge_trans {t u v : Time} (htu : t.ge u = true) (huv : u.ge v = true) : t.ge v = true := by
  simp only [ge, timercmp] at *
  split_ifs at * <;> simp only [decide_eq_true_eq] at * <;> omega

/-- What is later is further from what is earlier. -/
lemma sub_ge_sub {t u v w : Time} (htu : t.total ≤ u.total) (hvw : v.total ≤ w.total) :
    (u.sub v).ge (t.sub w) = true := by
  rw [ge_iff_total (normal_sub u v) (normal_sub t w), total_sub, total_sub]
  exact Int.sub_le_sub htu hvw

/-- A normal time that is not before another is not less in total, as long as the other has no
more than a second of microseconds. -/
lemma total_le_of_ge {t u : Time} (ht : t.Normal) (hu : u.tv_usec ≤ 1000000)
    (h : t.ge u = true) : u.total ≤ t.total := by
  obtain ⟨ht0, ht1⟩ := ht
  simp only [ge, timercmp] at h
  rw [total, total]
  split_ifs at h <;> simp only [decide_eq_true_eq] at h <;> omega

/-- **Arithmetic of times is exact and ordered.** -/
theorem arithmetic_exact :
    (∀ t u : Time, (t.add u).Normal ∧ (t.add u).total = t.total + u.total) ∧
    (∀ t u : Time, (t.sub u).Normal ∧ (t.sub u).total = t.total - u.total) ∧
    (∀ t u : Time, t.Normal → u.Normal →
      (t.lt u = true ↔ t.total < u.total) ∧ (t.le u = true ↔ t.total ≤ u.total) ∧
      (t.gt u = true ↔ t.total > u.total) ∧ (t.ge u = true ↔ t.total ≥ u.total) ∧
      (t.eq u = true ↔ t.total = u.total) ∧ (t.ne u = true ↔ t.total ≠ u.total)) ∧
    (∀ t u : Time, t.Normal → (t.add u).sub u = t) ∧
    ∀ t v u : Time, t.Normal → v.Normal → (t.lt v = true ↔ (t.add u).lt (v.add u) = true) := by
  refine ⟨fun t u => ⟨normal_add t u, total_add t u⟩, fun t u => ⟨normal_sub t u, total_sub t u⟩,
    fun t u ht hu => ⟨lt_iff_total ht hu, le_iff_total ht hu, ?_, ge_iff_total ht hu, ?_, ?_⟩,
    fun t u ht => ?_, fun t v u ht hv => ?_⟩
  · rw [gt_eq_lt, lt_iff_total hu ht]
  · rw [eq_iff, total_inj ht hu]
  · rw [ne_iff, Ne, Ne, total_inj ht hu]
  · refine (total_inj (normal_sub _ _) ht).mp ?_
    calc ((t.add u).sub u).total
        = t.total + u.total - u.total := by rw [total_sub, total_add]
      _ = t.total := by ring
  · rw [lt_iff_total ht hv, lt_iff_total (normal_add t u) (normal_add v u), total_add, total_add]
    exact (add_lt_add_iff_right u.total).symm

/-- Ninety seconds less a quarter of a second, given as negative microseconds. -/
theorem arithmetic_exact_quarter :
    (add ⟨90, 0⟩ ⟨0, -250000⟩).sub ⟨0, -250000⟩ = ⟨90, 0⟩ ∧
    ((add ⟨90, 0⟩ ⟨0, -250000⟩).lt (add ⟨90, 1⟩ ⟨0, -250000⟩) = true) :=
  ⟨arithmetic_exact.2.2.2.1 ⟨90, 0⟩ ⟨0, -250000⟩ (by decide),
    (arithmetic_exact.2.2.2.2 ⟨90, 0⟩ ⟨90, 1⟩ ⟨0, -250000⟩ (by decide) (by decide)).mp (by decide)⟩

end Time

end Napd
