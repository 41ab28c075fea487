import Mathlib.Data.Int.Interval
import Mathlib.Data.Int.Log
import Mathlib.Data.Rat.Floor
import Mathlib.Tactic.Linarith
import Mathlib.Tactic.Positivity

/-!
# Binary floating-point numbers and their rounding

A binary format holds the numbers `m * 2 ^ e` whose mantissa `m` has at most `prec` bits and
whose exponent `e` is at least `minExp`.  A result that is not such a number is rounded to the
nearest one, and to the one with an even mantissa when two are equally near.  Formats have no
largest number here, so the rounding says nothing about overflow.

## Main definitions

* `BinaryFormat`, `BinaryFormat.IsNumber` : a format and the rationals it holds.
* `roundEven` : the nearest integer, ties to even.
* `BinaryFormat.round` : the nearest number of the format.
* `BinaryFormat.Number` : the numbers of a format, with `BinaryFormat.toNumber` rounding to them.
* `BinaryFormat.double`, `BinaryFormat.float` : double and single precision.

## Main results

* `round_mono` : rounding is monotone.
* `round_of_isNumber` : rounding keeps the numbers of the format.
* `isNumber_round` : rounding gives a number of the format.
* `IsNumber.exists_mul_zpow` : a number of at least `2 ^ k` is a multiple of
  `2 ^ (k + 1 - prec)`.
* `round_sub_one_lt`, `lt_round_add_one` : a step of one unit is not lost in rounding.
-/

namespace InputLeap

/-- A binary floating-point format. -/
structure BinaryFormat where
  /-- The number of bits of a mantissa. -/
  prec : ℕ
  /-- The exponent of the smallest positive number. -/
  minExp : ℤ
  prec_pos : 0 < prec

/-- The nearest integer, the even one of two that are equally near. -/
def roundEven (x : ℚ) : ℤ :=
  if Int.fract x < 1 / 2 then ⌊x⌋
  else if 1 / 2 < Int.fract x then ⌊x⌋ + 1
  else if ⌊x⌋ % 2 = 0 then ⌊x⌋ else ⌊x⌋ + 1

@[simp] theorem roundEven_intCast (n : ℤ) : roundEven (n : ℚ) = n := by
  simp [roundEven]

theorem floor_le_roundEven (x : ℚ) : ⌊x⌋ ≤ roundEven x := by
  unfold roundEven
  split_ifs <;> omega

theorem roundEven_le_floor_add_one (x : ℚ) : roundEven x ≤ ⌊x⌋ + 1 := by
  unfold roundEven
  split_ifs <;> omega

theorem roundEven_mono {x y : ℚ} (h : x ≤ y) : roundEven x ≤ roundEven y := by
  obtain hlt | heq := (Int.floor_mono h).lt_or_eq
  · have hx := roundEven_le_floor_add_one x
    have hy := floor_le_roundEven y
    omega
  · -- both are rounded from the same integer, and the fraction decides
    have hf : Int.fract x ≤ Int.fract y := by
      rw [← Int.self_sub_floor, ← Int.self_sub_floor, heq]
      linarith
    unfold roundEven
    rw [heq]
    split_ifs <;> first | omega | (exfalso; linarith)

theorem roundEven_neg (x : ℚ) : roundEven (-x) = -roundEven x := by
  obtain h0 | h0 := eq_or_ne (Int.fract x) 0
  · obtain ⟨n, rfl⟩ : ∃ n : ℤ, (n : ℚ) = x := ⟨⌊x⌋, by rw [← Int.self_sub_floor] at h0; linarith⟩
    have hn : (-(n : ℚ)) = ((-n : ℤ) : ℚ) := by push_cast; rfl
    rw [hn, roundEven_intCast, roundEven_intCast]
  · have hfr : Int.fract (-x) = 1 - Int.fract x := Int.fract_neg h0
    have hfl : ⌊-x⌋ = -⌊x⌋ - 1 := by
      have h1 : ((⌊-x⌋ : ℤ) : ℚ) = -⌊x⌋ - 1 := by
        have e1 := Int.self_sub_floor x
        have e2 := Int.self_sub_floor (-x)
        linarith
      exact_mod_cast h1
    unfold roundEven
    rw [hfr, hfl]
    split_ifs <;> first | omega | (exfalso; linarith)

namespace BinaryFormat

variable (f : BinaryFormat)

/-- `x` is a number of the format. -/
def IsNumber (x : ℚ) : Prop :=
  ∃ m e : ℤ, |m| < 2 ^ f.prec ∧ f.minExp ≤ e ∧ x = m * 2 ^ e

/-- The exponent of the numbers next to `x`. -/
def exponent (x : ℚ) : ℤ := max (Int.log 2 |x| + 1 - f.prec) f.minExp

/-- The number of the format nearest to `x`. -/
def round (x : ℚ) : ℚ := roundEven (x / 2 ^ f.exponent x) * 2 ^ f.exponent x

variable {f}

theorem IsNumber.neg {x : ℚ} (h : f.IsNumber x) : f.IsNumber (-x) := by
  obtain ⟨m, e, hm, he, rfl⟩ := h
  exact ⟨-m, e, by rwa [abs_neg], he, by push_cast; ring⟩

/-- The integers a mantissa can hold are numbers of a format with whole numbers. -/
theorem isNumber_intCast (he : f.minExp ≤ 0) {n : ℤ} (hn : |n| < 2 ^ f.prec) :
    f.IsNumber (n : ℚ) :=
  ⟨n, 0, hn, he, by simp⟩

/-- A multiple of `2 ^ e` smaller than `2 ^ (e + prec)` is a number of the format. -/
theorem isNumber_mul_zpow {m e : ℤ} (he : f.minExp ≤ e)
    (h : |(m : ℚ) * 2 ^ e| < 2 ^ (e + f.prec)) : f.IsNumber (m * 2 ^ e) := by
  refine ⟨m, e, ?_, he, rfl⟩
  have hp : (0 : ℚ) < 2 ^ e := zpow_pos two_pos e
  rw [abs_mul, abs_of_pos hp, zpow_add₀ two_ne_zero, mul_comm, mul_lt_mul_iff_right₀ hp,
    zpow_natCast] at h
  exact_mod_cast h

/-- A number of at least `2 ^ k` is a multiple of the unit in the last place of `2 ^ k`. -/
theorem IsNumber.exists_mul_zpow {x : ℚ} (h : f.IsNumber x) {k : ℤ} (hx : 2 ^ k ≤ |x|) :
    ∃ n : ℤ, x = n * 2 ^ (k + 1 - f.prec) := by
  obtain ⟨m, e, hm, -, rfl⟩ := h
  have hp : (0 : ℚ) < 2 ^ e := zpow_pos two_pos e
  have hlt : (2 : ℚ) ^ k < 2 ^ ((f.prec : ℤ) + e) := by
    refine hx.trans_lt ?_
    rw [abs_mul, abs_of_pos hp, zpow_add₀ two_ne_zero, zpow_natCast]
    exact mul_lt_mul_of_pos_right (by exact_mod_cast hm) hp
  have hk : k < f.prec + e := (zpow_lt_zpow_iff_right₀ (by norm_num)).mp hlt
  obtain ⟨d, hd⟩ : ∃ d : ℕ, e = (k + 1 - f.prec) + d := ⟨(e - (k + 1 - f.prec)).toNat, by omega⟩
  refine ⟨m * 2 ^ d, ?_⟩
  rw [hd, zpow_add₀ two_ne_zero, zpow_natCast]
  push_cast
  ring

/-! ### Rounding -/

theorem unit_pos (x : ℚ) : (0 : ℚ) < 2 ^ f.exponent x := zpow_pos two_pos _

theorem round_of_eq_mul {x : ℚ} {n : ℤ} (h : x = n * 2 ^ f.exponent x) : f.round x = x := by
  have hq : x / 2 ^ f.exponent x = n := by
    rw [div_eq_iff (unit_pos x).ne']
    exact h
  rw [round, hq, roundEven_intCast, ← h]

/-- Rounding keeps the numbers of the format. -/
theorem round_of_isNumber {x : ℚ} (h : f.IsNumber x) : f.round x = x := by
  obtain rfl | h0 := eq_or_ne x 0
  · exact round_of_eq_mul (n := 0) (by simp)
  have hpos : 0 < |x| := abs_pos.mpr h0
  obtain ⟨m, e, hm, he, hx⟩ := id h
  obtain ⟨n, hn⟩ := h.exists_mul_zpow (Int.zpow_log_le_self (b := 2) one_lt_two hpos)
  obtain hmax | hmax := max_choice (Int.log 2 |x| + 1 - f.prec) f.minExp
  · exact round_of_eq_mul (n := n) (by rw [exponent, hmax]; exact hn)
  · -- the exponent is the least one, and every number is a multiple of its power
    obtain ⟨d, hd⟩ : ∃ d : ℕ, e = f.minExp + d := ⟨(e - f.minExp).toNat, by omega⟩
    refine round_of_eq_mul (n := m * 2 ^ d) ?_
    rw [exponent, hmax, hx, hd, zpow_add₀ two_ne_zero, zpow_natCast]
    push_cast
    ring

@[simp] theorem round_zero : f.round 0 = 0 := by
  simp [round, roundEven]

@[simp] theorem round_neg (x : ℚ) : f.round (-x) = -f.round x := by
  simp [round, exponent, neg_div, roundEven_neg]

theorem round_le_mul {x : ℚ} {n : ℤ} (h : x ≤ n * 2 ^ f.exponent x) :
    f.round x ≤ n * 2 ^ f.exponent x := by
  have hr := roundEven_mono ((div_le_iff₀ (unit_pos x)).mpr h)
  rw [roundEven_intCast] at hr
  exact mul_le_mul_of_nonneg_right (by exact_mod_cast hr) (unit_pos x).le

theorem mul_le_round {x : ℚ} {n : ℤ} (h : n * 2 ^ f.exponent x ≤ x) :
    n * 2 ^ f.exponent x ≤ f.round x := by
  have hr := roundEven_mono ((le_div_iff₀ (unit_pos x)).mpr h)
  rw [roundEven_intCast] at hr
  exact mul_le_mul_of_nonneg_right (by exact_mod_cast hr) (unit_pos x).le

theorem round_nonneg {x : ℚ} (h : 0 ≤ x) : 0 ≤ f.round x := by
  have h0 : ((0 : ℤ) : ℚ) * 2 ^ f.exponent x ≤ f.round x := mul_le_round (by simpa using h)
  simpa using h0

/-- A power of two that is not too small is a multiple of the unit at `x`. -/
theorem exists_zpow_eq_mul {x : ℚ} {k : ℤ} (hk : f.exponent x ≤ k) :
    ∃ n : ℤ, (2 : ℚ) ^ k = n * 2 ^ f.exponent x := by
  obtain ⟨d, hd⟩ : ∃ d : ℕ, k = d + f.exponent x := ⟨(k - f.exponent x).toNat, by omega⟩
  refine ⟨2 ^ d, ?_⟩
  rw [hd, zpow_add₀ two_ne_zero, zpow_natCast]
  push_cast
  rfl

theorem exponent_mono {x y : ℚ} (hx : 0 < x) (h : x ≤ y) : f.exponent x ≤ f.exponent y := by
  have hlog := Int.log_mono_right (b := 2) (abs_pos.mpr hx.ne')
    (abs_le_abs_of_nonneg hx.le h)
  unfold exponent
  omega

theorem round_mono_of_pos {x y : ℚ} (hx : 0 < x) (h : x ≤ y) : f.round x ≤ f.round y := by
  have hy : 0 < y := hx.trans_le h
  obtain hlt | heq := (exponent_mono (f := f) hx h).lt_or_eq
  · -- a power of two lies between them and is a multiple of both units
    have hey : f.exponent y = Int.log 2 |y| + 1 - f.prec := by
      unfold exponent at hlt ⊢
      omega
    have hex : Int.log 2 |x| + 1 - f.prec ≤ f.exponent x := le_max_left _ _
    have hprec := f.prec_pos
    rw [abs_of_pos hy] at hey
    rw [abs_of_pos hx] at hex
    have hxk : x ≤ 2 ^ Int.log 2 y :=
      ((Int.lt_zpow_iff_log_lt (b := 2) one_lt_two hx).mpr (by omega)).le
    have hyk : (2 : ℚ) ^ Int.log 2 y ≤ y := Int.zpow_log_le_self (b := 2) one_lt_two hy
    obtain ⟨n, hn⟩ := exists_zpow_eq_mul (f := f) (x := x) (k := Int.log 2 y) (by omega)
    obtain ⟨m, hm⟩ := exists_zpow_eq_mul (f := f) (x := y) (k := Int.log 2 y) (by omega)
    have h1 : f.round x ≤ 2 ^ Int.log 2 y := hn ▸ round_le_mul (hn ▸ hxk)
    have h2 : 2 ^ Int.log 2 y ≤ f.round y := hm ▸ mul_le_round (hm ▸ hyk)
    exact h1.trans h2
  · have hp := unit_pos (f := f) y
    unfold round
    rw [heq]
    refine mul_le_mul_of_nonneg_right ?_ hp.le
    exact_mod_cast roundEven_mono (div_le_div_of_nonneg_right h hp.le)

/-- Rounding is monotone. -/
theorem round_mono {x y : ℚ} (h : x ≤ y) : f.round x ≤ f.round y := by
  obtain hx | hx := lt_or_ge 0 x
  · exact round_mono_of_pos hx h
  obtain hy | hy := lt_or_ge y 0
  · have := round_mono_of_pos (f := f) (neg_pos.mpr hy) (neg_le_neg h)
    rw [round_neg, round_neg] at this
    linarith
  · have h1 : 0 ≤ f.round (-x) := round_nonneg (by linarith)
    have h2 : 0 ≤ f.round y := round_nonneg hy
    rw [round_neg] at h1
    linarith

/-- The mantissa that rounding chooses is at most `2 ^ prec`. -/
theorem abs_roundEven_le (x : ℚ) : |roundEven (x / 2 ^ f.exponent x)| ≤ 2 ^ f.prec := by
  have hlt : |x| ≤ 2 ^ (f.prec : ℤ) * 2 ^ f.exponent x := by
    rw [← zpow_add₀ two_ne_zero]
    refine (Int.lt_zpow_succ_log_self (b := 2) one_lt_two |x|).le.trans ?_
    have : Int.log 2 |x| + 1 - f.prec ≤ f.exponent x := le_max_left _ _
    exact zpow_le_zpow_right₀ (by norm_num) (by omega)
  have hq : |x / 2 ^ f.exponent x| ≤ ((2 ^ f.prec : ℤ) : ℚ) := by
    rw [abs_div, abs_of_pos (unit_pos x), div_le_iff₀ (unit_pos x)]
    push_cast
    exact_mod_cast hlt
  obtain ⟨h1, h2⟩ := abs_le.mp hq
  have h3 := roundEven_mono h2
  have h4 := roundEven_mono h1
  rw [roundEven_neg] at h4
  rw [roundEven_intCast] at h3 h4
  exact abs_le.mpr ⟨h4, h3⟩

/-- A mantissa that rounds up to `2 ^ prec` belongs to the next exponent. -/
theorem isNumber_two_pow_mul {e : ℤ} (he : f.minExp ≤ e) :
    f.IsNumber (2 ^ f.prec * 2 ^ e) := by
  obtain ⟨q, hq⟩ : ∃ q, f.prec = q + 1 := ⟨f.prec - 1, (Nat.succ_pred f.prec_pos.ne').symm⟩
  refine ⟨2 ^ q, e + 1, ?_, by omega, ?_⟩
  · rw [abs_of_pos (by positivity), hq, pow_succ]
    have : (0 : ℤ) < 2 ^ q := by positivity
    omega
  · rw [hq, zpow_add₀ two_ne_zero, pow_succ]
    push_cast
    ring

/-- Rounding gives a number of the format. -/
theorem isNumber_round (x : ℚ) : f.IsNumber (f.round x) := by
  have hmin : f.minExp ≤ f.exponent x := le_max_right _ _
  obtain hlt | heq := (abs_roundEven_le (f := f) x).lt_or_eq
  · exact ⟨_, f.exponent x, hlt, hmin, rfl⟩
  · rw [abs_eq (by positivity)] at heq
    obtain h | h := heq
    · rw [round, h]
      exact_mod_cast isNumber_two_pow_mul hmin
    · rw [round, h]
      have := (isNumber_two_pow_mul (f := f) hmin).neg
      push_cast
      rwa [neg_mul]

/-! ### Steps of one unit -/

theorem round_intCast (he : f.minExp ≤ 0) {n : ℤ} (hn : |n| < 2 ^ f.prec) :
    f.round (n : ℚ) = n :=
  round_of_isNumber (isNumber_intCast he hn)

/-- Taking one from `x` gives less than `x`, also after rounding: an integer lies between. -/
theorem round_sub_one_lt (he : f.minExp ≤ 0) {x : ℚ} (hx : |⌈x⌉ - 1| < 2 ^ f.prec) :
    f.round (x - 1) < x := by
  have hle : x - 1 ≤ ((⌈x⌉ - 1 : ℤ) : ℚ) := by
    push_cast
    linarith [Int.le_ceil x]
  refine (round_mono hle).trans_lt ?_
  rw [round_intCast he hx]
  push_cast
  linarith [Int.ceil_lt_add_one x]

/-- Adding one to `x` gives more than `x`, also after rounding. -/
theorem lt_round_add_one (he : f.minExp ≤ 0) {x : ℚ} (hx : |⌊x⌋ + 1| < 2 ^ f.prec) :
    x < f.round (x + 1) := by
  have h := round_sub_one_lt (f := f) he (x := -x) (by
    rw [Int.ceil_neg, ← abs_neg]
    rwa [show -(-⌊x⌋ - 1) = ⌊x⌋ + 1 by ring])
  rw [show -x - 1 = -(x + 1) by ring, round_neg] at h
  linarith

theorem one_eq_mul_zpow (d : ℕ) : (1 : ℚ) = 2 ^ d * 2 ^ (-(d : ℤ)) := by
  rw [← zpow_natCast, ← zpow_add₀ two_ne_zero, add_neg_cancel, zpow_zero]

/-- A number below one is less than one by a number: the difference is not rounded to zero. -/
theorem round_sub_one_neg (he : f.minExp ≤ -f.prec) {x : ℚ} (hx : f.IsNumber x) (h0 : 0 < x)
    (h1 : x < 1) : f.round (x - 1) < 0 := by
  have hprec := f.prec_pos
  obtain hhalf | hhalf := lt_or_ge x (1 / 2)
  · -- the difference is below `-1/2`, which is a number
    have hn : f.IsNumber (-(1 / 2)) :=
      ⟨-1, -1, by simpa using one_lt_pow₀ (by norm_num) hprec.ne', by omega, by norm_num⟩
    have := round_mono (f := f) (show x - 1 ≤ -(1 / 2) by linarith)
    rw [round_of_isNumber hn] at this
    linarith
  · -- the difference is a number
    obtain ⟨n, hn⟩ := hx.exists_mul_zpow (k := -1) (by
      rw [abs_of_pos h0]
      norm_num at hhalf ⊢
      exact hhalf)
    rw [show (-1 : ℤ) + 1 - f.prec = -f.prec by ring] at hn
    have hsub : x - 1 = ((n - 2 ^ f.prec : ℤ) : ℚ) * 2 ^ (-(f.prec : ℤ)) := by
      push_cast
      rw [sub_mul, ← one_eq_mul_zpow, ← hn]
    have hnum : f.IsNumber (x - 1) := by
      rw [hsub]
      refine isNumber_mul_zpow he ?_
      rw [← hsub, neg_add_cancel, zpow_zero, abs_lt]
      constructor <;> linarith
    rw [round_of_isNumber hnum]
    linarith

/-- Adding one to a number keeps it a number below the next power of two. -/
theorem IsNumber.add_one {x : ℚ} (hx : f.IsNumber x) {k : ℕ} (hk : k < f.prec)
    (he : f.minExp ≤ k + 1 - f.prec) (h : 2 ^ k ≤ x) (h1 : x + 1 < 2 ^ (k + 1)) :
    f.IsNumber (x + 1) := by
  have hpos : 0 < x := (by positivity : (0 : ℚ) < 2 ^ k).trans_le h
  obtain ⟨n, hn⟩ := hx.exists_mul_zpow (k := k) (by
    rw [abs_of_pos hpos, zpow_natCast]
    exact h)
  obtain ⟨d, hd⟩ : ∃ d, f.prec = k + 1 + d := ⟨f.prec - (k + 1), by omega⟩
  have hexp : (k : ℤ) + 1 - f.prec = -(d : ℤ) := by omega
  rw [hexp] at hn he
  have hadd : x + 1 = ((n + 2 ^ d : ℤ) : ℚ) * 2 ^ (-(d : ℤ)) := by
    push_cast
    rw [add_mul, ← one_eq_mul_zpow, ← hn]
  rw [hadd]
  refine isNumber_mul_zpow he ?_
  rw [← hadd, abs_of_pos (by linarith), show -(d : ℤ) + f.prec = ((k + 1 : ℕ) : ℤ) by omega,
    zpow_natCast]
  exact h1

/-! ### The numbers of a format -/

variable (f) in
/-- The numbers of a format. -/
abbrev Number := { x : ℚ // f.IsNumber x }

variable (f) in
/-- The number a result is rounded to. -/
def toNumber (x : ℚ) : f.Number := ⟨f.round x, isNumber_round x⟩

@[simp] theorem coe_toNumber (x : ℚ) : (f.toNumber x : ℚ) = f.round x := rfl

theorem coe_min (a b : f.Number) : ((min a b : f.Number) : ℚ) = min (a : ℚ) b :=
  (Subtype.mono_coe _).map_min

theorem coe_max (a b : f.Number) : ((max a b : f.Number) : ℚ) = max (a : ℚ) b :=
  (Subtype.mono_coe _).map_max

/-- Between two bounds there are finitely many numbers. -/
theorem finite_isNumber (f : BinaryFormat) (a b : ℚ) :
    {x | f.IsNumber x ∧ a ≤ x ∧ x ≤ b}.Finite := by
  have hunit : (0 : ℚ) < 2 ^ f.minExp := zpow_pos two_pos _
  refine ((Set.finite_Icc ⌊a / 2 ^ f.minExp⌋ ⌈b / 2 ^ f.minExp⌉).image
    fun n : ℤ => (n : ℚ) * 2 ^ f.minExp).subset ?_
  rintro x ⟨⟨m, e, -, he, rfl⟩, ha, hb⟩
  -- every number is a multiple of the smallest positive one
  obtain ⟨d, rfl⟩ : ∃ d : ℕ, e = f.minExp + d := ⟨(e - f.minExp).toNat, by omega⟩
  have hx : (m : ℚ) * 2 ^ (f.minExp + d) = ((m * 2 ^ d : ℤ) : ℚ) * 2 ^ f.minExp := by
    rw [zpow_add₀ two_ne_zero, zpow_natCast]
    push_cast
    ring
  rw [hx] at ha hb ⊢
  refine ⟨m * 2 ^ d, ⟨?_, ?_⟩, rfl⟩
  · exact Int.cast_le.1 ((Int.floor_le _).trans ((div_le_iff₀ hunit).2 ha))
  · exact Int.cast_le.1 (((le_div_iff₀ hunit).2 hb).trans (Int.le_ceil _))

/-- The numbers of double precision. -/
def double : BinaryFormat where
  prec := 53
  minExp := -1074
  prec_pos := by decide

/-- The numbers of single precision. -/
def float : BinaryFormat where
  prec := 24
  minExp := -149
  prec_pos := by decide

theorem double_round_intCast {n : ℤ} (hn : |n| < 2 ^ 53) : double.round (n : ℚ) = n :=
  round_intCast (f := double) (by decide) hn

end BinaryFormat

end InputLeap
