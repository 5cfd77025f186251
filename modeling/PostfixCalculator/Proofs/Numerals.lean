import PostfixCalculator.Proofs.Pattern
import PostfixCalculator.Proofs.Rounding
import PostfixCalculator.Proofs.Words

/-! The text of a finite number without a sign is a numeral and reads back to the number. -/
namespace PostfixCalculator

namespace Numeral

/-- Digits, and possibly a point with further digits after it. -/
def Plain (run : List Char) : Prop :=
  ∃ whole fraction : List Char, whole ≠ [] ∧ (∀ c ∈ whole ++ fraction, c.isDigit) ∧
    (run = whole ∨ run = whole ++ '.' :: fraction)

theorem not_isSeparator_of_isDigit {c : Char} (h : c.isDigit) : isSeparator c = false := by
  rw [isSeparator, Bool.or_eq_false_iff]
  constructor
  · exact beq_false_of_ne fun he => absurd h (by simp [he])
  · exact beq_false_of_ne fun he => absurd h (by simp [he])

namespace Plain

variable {run : List Char}

theorem isMember (h : Plain run) : ∀ c ∈ run, isMember c := by
  obtain ⟨whole, fraction, _, hdigits, rfl | rfl⟩ := h
  · exact fun c hc => isMember_of_isDigit (hdigits c (by simp [hc]))
  · intro c hc
    rcases List.mem_append.mp hc with hc | hc
    · exact isMember_of_isDigit (hdigits c (by simp [hc]))
    · rcases List.mem_cons.mp hc with rfl | hc
      · decide
      · exact isMember_of_isDigit (hdigits c (by simp [hc]))

theorem countP_le (h : Plain run) : run.countP isSeparator ≤ 1 := by
  have hnone {ds : List Char} (hds : ∀ c ∈ ds, c.isDigit) : ds.countP isSeparator = 0 :=
    List.countP_eq_zero.mpr fun c hc => by simp [not_isSeparator_of_isDigit (hds c hc)]
  obtain ⟨whole, fraction, _, hdigits, hrun⟩ := h
  have hwhole := hnone fun c hc => hdigits c (List.mem_append_left _ hc)
  have hfraction := hnone fun c hc => hdigits c (List.mem_append_right _ hc)
  rcases hrun with rfl | rfl
  · omega
  · rw [List.countP_append, List.countP_cons, hwhole, hfraction]
    split <;> omega

theorem isRun (h : Plain run) : IsRun run := by
  refine ⟨?_, h.isMember⟩
  obtain ⟨whole, fraction, hne, hdigits, hrun⟩ := h
  obtain ⟨c, rest, rfl⟩ := List.exists_cons_of_ne_nil hne
  refine ⟨c, ?_, hdigits c (by simp)⟩
  rcases hrun with rfl | rfl <;> rfl

end Plain

theorem decimal_whole {whole : List Char} (h : ∀ c ∈ whole, c.isDigit) :
    decimal whole = ⟨Nat.ofDigitChars 10 whole 0, 0⟩ := by
  have htake : whole.takeWhile Char.isDigit = whole := List.takeWhile_eq_self_iff.mpr h
  have hdrop : whole.dropWhile Char.isDigit = [] := List.dropWhile_eq_nil_iff.mpr h
  simp [decimal, htake, hdrop]

theorem decimal_fraction {c : Char} (hc : isSeparator c) {whole : List Char}
    (h : ∀ d ∈ whole, d.isDigit) (fraction : List Char) :
    decimal (whole ++ c :: fraction) =
      ⟨Nat.ofDigitChars 10 (whole ++ fraction) 0, -(fraction.length : Int)⟩ := by
  have hpoint : ¬ c.isDigit := by
    intro hdigit
    simp [not_isSeparator_of_isDigit hdigit] at hc
  have htake : (whole ++ c :: fraction).takeWhile Char.isDigit = whole := by
    rw [List.takeWhile_append_of_pos h, List.takeWhile_cons_of_neg hpoint, List.append_nil]
  have hdrop : (whole ++ c :: fraction).dropWhile Char.isDigit = c :: fraction := by
    rw [List.dropWhile_append_of_pos h, List.dropWhile_cons_of_neg hpoint]
  simp [decimal, htake, hdrop]

end Numeral

namespace Layout

theorem isDigit_of_mem_toDigits {n : ℕ} : ∀ c ∈ Nat.toDigits 10 n, c.isDigit :=
  fun _ hc => Nat.isDigit_of_mem_toDigits (by decide) (by decide) hc

theorem isDigit_of_mem_replicate {n : ℕ} : ∀ c ∈ List.replicate n '0', c.isDigit := by
  intro c hc
  rw [List.eq_of_mem_replicate hc]
  decide

theorem isDigit_of_mem_zero : ∀ c ∈ ['0'], c.isDigit :=
  isDigit_of_mem_replicate (n := 1)

theorem spread_cases (d : Decimal) :
    (∃ n : ℕ, d.exponent = n ∧ plain.spread d = Nat.toDigits 10 d.digits ++ List.replicate n '0') ∨
    (∃ whole fraction, whole ≠ [] ∧ whole ++ fraction = Nat.toDigits 10 d.digits ∧
      d.exponent = -(fraction.length : Int) ∧ plain.spread d = whole ++ '.' :: fraction) ∨
    ∃ n : ℕ, d.exponent = -((List.replicate n '0' ++ Nat.toDigits 10 d.digits).length : Int) ∧
      plain.spread d = ['0'] ++ '.' :: (List.replicate n '0' ++ Nat.toDigits 10 d.digits) := by
  rw [spread]
  by_cases hexp : 0 ≤ d.exponent
  · obtain ⟨n, hn⟩ := Int.eq_ofNat_of_zero_le hexp
    exact Or.inl ⟨n, hn, by simp [hn, plain]⟩
  by_cases hwhole : 0 < (Nat.toDigits 10 d.digits).length + d.exponent
  · right
    left
    obtain ⟨n, hn⟩ := Int.eq_ofNat_of_zero_le hwhole.le
    refine ⟨(Nat.toDigits 10 d.digits).take n, (Nat.toDigits 10 d.digits).drop n, ?_,
      List.take_append_drop _ _, ?_, ?_⟩
    · intro hnil
      have := congrArg List.length hnil
      rw [List.length_take, List.length_nil] at this
      omega
    · rw [List.length_drop]
      omega
    · rw [if_neg hexp, if_pos hwhole, hn]
      rfl
  · right
    right
    have hneg : 0 ≤ -((Nat.toDigits 10 d.digits).length + d.exponent) := by omega
    obtain ⟨n, hn⟩ := Int.eq_ofNat_of_zero_le hneg
    refine ⟨n, ?_, by simp [hexp, hwhole, hn]⟩
    rw [List.length_append, List.length_replicate]
    omega

theorem plain_spread (d : Decimal) : Numeral.Plain (plain.spread d) := by
  rcases spread_cases d with ⟨n, _, h⟩ | ⟨whole, fraction, hne, hds, _, h⟩ | ⟨n, _, h⟩
  · refine ⟨_, [], by simp [Nat.toDigits_ne_nil], ?_, Or.inl h⟩
    rw [List.append_nil]
    exact List.forall_mem_append.mpr ⟨isDigit_of_mem_toDigits, isDigit_of_mem_replicate⟩
  · exact ⟨whole, fraction, hne, hds ▸ isDigit_of_mem_toDigits, Or.inr h⟩
  · refine ⟨['0'], _, by simp, ?_, Or.inr h⟩
    exact List.forall_mem_append.mpr ⟨isDigit_of_mem_zero, List.forall_mem_append.mpr
      ⟨isDigit_of_mem_replicate, isDigit_of_mem_toDigits⟩⟩

theorem toRat_decimal_spread (d : Decimal) :
    (Numeral.decimal (plain.spread d)).toRat = d.toRat := by
  rcases spread_cases d with ⟨n, hexp, h⟩ | ⟨whole, fraction, _, hds, hexp, h⟩ | ⟨n, hexp, h⟩
  · rw [h, Numeral.decimal_whole (List.forall_mem_append.mpr
      ⟨isDigit_of_mem_toDigits, isDigit_of_mem_replicate⟩), Nat.ofDigitChars_append,
      Nat.ofDigitChars_ten_toDigits, Nat.ofDigitChars_replicate_zero, Decimal.toRat, Decimal.toRat,
      hexp, zpow_natCast]
    push_cast
    ring
  · have hwhole : ∀ c ∈ whole, c.isDigit := fun c hc =>
      isDigit_of_mem_toDigits c (hds ▸ List.mem_append_left _ hc)
    rw [h, Numeral.decimal_fraction (by decide) hwhole, hds, Nat.ofDigitChars_ten_toDigits, ← hexp]
  · rw [h, Numeral.decimal_fraction (by decide) isDigit_of_mem_zero, ← hexp, Nat.ofDigitChars_append,
      Nat.ofDigitChars_append, Nat.ofDigitChars_cons, Nat.ofDigitChars_nil,
      Nat.ofDigitChars_replicate_zero]
    simp [Nat.ofDigitChars_ten_toDigits]

def unsigned (b : Nat) : List Char :=
  if b = Binary64.infinity then ['i', 'n', 'f'] else plain.spread (Binary64.shortest b)

theorem unsigned_cases (b : Nat) :
    unsigned b = ['i', 'n', 'f'] ∨ Numeral.Plain (unsigned b) := by
  rw [unsigned]
  split
  · exact Or.inl rfl
  · exact Or.inr (plain_spread _)

theorem unsigned_begin (b : Nat) : ∃ c s, unsigned b = c :: s ∧ (c = 'i' ∨ c.isDigit) := by
  rcases unsigned_cases b with hinf | hplain
  · exact ⟨_, _, hinf, Or.inl rfl⟩
  · obtain ⟨⟨c, hhead, hdigit⟩, -⟩ := hplain.isRun
    obtain ⟨s, hs⟩ := List.head?_eq_some_iff.mp hhead
    exact ⟨c, s, hs, Or.inr hdigit⟩

theorem number_cases (x : Float) :
    (x = Float.ofBits 0x7FF8000000000000 ∧ plain.number x = ['N', 'a', 'N']) ∨
      Binary64.magnitude x ≤ Binary64.infinity ∧
        plain.number x = (if Binary64.isNegative x then ['-'] else []) ++
          unsigned (Binary64.magnitude x) := by
  by_cases hundefined : Binary64.infinity < Binary64.magnitude x
  · exact Or.inl ⟨Binary64.eq_of_infinity_lt hundefined, if_pos hundefined⟩
  · refine Or.inr ⟨Nat.le_of_not_lt hundefined, ?_⟩
    simp [number, hundefined, unsigned, decimal, plain]

theorem plain_number_ne_nil (x : Float) : plain.number x ≠ [] := by
  rcases number_cases x with ⟨-, hnumber⟩ | ⟨-, hnumber⟩
  · simp [hnumber]
  · obtain ⟨c, s, hbegin, -⟩ := unsigned_begin (Binary64.magnitude x)
    simp [hnumber, hbegin]

variable {x : Float}

theorem number_of_finite (h : x.toBits.toNat < Binary64.infinity) :
    plain.number x = plain.spread (Binary64.shortest x.toBits.toNat) := by
  have hlt : x.toBits.toNat < Binary64.signBit :=
    h.trans (by decide : Binary64.infinity < Binary64.signBit)
  have hmagnitude : Binary64.magnitude x = x.toBits.toNat := Nat.mod_eq_of_lt hlt
  have hsign : Binary64.isNegative x = false := by simpa [Binary64.isNegative] using hlt
  simp [number, hmagnitude, hsign, h.not_gt, h.ne, decimal, plain]

theorem plain_number (h : x.toBits.toNat < Binary64.infinity) :
    Numeral.Plain (plain.number x) := by
  rw [number_of_finite h]
  exact plain_spread _

/-- Reading the text of a number gives the number. -/
theorem value?_number (h : x.toBits.toNat < Binary64.infinity) :
    Numeral.value? (plain.number x) = some x := by
  have hnearest : Binary64.nearest (Numeral.decimal (plain.number x)) = x.toBits.toNat := by
    rw [number_of_finite h, Binary64.nearest_congr (toRat_decimal_spread _),
      Binary64.nearest_shortest h]
  rw [Numeral.value?, if_pos (plain_number h).countP_le, Binary64.ofDecimal, hnearest,
    UInt64.ofNat_toNat, Binary64.ofBits_toBits]

end Layout

namespace Reading

theorem spells_plain {run : List Char} (h : Numeral.Plain run) {x : Float}
    (hx : Numeral.value? run = some x) : Spells run [.number x] := by
  have hend : Delimited [] := fun c hc => by cases hc
  have hread := (Reads.number h.isRun hx hend .finished).sound
  rw [List.append_nil] at hread
  exact hread.symm

end Reading

end PostfixCalculator
