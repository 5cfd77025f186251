import PostfixCalculator.Proofs.Cutting
import PostfixCalculator.Proofs.Numerals
import PostfixCalculator.Proofs.Precedence
import PostfixCalculator.Proofs.Preparation

/-! White space and decimal separators.

White space between the words of a text is passed over, wherever it stands, and within a number none
may be put. What is put between two characters of which one is no part of a number can thus neither
divide a word nor keep two apart that would be one. -/
namespace PostfixCalculator

/-- The second text is the first one with white space put in and with decimal separators replaced by
others. No white space is put between two characters of numbers: `inside` says that the character
before is one. -/
inductive Text.Relaid : Bool → List Char → List Char → Prop where
  | nil {inside} : Relaid inside [] []
  | keep {inside c s t} : Relaid (Numeral.isMember c) s t → Relaid inside (c :: s) (c :: t)
  | replace {inside c d s t} : Numeral.isSeparator c → Numeral.isSeparator d → Relaid true s t →
      Relaid inside (c :: s) (d :: t)
  | space {inside b s t} : Text.isBlank b →
      (inside = false ∨ ∀ c, s.head? = some c → Numeral.isMember c = false) →
      Relaid inside s t → Relaid inside s (b :: t)

namespace Text

theorem relaid_append_blank {w : List Char} (hw : ∀ c ∈ w, isBlank c) (inside : Bool)
    (s : List Char) : Relaid inside s (s ++ w) := by
  induction s generalizing inside with
  | nil =>
    induction w with
    | nil => exact .nil
    | cons b w ih =>
      obtain ⟨hb, hw⟩ := List.forall_mem_cons.mp hw
      exact .space hb (Or.inr (by simp)) (ih hw)
  | cons c s ih => exact .keep (ih _)

theorem relaid_blank_append {w : List Char} (hw : ∀ c ∈ w, isBlank c) {s t : List Char}
    (h : Relaid false s t) : Relaid false s (w ++ t) := by
  induction w with
  | nil => exact h
  | cons b w ih =>
    obtain ⟨hb, hw⟩ := List.forall_mem_cons.mp hw
    exact .space hb (Or.inl rfl) (ih hw)

theorem relaid_trim (s : List Char) : Relaid false (trim s) s := by
  obtain ⟨a, b, hs, ha, hb⟩ := exists_trim s
  have hkept := relaid_blank_append ha (relaid_append_blank hb false (trim s))
  rwa [← List.append_assoc, ← hs] at hkept

end Text

namespace Numeral

theorem isMember_of_isSeparator {c : Char} (h : isSeparator c) : isMember c := by
  simp [isMember, h]

theorem value?_replace {run : List Char} (h : ∀ x ∈ run, isMember x) {c d : Char}
    (hc : isSeparator c) (hd : isSeparator d) (rest : List Char) :
    value? (run ++ c :: rest) = value? (run ++ d :: rest) := by
  have hcount : (run ++ d :: rest).countP isSeparator = (run ++ c :: rest).countP isSeparator := by
    simp [hc, hd]
  rw [value?, value?, hcount]
  by_cases hone : (run ++ c :: rest).countP isSeparator ≤ 1
  · have hnone : run.countP isSeparator = 0 := by
      simp only [List.countP_append, List.countP_cons, hc, ↓reduceIte] at hone
      omega
    have hdigits : ∀ x ∈ run, x.isDigit := by
      intro x hx
      have hmember := h x hx
      rw [isMember, Bool.or_eq_true] at hmember
      exact hmember.resolve_right (List.countP_eq_zero.mp hnone x hx)
    rw [if_pos hone, if_pos hone, decimal_fraction hc hdigits, decimal_fraction hd hdigits]
  · rw [if_neg hone, if_neg hone]

structure Begin (run run' : List Char) : Prop where
  left : IsRun run
  right : IsRun run'
  value : ∀ rest, value? (run ++ rest) = value? (run' ++ rest)

theorem begin_digit {c : Char} (h : c.isDigit) : Begin [c] [c] :=
  ⟨isRun_singleton h, isRun_singleton h, fun _ => rfl⟩

theorem Begin.keep {run run' : List Char} (h : Begin run run') {c : Char} (hc : isMember c) :
    Begin (run ++ [c]) (run' ++ [c]) := by
  refine ⟨h.left.concat hc, h.right.concat hc, ?_⟩
  intro rest
  rw [List.append_assoc, List.append_assoc]
  exact h.value _

theorem Begin.replace {run run' : List Char} (h : Begin run run') {c d : Char}
    (hc : isSeparator c) (hd : isSeparator d) : Begin (run ++ [c]) (run' ++ [d]) := by
  refine ⟨h.left.concat (isMember_of_isSeparator hc), h.right.concat (isMember_of_isSeparator hd), ?_⟩
  intro rest
  rw [List.append_assoc, List.append_assoc, h.value]
  exact value?_replace h.right.2 hc hd rest

end Numeral

namespace Reading

variable {s t : List Char} {ts : List Token}

theorem stray_of_isSeparator {c : Char} (h : Numeral.isSeparator c) : Stray [] c := by
  refine ⟨Reader.not_endsNumber_of_isMember (Numeral.isMember_of_isSeparator h), Or.inl ⟨rfl, ?_⟩⟩
  by_contra hdigit
  simp [Numeral.not_isSeparator_of_isDigit (Bool.of_not_eq_false hdigit)] at h

theorem spells_begin_iff {run run' : List Char} (h : Numeral.Begin run run')
    (hs : ∀ c, s.head? = some c → Numeral.isMember c = false)
    (ht : ∀ c, t.head? = some c → Numeral.isMember c = false)
    (hrest : ∀ us, Spells s us ↔ Spells t us) :
    Spells (run ++ s) ts ↔ Spells (run' ++ t) ts := by
  have hvalue := h.value []
  rw [List.append_nil, List.append_nil] at hvalue
  rw [spells_run_iff h.left hs, spells_run_iff h.right ht, hvalue]
  simp only [hrest]

/-- A text is in the midst of a number, and another one in the midst of the same number; or neither
is. -/
def Midst (inside : Bool) (run run' : List Char) : Prop :=
  (run = [] ∧ run' = []) ∨ (inside = true ∧ Numeral.Begin run run')

theorem spells_keep_iff {c : Char}
    (h : ∀ run run' us, Midst (Numeral.isMember c) run run' →
      (Spells (run ++ s) us ↔ Spells (run' ++ t) us)) :
    Spells (c :: s) ts ↔ Spells (c :: t) ts := by
  have hrest : ∀ us, Spells s us ↔ Spells t us := fun us => h [] [] us (Or.inl ⟨rfl, rfl⟩)
  by_cases hblank : Text.isBlank c
  · rw [spells_blank_iff hblank, spells_blank_iff hblank]
    exact hrest ts
  cases htoken : Token.ofChar? c with
  | some token =>
    rw [spells_symbol_iff htoken, spells_symbol_iff htoken]
    simp only [hrest]
  | none =>
    by_cases hdigit : c.isDigit
    · have hmidst : Midst (Numeral.isMember c) [c] [c] :=
        Or.inr ⟨Numeral.isMember_of_isDigit hdigit, Numeral.begin_digit hdigit⟩
      exact h [c] [c] ts hmidst
    · have hstray := stray_nil hblank htoken hdigit
      exact iff_of_false (not_spells_stray hstray) (not_spells_stray hstray)

end Reading

/-- Texts that differ in their white space and their separators have the same tokens, or neither of
them is read without an error. -/
theorem Text.Relaid.spells_iff {inside : Bool} {s t : List Char} (h : Relaid inside s t)
    {run run' : List Char} (hrun : Reading.Midst inside run run') (ts : List Token) :
    Reading.Spells (run ++ s) ts ↔ Reading.Spells (run' ++ t) ts := by
  induction h generalizing run run' ts with
  | nil =>
    rcases hrun with ⟨rfl, rfl⟩ | ⟨_, hbegin⟩
    · exact Iff.rfl
    · exact Reading.spells_begin_iff hbegin (by simp) (by simp) fun _ => Iff.rfl
  | @keep inside c s t _ ih =>
    have hfirst : ∀ us, Reading.Spells (c :: s) us ↔ Reading.Spells (c :: t) us :=
      fun us => Reading.spells_keep_iff fun _ _ us hmidst => ih hmidst us
    rcases hrun with ⟨rfl, rfl⟩ | ⟨_, hbegin⟩
    · exact hfirst ts
    · by_cases hmember : Numeral.isMember c
      · have hmore := ih (Or.inr ⟨hmember, hbegin.keep hmember⟩) ts
        rwa [List.append_assoc, List.append_assoc] at hmore
      · have hout : ∀ {l : List Char} d, (c :: l).head? = some d → Numeral.isMember d = false := by
          intro l d hd
          cases hd
          simpa using hmember
        exact Reading.spells_begin_iff hbegin hout hout hfirst
  | @replace inside c d s t hc hd _ ih =>
    rcases hrun with ⟨rfl, rfl⟩ | ⟨_, hbegin⟩
    · exact iff_of_false (Reading.not_spells_stray (Reading.stray_of_isSeparator hc))
        (Reading.not_spells_stray (Reading.stray_of_isSeparator hd))
    · have hmore := ih (Or.inr ⟨rfl, hbegin.replace hc hd⟩) ts
      rwa [List.append_assoc, List.append_assoc] at hmore
  | @space inside b s t hb hplace _ ih =>
    have hrest : ∀ us, Reading.Spells s us ↔ Reading.Spells (b :: t) us := by
      intro us
      rw [Reading.spells_blank_iff hb]
      exact ih (Or.inl ⟨rfl, rfl⟩) us
    rcases hrun with ⟨rfl, rfl⟩ | ⟨rfl, hbegin⟩
    · exact hrest ts
    · refine Reading.spells_begin_iff hbegin (hplace.resolve_left (by decide)) ?_ hrest
      intro c hc
      cases hc
      exact Reader.not_isMember_of_endsNumber (Reader.endsNumber_of_isBlank hb)

namespace Session

variable {session : Session} {e e' : String}

theorem parse_of_spells (h : ∀ ts, Reading.Spells e.toList ts → Reading.Spells e'.toList ts)
    {text : String} (hparse : (session.parse e).1 = .ok text) :
    ∃ tree, session.parse e = (.ok text, ⟨session.table, some tree⟩) ∧
      session.parse e' = (.ok text, ⟨session.table, some tree⟩) := by
  obtain ⟨tree, hconverted⟩ := postfix_of_parse hparse
  have hfirst := parse_of_postfix hconverted
  have htext : text = Postfix.text tree.inPostfix := by
    rw [hfirst] at hparse
    cases hparse
    rfl
  subst htext
  obtain ⟨us, hus, hencloses⟩ := Conversion.ofText_closing_iff.mp hconverted
  obtain ⟨ts, hts, rfl⟩ := Reading.spells_insert_iff.mp hus
  have hus' : Reading.Spells (ImplicitZero.insert e'.toList) (Token.zeroed .opening ts) :=
    Reading.spells_insert_iff.mpr ⟨ts, h ts hts, rfl⟩
  have hconverted' := Conversion.ofText_closing_iff.mpr ⟨_, hus', hencloses⟩
  exact ⟨tree, hfirst, parse_of_postfix hconverted'⟩

/-- White space between words and the choice of the decimal separator make no difference to an
expression that is parsed: it is parsed to the same postfix order and the same tree with others. -/
theorem parse_relaid (session : Session) {e e' : String}
    (h : Text.Relaid false e.toList e'.toList) :
    (∀ text, (session.parse e).1 = .ok text ↔ (session.parse e').1 = .ok text) ∧
      ∀ text, (session.parse e).1 = .ok text → ∃ tree,
        (session.parse e).2 = ⟨session.table, some tree⟩ ∧
          (session.parse e').2 = ⟨session.table, some tree⟩ := by
  have hspells : ∀ ts, Reading.Spells e.toList ts ↔ Reading.Spells e'.toList ts :=
    h.spells_iff (Or.inl ⟨rfl, rfl⟩)
  constructor
  · intro text
    constructor
    · intro hparse
      obtain ⟨tree, _, hsame⟩ := parse_of_spells (fun ts => (hspells ts).mp) hparse
      rw [hsame]
    · intro hparse
      obtain ⟨tree, _, hsame⟩ := parse_of_spells (fun ts => (hspells ts).mpr) hparse
      rw [hsame]
  · intro text hparse
    obtain ⟨tree, hfirst, hsame⟩ := parse_of_spells (fun ts => (hspells ts).mp) hparse
    rw [hfirst, hsame]
    exact ⟨tree, rfl, rfl⟩

theorem relaid_spread :
    Text.Relaid false "1,5*(-2+3.25)".toList "\u00a01.5 *(-\u30002+3,25)\n".toList := by
  have hdense : "1,5*(-2+3.25)".toList =
      ['1', ',', '5', '*', '(', '-', '2', '+', '3', '.', '2', '5', ')'] := by decide +kernel
  have hspread : "\u00a01.5 *(-\u30002+3,25)\n".toList =
      ['\u00a0', '1', '.', '5', ' ', '*', '(', '-', '\u3000', '2', '+', '3', ',', '2', '5', ')',
        '\n'] := by decide +kernel
  have hstar : ∀ c, some '*' = some c → Numeral.isMember c = false := by
    intro c hc
    cases hc
    decide
  rw [hdense, hspread]
  refine .space (by decide) (Or.inl rfl) ?_
  refine .keep (.replace (by decide) (by decide) (.keep ?_))
  refine .space (by decide) (Or.inr hstar) ?_
  refine .keep (.keep (.keep ?_))
  refine .space (by decide) (Or.inl (by decide)) ?_
  refine .keep (.keep (.keep ?_))
  refine .replace (by decide) (by decide) (.keep (.keep (.keep ?_)))
  exact .space (by decide) (Or.inl (by decide)) .nil

theorem parse_relaid_spread :
    (∀ text, ((start .standard).parse "1,5*(-2+3.25)").1 = .ok text ↔
      ((start .standard).parse "\u00a01.5 *(-\u30002+3,25)\n").1 = .ok text) ∧
    ∃ tree, ((start .standard).parse "1,5*(-2+3.25)").2 = ⟨.standard, some tree⟩ ∧
      ((start .standard).parse "\u00a01.5 *(-\u30002+3,25)\n").2 = ⟨.standard, some tree⟩ := by
  have hparse : ((start .standard).parse "1,5*(-2+3.25)").1 = .ok "1.5 0 2 - 3.25 + *" := by
    decide +kernel
  obtain ⟨hsame, htree⟩ := parse_relaid (start .standard) relaid_spread
  exact ⟨hsame, htree _ hparse⟩

end Session

end PostfixCalculator
